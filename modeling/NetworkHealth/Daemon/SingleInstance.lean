import Mathlib.Data.UInt
import NetworkHealth.Daemon.Text
import NetworkHealth.Library.FileLock
import NetworkHealth.Library.FileSystem
import NetworkHealth.Library.Machine

/-! `main`, from the lock to the end of the process, for any number of processes that run it in one
runtime directory. A process identifier may be used again once its process is gone. -/
namespace NetworkHealth.Daemon.SingleInstance

/-- The system call a process is about to make. -/
inductive Position
  | makeDirectories
  | openLock
  | flock
  /-- The lock was refused. -/
  | closeLock
  | fork
  /-- In the first child. -/
  | setsid
  | forkAgain
  /-- A process that has forked, before its `_exit`. -/
  | parent
  | ftruncate
  | lseek
  | writePid
  | blockSignals
  /-- There is a monitor. -/
  | monitoring
  | unlinkJson
  | unlinkIni
  | returning
  deriving DecidableEq, Repr

/-- Between taking the lock and giving up the state files. A process that has forked is not among them. -/
def Position.working : Position → Bool
  | fork | setsid | forkAgain | ftruncate | lseek | writePid | blockSignals | monitoring | unlinkJson
  | unlinkIni => true
  | makeDirectories | openLock | flock | closeLock | parent | returning => false

/-- Before the lock file is opened. -/
def Position.unopened : Position → Bool
  | makeDirectories | openLock => true
  | _ => false

structure Process where
  position : Position
  background : Bool
  /-- What `lockFd` stands for. -/
  description : Option ℕ
  deriving DecidableEq, Repr

/-- What comes next, with its outcome. -/
inductive Call
  | start (background : Bool)
  | makeDirectories (succeeds : Bool)
  | openLock (succeeds : Bool)
  | flock
  | closeLock
  | fork (child : Option ℕ)
  | setsid (succeeds : Bool)
  | ftruncate (succeeds : Bool)
  | lseek (succeeds : Bool)
  /-- The number of bytes written. -/
  | writePid (count : Option ℕ)
  | blockSignals (succeeds : Bool)
  | publishIni (contents : Bytes)
  | publishJson (contents : Bytes)
  /-- `start` fails, or `run` returns. -/
  | leave
  | unlinkJson
  | unlinkIni
  | exit
  /-- A signal that ends the process where it is. -/
  | kill
  deriving DecidableEq, Repr

/-- The processes and the files of the runtime directory. -/
structure World where
  processes : ℕ → Option Process
  lock : FileLock ℕ
  lockFile : Option Bytes
  stateIni : Option Bytes
  stateJson : Option Bytes

def pidText (pid : ℕ) : Bytes := decimal pid ++ ascii "\n"

/-- The calls that change nothing but the position. -/
def Position.after : Position → Call → Option Position
  | makeDirectories, .makeDirectories succeeds => some (if succeeds then openLock else returning)
  | openLock, .openLock false => some returning
  | fork, .fork none => some returning
  | setsid, .setsid succeeds => some (if succeeds then forkAgain else returning)
  | forkAgain, .fork none => some returning
  | ftruncate, .ftruncate false => some blockSignals
  | lseek, .lseek succeeds => some (if succeeds then writePid else blockSignals)
  | writePid, .writePid none => some blockSignals
  | blockSignals, .blockSignals succeeds => some (if succeeds then monitoring else returning)
  | monitoring, .leave => some unlinkJson
  | _, _ => none

namespace World
variable (w : World) (pid : ℕ) (p : Process)

def put : World := { w with processes := Function.update w.processes pid (some p) }

/-- The process ends, and what it had open is closed. -/
def gone : World :=
  { w with processes := Function.update w.processes pid none, lock := w.lock.release pid }

def openLock : World :=
  { w with
    processes := Function.update w.processes pid (some { p with position := .flock, description := some w.lock.opened })
    lock := w.lock.openFile pid
    lockFile := some (w.lockFile.getD []) }

def flock : World :=
  match p.description.bind (w.lock.lock pid) with
  | none => w.put pid { p with position := .closeLock }
  | some lock =>
    { w with
      processes := Function.update w.processes pid
        (some { p with position := if p.background then .fork else .ftruncate })
      lock := lock }

def closeLock : World :=
  { w with
    processes := Function.update w.processes pid (some { p with position := .returning, description := none })
    lock := w.lock.release pid }

/-- The child goes on, and the parent is to end. -/
def fork (child : ℕ) (position : Position) : World :=
  if (w.processes child).isSome then w
  else { w with
    processes := Function.update (Function.update w.processes pid (some { p with position := .parent })) child
      (some { p with position := position })
    lock := w.lock.fork pid child }

def call (c : Call) : World :=
  match p.position, c with
  | _, .kill => w.gone pid
  | .openLock, .openLock true => w.openLock pid p
  | .flock, .flock => w.flock pid p
  | .closeLock, .closeLock => w.closeLock pid p
  | .fork, .fork (some child) => w.fork pid p child .setsid
  | .forkAgain, .fork (some child) => w.fork pid p child .ftruncate
  | .ftruncate, .ftruncate true => { w.put pid { p with position := .lseek } with lockFile := some [] }
  | .writePid, .writePid (some count) =>
    { w.put pid { p with position := .blockSignals } with
      lockFile := some (writeAt (w.lockFile.getD []) 0 ((pidText pid).take count)) }
  | .monitoring, .publishIni contents => { w with stateIni := some contents }
  | .monitoring, .publishJson contents => { w with stateJson := some contents }
  | .unlinkJson, .unlinkJson => { w.put pid { p with position := .unlinkIni } with stateJson := none }
  | .unlinkIni, .unlinkIni => { w.put pid { p with position := .returning } with stateIni := none }
  | .returning, .exit | .parent, .exit => w.gone pid
  | position, c =>
    match position.after c with
    | none => w
    | some next => w.put pid { p with position := next }

def step (w : World) (a : ℕ × Call) : World :=
  match w.processes a.1, a.2 with
  | some p, c => w.call a.1 p c
  | none, .start background => w.put a.1 ⟨.makeDirectories, background, none⟩
  | none, _ => w

def machine : Machine World (ℕ × Call) := ⟨step⟩

/-- Before the first start, whatever an earlier session has left. -/
def initial (lockFile stateIni stateJson : Option Bytes) : World :=
  ⟨fun _ => none, .unopened, lockFile, stateIni, stateJson⟩

/-- A process that has the lock and has not left its files. -/
def Working : Prop := ∃ p, w.processes pid = some p ∧ p.position.working = true

/-- The files. -/
def files : Option Bytes × Option Bytes × Option Bytes := (w.lockFile, w.stateIni, w.stateJson)

end World

section Change

/-- What a step can do. Only a working process changes files that exist. -/
inductive Change (w : World) (pid : ℕ) : World → Prop
  | idle : Change w pid w
  | launch (background : Bool) (h : w.processes pid = none) :
      Change w pid (w.put pid ⟨.makeDirectories, background, none⟩)
  | move {p : Process} {next : Position} {lockFile stateIni stateJson : Option Bytes} (h : w.processes pid = some p)
      (hflock : next ≠ .flock) (hunopened : next.unopened = true → p.position.unopened = true)
      (hworking : next.working = true → p.position.working = true)
      (hfiles : p.position.working = true ∨ (lockFile, stateIni, stateJson) = w.files)
      (hcreated : w.lockFile.isSome = true → lockFile.isSome = true) :
      Change w pid ⟨Function.update w.processes pid (some { p with position := next }), w.lock,
        lockFile, stateIni, stateJson⟩
  | openLock {p : Process} (h : w.processes pid = some p) (hposition : p.position = .openLock) :
      Change w pid (w.openLock pid p)
  | lock {p : Process} {d : ℕ} {lock : FileLock ℕ} {next : Position} (h : w.processes pid = some p)
      (hposition : p.position = .flock) (hdescription : p.description = some d) (hlock : w.lock.lock pid d = some lock)
      (hnext : next = .fork ∨ next = .ftruncate) :
      Change w pid { w with
        processes := Function.update w.processes pid (some { p with position := next }), lock := lock }
  | close {p : Process} (h : w.processes pid = some p) : Change w pid (w.closeLock pid p)
  | fork {p : Process} {child : ℕ} {next : Position} (h : w.processes pid = some p)
      (hworking : p.position.working = true) (hchild : w.processes child = none)
      (hnext : next = .setsid ∨ next = .ftruncate) : Change w pid (w.fork pid p child next)
  | gone {p : Process} (h : w.processes pid = some p) : Change w pid (w.gone pid)

variable {w : World} {pid : ℕ} {p : Process}

/-- A call that only moves on. -/
theorem change_after {next : Position} {c : Call} (h : w.processes pid = some p)
    (hafter : p.position.after c = some next) : Change w pid (w.put pid { p with position := next }) := by
  have hnext : next ≠ .flock ∧ (next.unopened = true → p.position.unopened = true) ∧
      (next.working = true → p.position.working = true) := by
    unfold Position.after at hafter
    split at hafter <;> cases hafter <;> simp_all [Position.unopened, Position.working] <;> split_ifs <;> simp
  exact .move h hnext.1 hnext.2.1 hnext.2.2 (Or.inr rfl) id

theorem change_fork {child : ℕ} {next : Position} (h : w.processes pid = some p) (hworking : p.position.working = true)
    (hnext : next = .setsid ∨ next = .ftruncate) : Change w pid (w.fork pid p child next) := by
  by_cases hchild : w.processes child = none
  · exact .fork h hworking hchild hnext
  · rw [World.fork, if_pos (Option.isSome_iff_ne_none.mpr hchild)]
    exact .idle

theorem change_flock (h : w.processes pid = some p) (hposition : p.position = .flock) :
    Change w pid (w.flock pid p) := by
  unfold World.flock
  split
  · exact .move h nofun nofun nofun (Or.inr rfl) id
  · next lock hlock =>
    obtain ⟨d, hdescription, hlock⟩ := Option.bind_eq_some_iff.mp hlock
    refine .lock h hposition hdescription hlock ?_
    split_ifs
    · exact Or.inl rfl
    · exact Or.inr rfl

/-- A working process changes files, and moves on or stays. -/
theorem change_files {next : Position} {lockFile stateIni stateJson : Option Bytes} (h : w.processes pid = some p)
    (hworking : p.position.working = true) (hflock : next ≠ .flock) (hunopened : next.unopened = false)
    (hcreated : w.lockFile.isSome = true → lockFile.isSome = true) :
    Change w pid ⟨Function.update w.processes pid (some { p with position := next }), w.lock,
      lockFile, stateIni, stateJson⟩ :=
  .move h hflock (fun hopened => by simp [hunopened] at hopened) (fun _ => hworking) (Or.inl hworking) hcreated

theorem change_publish (stateIni stateJson : Option Bytes) (h : w.processes pid = some p)
    (hposition : p.position = .monitoring) :
    Change w pid { w with stateIni := stateIni, stateJson := stateJson } := by
  have hself : Function.update w.processes pid (some { p with position := .monitoring }) = w.processes := by
    rw [← hposition, Function.update_eq_self_iff]
    exact h.symm
  have hchange : Change w pid ⟨Function.update w.processes pid (some { p with position := .monitoring }), w.lock,
      w.lockFile, stateIni, stateJson⟩ :=
    change_files h (by rw [hposition]; rfl) nofun rfl id
  rwa [hself] at hchange

theorem change_call (h : w.processes pid = some p) (c : Call) : Change w pid (w.call pid p c) := by
  unfold World.call
  split
  · exact .gone h
  · next hposition => exact .openLock h hposition
  · next hposition => exact change_flock h hposition
  · exact .close h
  · next hposition => exact change_fork h (by rw [hposition]; rfl) (Or.inl rfl)
  · next hposition => exact change_fork h (by rw [hposition]; rfl) (Or.inr rfl)
  · next hposition => exact change_files h (by rw [hposition]; rfl) nofun rfl fun _ => rfl
  · next hposition => exact change_files h (by rw [hposition]; rfl) nofun rfl fun _ => rfl
  · next hposition => exact change_publish _ _ h hposition
  · next hposition => exact change_publish _ _ h hposition
  · next hposition => exact change_files h (by rw [hposition]; rfl) nofun rfl id
  · next hposition => exact change_files h (by rw [hposition]; rfl) nofun rfl id
  · exact .gone h
  · exact .gone h
  · split
    · exact .idle
    · next hafter => exact change_after h hafter

theorem change_step (w : World) (a : ℕ × Call) : Change w a.1 (w.step a) := by
  unfold World.step
  split
  · next h => exact change_call h _
  · next h _ => exact .launch _ h
  · exact .idle

end Change

section Invariant

/-- Who has the lock file open, and who has the lock. -/
structure Exclusive (w : World) : Prop where
  descriptors : ∀ q d, (q, d) ∈ w.lock.descriptors ↔ ∃ p, w.processes q = some p ∧ p.description = some d
  unopened : ∀ q p, w.processes q = some p → p.position.unopened = true → p.description = none
  /-- A description that has not been locked yet is nobody else's. -/
  unshared : ∀ q p, w.processes q = some p → p.position = .flock →
    ∃ d, p.description = some d ∧ ∀ r, (r, d) ∈ w.lock.descriptors → r = q
  working : ∀ q p, w.processes q = some p → p.position.working = true →
    ∃ d, p.description = some d ∧ w.lock.holder = some d
  single : ∀ q r, w.Working q → w.Working r → q = r
  created : ∀ e ∈ w.lock.descriptors, w.lockFile.isSome = true

theorem exclusive_initial (lockFile stateIni stateJson : Option Bytes) :
    Exclusive (World.initial lockFile stateIni stateJson) where
  descriptors q d := by simp [World.initial, FileLock.unopened]
  unopened := nofun
  unshared := nofun
  working := nofun
  single := by
    rintro q r ⟨p, hp, -⟩
    cases hp
  created := nofun

variable {w : World} {pid : ℕ} {p : Process}

/-- The descriptor of a working process. -/
theorem Exclusive.mem_of_working (h : Exclusive w) (hp : w.processes pid = some p)
    (hworking : p.position.working = true) :
    ∃ d, p.description = some d ∧ w.lock.holder = some d ∧ (pid, d) ∈ w.lock.descriptors := by
  obtain ⟨d, hd, hholder⟩ := h.working pid p hp hworking
  exact ⟨d, hd, hholder, (h.descriptors pid d).mpr ⟨p, hp, hd⟩⟩

/-- The processes after one of them has changed. -/
theorem update_eq_some {processes : ℕ → Option Process} {new : Option Process} {q : ℕ} {r : Process} :
    Function.update processes pid new q = some r ↔ q = pid ∧ new = some r ∨ q ≠ pid ∧ processes q = some r := by
  rw [Function.update_apply]
  split_ifs with hq
  · simp [hq]
  · simp [hq]

/-- A process that moves on keeps its descriptors. -/
theorem described_move (h : w.processes pid = some p) (next : Position) (q d : ℕ) :
    (∃ r, Function.update w.processes pid (some { p with position := next }) q = some r ∧ r.description = some d) ↔
      ∃ r, w.processes q = some r ∧ r.description = some d := by
  by_cases hq : q = pid
  · subst hq
    simp [h]
  · simp [hq]

theorem Exclusive.launch (h : Exclusive w) (background : Bool) (hpid : w.processes pid = none) :
    Exclusive (w.put pid ⟨.makeDirectories, background, none⟩) where
  descriptors q d := by
    rw [World.put, h.descriptors]
    by_cases hq : q = pid
    · subst hq
      simp [hpid]
    · simp [hq]
  unopened q r hr := by
    rcases update_eq_some.mp hr with ⟨-, hnew⟩ | ⟨-, hr⟩
    · cases hnew
      exact fun _ => rfl
    · exact h.unopened q r hr
  unshared q r hr hposition := by
    rcases update_eq_some.mp hr with ⟨-, hnew⟩ | ⟨-, hr⟩
    · cases hnew
      cases hposition
    · exact h.unshared q r hr hposition
  working q r hr hworking := by
    rcases update_eq_some.mp hr with ⟨-, hnew⟩ | ⟨-, hr⟩
    · cases hnew
      cases hworking
    · exact h.working q r hr hworking
  single := by
    have hold : ∀ q, (w.put pid ⟨.makeDirectories, background, none⟩).Working q → w.Working q := by
      rintro q ⟨r, hr, hworking⟩
      rcases update_eq_some.mp hr with ⟨-, hnew⟩ | ⟨-, hr⟩
      · cases hnew
        cases hworking
      · exact ⟨r, hr, hworking⟩
    exact fun q r hq hr => h.single q r (hold q hq) (hold r hr)
  created := h.created

theorem Exclusive.move (h : Exclusive w) {next : Position} {lockFile stateIni stateJson : Option Bytes}
    (hp : w.processes pid = some p) (hflock : next ≠ .flock)
    (hunopened : next.unopened = true → p.position.unopened = true)
    (hworking : next.working = true → p.position.working = true)
    (hcreated : w.lockFile.isSome = true → lockFile.isSome = true) :
    Exclusive ⟨Function.update w.processes pid (some { p with position := next }), w.lock,
      lockFile, stateIni, stateJson⟩ where
  descriptors q d := by rw [h.descriptors, described_move hp]
  unopened q r hr hopened := by
    rcases update_eq_some.mp hr with ⟨rfl, hnew⟩ | ⟨-, hr⟩
    · cases hnew
      exact h.unopened q p hp (hunopened hopened)
    · exact h.unopened q r hr hopened
  unshared q r hr hposition := by
    rcases update_eq_some.mp hr with ⟨-, hnew⟩ | ⟨-, hr⟩
    · cases hnew
      exact absurd hposition hflock
    · exact h.unshared q r hr hposition
  working q r hr hwork := by
    rcases update_eq_some.mp hr with ⟨rfl, hnew⟩ | ⟨-, hr⟩
    · cases hnew
      exact h.working q p hp (hworking hwork)
    · exact h.working q r hr hwork
  single := by
    have hold : ∀ q, (⟨Function.update w.processes pid (some { p with position := next }), w.lock, lockFile, stateIni,
        stateJson⟩ : World).Working q → w.Working q := by
      rintro q ⟨r, hr, hwork⟩
      rcases update_eq_some.mp hr with ⟨rfl, hnew⟩ | ⟨-, hr⟩
      · cases hnew
        exact ⟨p, hp, hworking hwork⟩
      · exact ⟨r, hr, hwork⟩
    exact fun q r hq hr => h.single q r (hold q hq) (hold r hr)
  created e he := hcreated (h.created e he)

theorem Exclusive.openLock (h : Exclusive w) (hp : w.processes pid = some p) (hposition : p.position = .openLock) :
    Exclusive (w.openLock pid p) where
  descriptors q d := by
    have hnone : p.description = none := h.unopened pid p hp (by rw [hposition]; rfl)
    rw [World.openLock, FileLock.mem_openFile, h.descriptors]
    by_cases hq : q = pid
    · subst hq
      simp [hp, hnone, eq_comm]
    · simp [hq]
  unopened q r hr hopened := by
    rcases update_eq_some.mp hr with ⟨-, hnew⟩ | ⟨-, hr⟩
    · cases hnew
      cases hopened
    · exact h.unopened q r hr hopened
  unshared q r hr hflock := by
    rcases update_eq_some.mp hr with ⟨rfl, hnew⟩ | ⟨hne, hr⟩
    · cases hnew
      refine ⟨_, rfl, fun r hmem => ?_⟩
      rcases FileLock.mem_openFile.mp hmem with ⟨rfl, -⟩ | hmem
      · rfl
      · exact absurd hmem FileLock.opened_not_mem
    · obtain ⟨d, hd, halone⟩ := h.unshared q r hr hflock
      refine ⟨d, hd, fun s hmem => ?_⟩
      rcases FileLock.mem_openFile.mp hmem with ⟨-, rfl⟩ | hmem
      · exact absurd ((h.descriptors q _).mpr ⟨r, hr, hd⟩) FileLock.opened_not_mem
      · exact halone s hmem
  working q r hr hworking := by
    rcases update_eq_some.mp hr with ⟨-, hnew⟩ | ⟨-, hr⟩
    · cases hnew
      cases hworking
    · exact h.working q r hr hworking
  single := by
    have hold : ∀ q, (w.openLock pid p).Working q → w.Working q := by
      rintro q ⟨r, hr, hworking⟩
      rcases update_eq_some.mp hr with ⟨-, hnew⟩ | ⟨-, hr⟩
      · cases hnew
        cases hworking
      · exact ⟨r, hr, hworking⟩
    exact fun q r hq hr => h.single q r (hold q hq) (hold r hr)
  created _ _ := rfl

/-- The lock is given to a process only if no other is working. -/
theorem Exclusive.lock (h : Exclusive w) {d : ℕ} {lock : FileLock ℕ} {next : Position} (hp : w.processes pid = some p)
    (hposition : p.position = .flock) (hdescription : p.description = some d) (hlock : w.lock.lock pid d = some lock)
    (hnext : next = .fork ∨ next = .ftruncate) :
    Exclusive { w with
      processes := Function.update w.processes pid (some { p with position := next }), lock := lock } := by
  obtain ⟨-, hfree, hdescriptors, -, hholder⟩ := FileLock.lock_eq_some hlock
  have hnone : ∀ q, ¬ w.Working q := by
    rintro q ⟨r, hr, hworking⟩
    obtain ⟨e, -, hheld, hmem⟩ := h.mem_of_working hr hworking
    rcases hfree with hfree | hfree
    · rw [hheld] at hfree
      cases hfree
    · obtain rfl : e = d := Option.some.inj (hheld.symm.trans hfree)
      obtain ⟨d', hd', halone⟩ := h.unshared pid p hp hposition
      obtain rfl : e = d' := Option.some.inj (hdescription.symm.trans hd')
      obtain rfl := halone q hmem
      obtain rfl := Option.some.inj (hr.symm.trans hp)
      rw [hposition] at hworking
      cases hworking
  have hold : ∀ q, ({ w with
      processes := Function.update w.processes pid (some { p with position := next }), lock := lock } :
        World).Working q → q = pid := by
    rintro q ⟨r, hr, hworking⟩
    rcases update_eq_some.mp hr with ⟨rfl, -⟩ | ⟨-, hr⟩
    · rfl
    · exact absurd ⟨r, hr, hworking⟩ (hnone q)
  refine ⟨fun q e => ?_, fun q r hr hopened => ?_, fun q r hr hflock => ?_, fun q r hr hworking => ?_,
    fun q r hq hr => ?_, fun e he => h.created e (hdescriptors ▸ he)⟩
  · rw [hdescriptors, h.descriptors, described_move hp]
  · rcases update_eq_some.mp hr with ⟨-, hnew⟩ | ⟨-, hr⟩
    · cases hnew
      rcases hnext with rfl | rfl <;> cases hopened
    · exact h.unopened q r hr hopened
  · rcases update_eq_some.mp hr with ⟨-, hnew⟩ | ⟨-, hr⟩
    · cases hnew
      rcases hnext with rfl | rfl <;> cases hflock
    · rw [hdescriptors]
      exact h.unshared q r hr hflock
  · rcases update_eq_some.mp hr with ⟨-, hnew⟩ | ⟨-, hr⟩
    · cases hnew
      exact ⟨d, hdescription, hholder⟩
    · exact absurd ⟨r, hr, hworking⟩ (hnone q)
  · rw [hold q hq, hold r hr]

/-- A process that closes the lock file, or ends, leaves the lock to those that share it. -/
theorem Exclusive.release (h : Exclusive w) {new : Option Process}
    (hnew : ∀ r, new = some r → r.position = .returning ∧ r.description = none) :
    Exclusive { w with processes := Function.update w.processes pid new, lock := w.lock.release pid } where
  descriptors q d := by
    rw [FileLock.mem_release, h.descriptors]
    by_cases hq : q = pid
    · subst hq
      simp only [ne_eq, not_true_eq_false, and_false, Function.update_self, false_iff, not_exists, not_and]
      intro r hr
      rw [(hnew r hr).2]
      nofun
    · simp [hq]
  unopened q r hr hopened := by
    rcases update_eq_some.mp hr with ⟨-, hr'⟩ | ⟨-, hr⟩
    · exact (hnew r hr').2
    · exact h.unopened q r hr hopened
  unshared q r hr hflock := by
    rcases update_eq_some.mp hr with ⟨-, hr'⟩ | ⟨-, hr⟩
    · rw [(hnew r hr').1] at hflock
      cases hflock
    · obtain ⟨d, hd, halone⟩ := h.unshared q r hr hflock
      exact ⟨d, hd, fun s hs => halone s (FileLock.mem_release.mp hs).1⟩
  working q r hr hworking := by
    rcases update_eq_some.mp hr with ⟨-, hr'⟩ | ⟨hne, hr⟩
    · rw [(hnew r hr').1] at hworking
      cases hworking
    · obtain ⟨d, hd, hholder, hmem⟩ := h.mem_of_working hr hworking
      exact ⟨d, hd, FileLock.holder_release hholder hmem hne⟩
  single := by
    have hold : ∀ q, ({ w with processes := Function.update w.processes pid new, lock := w.lock.release pid } :
        World).Working q → w.Working q := by
      rintro q ⟨r, hr, hworking⟩
      rcases update_eq_some.mp hr with ⟨-, hr'⟩ | ⟨-, hr⟩
      · rw [(hnew r hr').1] at hworking
        cases hworking
      · exact ⟨r, hr, hworking⟩
    exact fun q r hq hr => h.single q r (hold q hq) (hold r hr)
  created e he := h.created e (FileLock.mem_release.mp he).1

/-- The child works in place of its parent. -/
theorem Exclusive.fork (h : Exclusive w) {child : ℕ} {next : Position} (hp : w.processes pid = some p)
    (hworking : p.position.working = true) (hchild : w.processes child = none)
    (hnext : next = .setsid ∨ next = .ftruncate) : Exclusive (w.fork pid p child next) := by
  have hne : pid ≠ child := by
    rintro rfl
    rw [hp] at hchild
    cases hchild
  have hfork : w.fork pid p child next = { w with
      processes := Function.update (Function.update w.processes pid (some { p with position := .parent })) child
        (some { p with position := next })
      lock := w.lock.fork pid child } := if_neg (by simp [hchild])
  have hself : w.Working pid := ⟨p, hp, hworking⟩
  have hold : ∀ q, (w.fork pid p child next).Working q → q = child := by
    rw [hfork]
    rintro q ⟨r, hr, hwork⟩
    rcases update_eq_some.mp hr with ⟨hq, -⟩ | ⟨-, hr⟩
    · exact hq
    · rcases update_eq_some.mp hr with ⟨-, hnew⟩ | ⟨hq, hr⟩
      · cases hnew
        cases hwork
      · exact absurd (h.single q pid ⟨r, hr, hwork⟩ hself) hq
  refine ⟨fun q d => ?_, fun q r hr hopened => ?_, fun q r hr hflock => ?_, fun q r hr hwork => ?_,
    fun q r hq hr => (hold q hq).trans (hold r hr).symm, fun e he => ?_⟩
  · rw [hfork, FileLock.mem_fork, h.descriptors, h.descriptors]
    by_cases hq : q = child
    · subst hq
      simp [hp, hchild]
    · have hmove := described_move hp .parent q d
      simp only [hq, false_and, or_false, Function.update_of_ne (h := hq), hmove]
  · rw [hfork] at hr
    rcases update_eq_some.mp hr with ⟨-, hnew⟩ | ⟨-, hr⟩
    · cases hnew
      rcases hnext with rfl | rfl <;> cases hopened
    · rcases update_eq_some.mp hr with ⟨-, hnew⟩ | ⟨-, hr⟩
      · cases hnew
        cases hopened
      · exact h.unopened q r hr hopened
  · rw [hfork] at hr ⊢
    rcases update_eq_some.mp hr with ⟨-, hnew⟩ | ⟨-, hr⟩
    · cases hnew
      rcases hnext with rfl | rfl <;> cases hflock
    · rcases update_eq_some.mp hr with ⟨-, hnew⟩ | ⟨hq, hr⟩
      · cases hnew
        cases hflock
      · obtain ⟨d, hd, halone⟩ := h.unshared q r hr hflock
        refine ⟨d, hd, fun s hs => ?_⟩
        rcases FileLock.mem_fork.mp hs with hs | ⟨-, hs⟩
        · exact halone s hs
        · exact absurd (halone pid hs).symm hq
  · rw [hfork] at hr ⊢
    rcases update_eq_some.mp hr with ⟨-, hnew⟩ | ⟨-, hr⟩
    · cases hnew
      exact h.working pid p hp hworking
    · rcases update_eq_some.mp hr with ⟨-, hnew⟩ | ⟨-, hr⟩
      · cases hnew
        cases hwork
      · exact h.working q r hr hwork
  · rw [hfork] at he ⊢
    rcases FileLock.mem_fork.mp (show (e.1, e.2) ∈ _ from he) with he | ⟨-, he⟩
    · exact h.created _ he
    · exact h.created _ he

theorem Exclusive.change (h : Exclusive w) {w' : World} (hchange : Change w pid w') : Exclusive w' := by
  cases hchange with
  | idle => exact h
  | launch background hpid => exact h.launch background hpid
  | move hp hflock hunopened hworking hfiles hcreated => exact h.move hp hflock hunopened hworking hcreated
  | openLock hp hposition => exact h.openLock hp hposition
  | lock hp hposition hdescription hlock hnext => exact h.lock hp hposition hdescription hlock hnext
  | close hp =>
    refine h.release fun r hr => ?_
    cases hr
    exact ⟨rfl, rfl⟩
  | fork hp hworking hchild hnext => exact h.fork hp hworking hchild hnext
  | gone hp => exact h.release nofun

theorem exclusive_run {w : World} (h : Exclusive w) (as : List (ℕ × Call)) : Exclusive (World.machine.run w as) :=
  Machine.run_keeps Exclusive (fun w a hw => hw.change (change_step w a)) h as

end Invariant

section Frame
variable {w w' : World} {pid q : ℕ} {r : Process}

/-- What a process that is not the working one does, it does to itself: the files stay as they are, and
the working process stays where it is. -/
theorem Change.frame (h : Exclusive w) (hchange : Change w pid w') (hr : w.processes q = some r)
    (hworking : r.position.working = true) (hne : pid ≠ q) : w'.files = w.files ∧ w'.processes q = some r := by
  have hother : ∀ p, w.processes pid = some p → p.position.working = false := by
    intro p hp
    by_contra hwork
    exact hne (h.single pid q ⟨p, hp, Bool.not_eq_false _ ▸ hwork⟩ ⟨r, hr, hworking⟩)
  cases hchange with
  | idle => exact ⟨rfl, hr⟩
  | launch background hpid => exact ⟨rfl, update_eq_some.mpr (Or.inr ⟨hne.symm, hr⟩)⟩
  | move hp hflock hunopened hwork hfiles hcreated =>
    refine ⟨hfiles.resolve_left ?_, update_eq_some.mpr (Or.inr ⟨hne.symm, hr⟩)⟩
    rw [hother _ hp]
    nofun
  | openLock hp hposition =>
    obtain ⟨d, -, -, hmem⟩ := h.mem_of_working hr hworking
    obtain ⟨contents, hcontents⟩ := Option.isSome_iff_exists.mp (h.created _ hmem)
    refine ⟨?_, update_eq_some.mpr (Or.inr ⟨hne.symm, hr⟩)⟩
    simp only [World.files, World.openLock, hcontents, Option.getD_some]
  | lock hp hposition hdescription hlock hnext => exact ⟨rfl, update_eq_some.mpr (Or.inr ⟨hne.symm, hr⟩)⟩
  | close hp => exact ⟨rfl, update_eq_some.mpr (Or.inr ⟨hne.symm, hr⟩)⟩
  | fork hp hwork hchild hnext =>
    rw [hother _ hp] at hwork
    cases hwork
  | gone hp => exact ⟨rfl, update_eq_some.mpr (Or.inr ⟨hne.symm, hr⟩)⟩

theorem frame_run (h : Exclusive w) (hr : w.processes q = some r) (hworking : r.position.working = true)
    {as : List (ℕ × Call)} (has : ∀ a ∈ as, a.1 ≠ q) :
    (World.machine.run w as).files = w.files ∧ (World.machine.run w as).processes q = some r := by
  induction as generalizing w with
  | nil => exact ⟨rfl, hr⟩
  | cons a as ih =>
    obtain ⟨hfiles, hnext⟩ := (change_step w a).frame h hr hworking (has a List.mem_cons_self)
    obtain ⟨hrun, hlast⟩ := ih (h.change (change_step w a)) hnext fun b hb => has b (List.mem_cons_of_mem _ hb)
    exact ⟨hrun.trans hfiles, hlast⟩

end Frame

section PidFile

/-- What is in the lock file when its process has come so far, if anything can be said of it. -/
def Position.lockFile (pid : ℕ) : Position → Option Bytes
  | lseek | writePid => some []
  | blockSignals | monitoring | unlinkJson | unlinkIni => some (pidText pid)
  | _ => none

/-- None of the calls of `writePidFile` fails, and the text is written as a whole. -/
def Call.recorded (pid : ℕ) : Call → Bool
  | .ftruncate succeeds | .lseek succeeds => succeeds
  | .writePid none => false
  | .writePid (some count) => (pidText pid).length ≤ count
  | _ => true

def Recorded (w : World) : Prop :=
  ∀ q r contents, w.processes q = some r → r.position.lockFile q = some contents → w.lockFile = some contents

variable {w w' : World} {pid q : ℕ} {p r : Process}

theorem working_of_lockFile {position : Position} {contents : Bytes} (h : position.lockFile pid = some contents) :
    position.working = true := by
  cases position <;> first | rfl | cases h

/-- A process other than the one that makes the call is new, or is what it was. -/
theorem Change.other (hchange : Change w pid w') (hne : q ≠ pid) (hr : w'.processes q = some r) :
    w.processes q = some r ∨ r.position = .setsid ∨ r.position = .ftruncate := by
  have hkeep : ∀ new : Option Process, Function.update w.processes pid new q = some r → w.processes q = some r :=
    fun new h => by rwa [Function.update_of_ne hne] at h
  cases hchange with
  | idle => exact Or.inl hr
  | fork hp hwork hchild hnext =>
    rw [World.fork, if_neg (by simp [hchild])] at hr
    rcases update_eq_some.mp hr with ⟨-, hnew⟩ | ⟨-, hr⟩
    · cases hnew
      exact Or.inr hnext
    · exact Or.inl (hkeep _ hr)
  | _ => exact Or.inl (hkeep _ hr)

/-- Moving on, a process leaves what can be said of the file as it was. -/
theorem lockFile_after {position next : Position} {c : Call} {contents : Bytes} (hrecorded : c.recorded pid = true)
    (hafter : position.after c = some next) (hnext : next.lockFile pid = some contents) :
    position.lockFile pid = some contents := by
  unfold Position.after at hafter
  split at hafter
  case h_1 succeeds | h_4 succeeds =>
    cases hafter
    cases succeeds <;> cases hnext
  case h_2 | h_3 | h_5 =>
    cases hafter
    cases hnext
  case h_6 => cases hrecorded
  case h_7 succeeds =>
    obtain rfl : succeeds = true := hrecorded
    cases hafter
    exact hnext
  case h_8 => cases hrecorded
  case h_9 succeeds =>
    cases hafter
    cases succeeds with
    | false => cases hnext
    | true => exact hnext
  case h_10 =>
    cases hafter
    exact hnext
  case h_11 => cases hafter

theorem writeAt_pidText {count : ℕ} (h : (pidText pid).length ≤ count) :
    writeAt [] 0 ((pidText pid).take count) = pidText pid := by
  rw [List.take_of_length_le h]
  simp [writeAt]

theorem lockFile_flock (hr : (w.flock pid p).processes pid = some r) : r.position.lockFile pid = none := by
  unfold World.flock at hr
  split at hr
  · simp only [World.put, Function.update_self, Option.some.injEq] at hr
    subst hr
    rfl
  · simp only [Function.update_self, Option.some.injEq] at hr
    subst hr
    dsimp only
    split_ifs <;> rfl

theorem lockFile_fork (hp : w.processes pid = some p) (hposition : p.position.lockFile pid = none) {child : ℕ}
    {next : Position} (hr : (w.fork pid p child next).processes pid = some r) : r.position.lockFile pid = none := by
  unfold World.fork at hr
  split_ifs at hr with hchild
  · obtain rfl := Option.some.inj (hp.symm.trans hr)
    exact hposition
  · have hne : pid ≠ child := by
      rintro rfl
      simp [hp] at hchild
    simp only [Function.update_of_ne hne, Function.update_self, Option.some.injEq] at hr
    subst hr
    rfl

/-- The process that makes the call. -/
theorem lockFile_call (h : Recorded w) (hp : w.processes pid = some p) {c : Call} (hrecorded : c.recorded pid = true)
    {contents : Bytes} (hr : (w.call pid p c).processes pid = some r)
    (hcontents : r.position.lockFile pid = some contents) : (w.call pid p c).lockFile = some contents := by
  have hput : ∀ {new : Option Process}, Function.update w.processes pid new pid = some r → new = some r := by
    intro new hnew
    rwa [Function.update_self] at hnew
  generalize hw' : w.call pid p c = w' at hr ⊢
  unfold World.call at hw'
  split at hw'
  case h_15 =>
    split at hw'
    · subst hw'
      exact h pid r contents hr hcontents
    · next hafter =>
      subst hw'
      cases hput hr
      exact h pid p contents hp (lockFile_after hrecorded hafter hcontents)
  all_goals subst hw'
  case h_1 | h_13 | h_14 => cases hput hr
  case h_2 | h_4 | h_12 =>
    cases hput hr
    cases hcontents
  case h_3 =>
    rw [lockFile_flock hr] at hcontents
    cases hcontents
  case h_5 hposition | h_6 hposition =>
    rw [lockFile_fork hp (by rw [hposition]; rfl) hr] at hcontents
    cases hcontents
  case h_7 =>
    cases hput hr
    exact hcontents
  case h_8 count hposition =>
    cases hput hr
    have hempty : w.lockFile = some [] := h pid p [] hp (by rw [hposition]; rfl)
    cases hcontents
    simp only [hempty, Option.getD_some]
    exact congrArg some (writeAt_pidText (of_decide_eq_true hrecorded))
  case h_9 | h_10 => exact h pid r contents hr hcontents
  case h_11 hposition =>
    cases hput hr
    exact h pid p contents hp (by rw [hposition]; exact hcontents)

/-- With every call of `writePidFile` successful, the lock file names the process that works. -/
theorem Recorded.step (h : Recorded w) (hexclusive : Exclusive w) {a : ℕ × Call} (ha : a.2.recorded a.1 = true) :
    Recorded (w.step a) := by
  intro q r contents hr hcontents
  have hchange := change_step w a
  by_cases hq : q = a.1
  · subst hq
    cases hp : w.processes a.1 with
    | some p =>
      have hstep : w.step a = w.call a.1 p a.2 := by rw [World.step, hp]
      rw [hstep] at hr ⊢
      exact lockFile_call h hp ha hr hcontents
    | none =>
      unfold World.step at hr
      rw [hp] at hr
      split at hr
      · next hsome => cases hsome
      · simp only [World.put, Function.update_self, Option.some.injEq] at hr
        subst hr
        cases hcontents
      · rw [hp] at hr
        cases hr
  · rcases hchange.other hq hr with hold | hnew | hnew
    · obtain ⟨hfiles, -⟩ := hchange.frame hexclusive hold (working_of_lockFile hcontents) (Ne.symm hq)
      exact (congrArg Prod.fst hfiles).trans (h q r contents hold hcontents)
    · rw [hnew] at hcontents
      cases hcontents
    · rw [hnew] at hcontents
      cases hcontents

theorem recorded_run {w : World} (h : Recorded w) (hexclusive : Exclusive w) {as : List (ℕ × Call)}
    (has : ∀ a ∈ as, a.2.recorded a.1 = true) : Recorded (World.machine.run w as) := by
  induction as generalizing w with
  | nil => exact h
  | cons a as ih =>
    exact ih (h.step hexclusive (has a List.mem_cons_self)) (hexclusive.change (change_step w a)) fun b hb =>
      has b (List.mem_cons_of_mem _ hb)

end PidFile

section Start

/-- A process that has the lock, alone or with others. -/
def World.HasLock (w : World) (q : ℕ) : Prop :=
  ∃ r d, w.processes q = some r ∧ r.description = some d ∧ w.lock.holder = some d

variable {w : World} {pid : ℕ} {p : Process}

/-- A start is refused exactly if another process has the lock: one that was killed never has it. -/
theorem refused_iff (h : Exclusive w) (hp : w.processes pid = some p) (hposition : p.position = .flock) :
    (w.step (pid, .flock)).processes pid = some { p with position := .closeLock } ↔ ∃ q, q ≠ pid ∧ w.HasLock q := by
  obtain ⟨d, hd, halone⟩ := h.unshared pid p hp hposition
  have hmem : (pid, d) ∈ w.lock.descriptors := (h.descriptors pid d).mpr ⟨p, hp, hd⟩
  have hstep : w.step (pid, .flock) = w.flock pid p := by
    unfold World.step
    rw [hp]
    dsimp only
    unfold World.call
    rw [hposition]
  have hrefused : (w.flock pid p).processes pid = some { p with position := .closeLock } ↔
      w.lock.lock pid d = none := by
    unfold World.flock
    rw [hd, Option.bind_some]
    cases hlock : w.lock.lock pid d with
    | none => simp [World.put]
    | some lock =>
      simp only [Function.update_self, Option.some.injEq, Process.mk.injEq, reduceCtorEq, iff_false]
      split_ifs <;> simp
  rw [hstep, hrefused, FileLock.lock_eq_none hmem]
  constructor
  · rintro ⟨e, hne, hholder, q, hq⟩
    obtain ⟨r, hr, hdescription⟩ := (h.descriptors q e).mp hq
    refine ⟨q, ?_, r, e, hr, hdescription, hholder⟩
    rintro rfl
    obtain rfl := Option.some.inj (hr.symm.trans hp)
    exact hne (Option.some.inj (hdescription.symm.trans hd))
  · rintro ⟨q, hne, r, e, hr, hdescription, hholder⟩
    have hq : (q, e) ∈ w.lock.descriptors := (h.descriptors q e).mpr ⟨r, hr, hdescription⟩
    refine ⟨e, ?_, hholder, q, hq⟩
    rintro rfl
    exact hne (halone q hq)

end Start

/-- Any number of processes may run `main` in one directory, be killed and be started again, in any order of
their calls. One at most works. No other then changes the lock file or the state files, so a daemon that ends
never removes those of its successor. A start is refused only while another process has the lock. Where no
call of `writePidFile` fails, the lock file names the daemon. -/
theorem singleInstance (lockFile stateIni stateJson : Option Bytes) (as : List (ℕ × Call)) :
    let w := World.machine.run (World.initial lockFile stateIni stateJson) as
    (∀ q r, w.Working q → w.Working r → q = r) ∧
    (∀ q, w.Working q → ∀ more : List (ℕ × Call), (∀ a ∈ more, a.1 ≠ q) →
      (World.machine.run w more).files = w.files ∧ (World.machine.run w more).Working q) ∧
    (∀ q p, w.processes q = some p → p.position = .flock →
      ((w.step (q, .flock)).processes q = some { p with position := .closeLock } ↔ ∃ r, r ≠ q ∧ w.HasLock r)) ∧
    ((∀ a ∈ as, a.2.recorded a.1 = true) → ∀ q p, w.processes q = some p →
      p.position ∈ [.blockSignals, .monitoring, .unlinkJson, .unlinkIni] → w.lockFile = some (pidText q)) := by
  intro w
  have hstart := exclusive_initial lockFile stateIni stateJson
  have h : Exclusive w := exclusive_run hstart as
  refine ⟨h.single, ?_, fun q p hp hposition => refused_iff h hp hposition, ?_⟩
  · rintro q ⟨r, hr, hworking⟩ more hmore
    obtain ⟨hfiles, hlast⟩ := frame_run h hr hworking hmore
    exact ⟨hfiles, r, hlast, hworking⟩
  · intro has q p hp hposition
    have hrecorded : Recorded w := recorded_run (fun _ _ _ hr => by cases hr) hstart has
    refine hrecorded q p (pidText q) hp ?_
    simp only [List.mem_cons, List.not_mem_nil, or_false] at hposition
    rcases hposition with hp | hp | hp | hp <;> rw [hp] <;> rfl

/-- The second of two starts comes between the forks of the first, in a directory where a daemon was killed. -/
theorem singleInstance_twoStarts :
    let as : List (ℕ × Call) := [(11, .start true), (11, .makeDirectories true), (11, .openLock true), (11, .flock),
      (12, .start false), (12, .makeDirectories true), (12, .openLock true), (11, .fork (some 13)), (11, .exit),
      (13, .setsid true), (13, .fork (some 14)), (13, .exit), (14, .ftruncate true), (14, .lseek true),
      (14, .writePid (some 3)), (14, .blockSignals true), (14, .publishIni (ascii "new"))]
    let w := World.machine.run (World.initial (some (ascii "4711\n")) (some (ascii "old")) none) as
    w.files = (some (ascii "14\n"), some (ascii "new"), none) ∧ w.lockFile = some (pidText 14) ∧
      (w.step (12, .flock)).processes 12 = some ⟨.closeLock, false, some 1⟩ ∧
      ∀ more : List (ℕ × Call), (∀ a ∈ more, a.1 ≠ 14) → (World.machine.run w more).files = w.files := by
  intro as w
  obtain ⟨-, hframe, hrefused, hnamed⟩ :=
    singleInstance (some (ascii "4711\n")) (some (ascii "old")) none as
  have hdaemon : w.processes 14 = some ⟨.monitoring, true, some 0⟩ := by decide +kernel
  have hsecond : w.processes 12 = some ⟨.flock, false, some 1⟩ := by decide +kernel
  refine ⟨by decide +kernel, hnamed (by decide +kernel) 14 _ hdaemon (by decide), ?_, fun more hmore => ?_⟩
  · refine (hrefused 12 _ hsecond rfl).mpr ⟨14, by decide, _, 0, hdaemon, rfl, ?_⟩
    decide +kernel
  · exact (hframe 14 ⟨_, hdaemon, rfl⟩ more hmore).1

end NetworkHealth.Daemon.SingleInstance
