import Mathlib.Data.UInt
import NetworkHealth.Daemon.Text
import NetworkHealth.Library.FileSystem
import NetworkHealth.Library.Machine

/-! `writeFileAtomically` call by call. The outcomes of its system calls come from outside. -/
namespace NetworkHealth.Daemon

/-- The system call that comes next. -/
inductive AtomicPosition
  | mkstemp
  | write
  | fchmod
  | close
  | rename
  | unlink
  | returned (ok : Bool)
  deriving DecidableEq, Repr

/-- What a system call comes to. -/
inductive CallOutcome
  | mkstemp (name : Option Bytes)
  | wrote (count : ℕ)
  | interrupted
  | writeFailed
  | fchmod (succeeds : Bool)
  | close
  | rename (succeeds : Bool)
  | unlink
  deriving DecidableEq, Repr

/-- The files, and the variables of the function. -/
structure AtomicWrite where
  fs : FileSystem Bytes UInt8
  position : AtomicPosition
  temp : Bytes
  /-- The file that `fd` stands for, and its mode. -/
  inode : ℕ
  mode : ℕ
  ok : Bool
  written : ℕ

namespace AtomicWrite
variable (path data : Bytes) (mode : ℕ)

def start (fs : FileSystem Bytes UInt8) : AtomicWrite where
  fs := fs
  position := .mkstemp
  temp := path ++ ascii ".tmpXXXXXX"
  inode := 0
  mode := 0o600
  ok := true
  written := 0

/-- The condition of the loop. -/
def loop (s : AtomicWrite) : AtomicWrite :=
  { s with position := if s.written < data.length then .write else .fchmod }

def step (s : AtomicWrite) (outcome : CallOutcome) : AtomicWrite :=
  match s.position, outcome with
  | .mkstemp, .mkstemp none => { s with position := .returned false }
  | .mkstemp, .mkstemp (some name) =>
    let opened := s.fs.openTruncate name
    { s with fs := opened.1, temp := name, inode := opened.2 }.loop data
  | .write, .wrote count =>
    { s with
      fs := s.fs.write s.inode s.written ((data.drop s.written).take count)
      written := s.written + count }.loop data
  | .write, .interrupted => s
  | .write, .writeFailed => { s with ok := false, position := .close }
  | .fchmod, .fchmod succeeds =>
    { s with ok := succeeds, mode := if succeeds then mode else s.mode, position := .close }
  | .close, .close => { s with position := if s.ok then .rename else .unlink }
  | .rename, .rename true => { s with fs := s.fs.rename s.temp path, position := .returned true }
  | .rename, .rename false => { s with ok := false, position := .unlink }
  | .unlink, .unlink => { s with fs := s.fs.unlink s.temp, position := .returned s.ok }
  | _, _ => s

/-- The outcomes that the call which comes next can have. A new file has a name that was free, made
by replacing the six letters of the template. -/
def Permitted (s : AtomicWrite) (outcome : CallOutcome) : Prop :=
  match s.position, outcome with
  | .mkstemp, .mkstemp none => True
  | .mkstemp, .mkstemp (some name) =>
    (∃ letters, letters.length = 6 ∧ name = s.temp.take (s.temp.length - 6) ++ letters) ∧ s.fs.names name = none
  | .write, .wrote count => 0 < count ∧ count ≤ data.length - s.written
  | .write, .interrupted | .write, .writeFailed => True
  | .fchmod, .fchmod _ | .close, .close | .rename, .rename _ | .unlink, .unlink => True
  | _, _ => False

def machine : Machine AtomicWrite CallOutcome := ⟨step path data mode⟩

@[simp] theorem machine_step (s : AtomicWrite) (outcome : CallOutcome) :
    (machine path data mode).step s outcome = s.step path data mode outcome := rfl

/-- The temporary file is there under a name of its own, with these contents, and every other file
is as it was. -/
structure Staged (before : FileSystem Bytes UInt8) (contents : Bytes) (s : AtomicWrite) : Prop where
  named : s.fs.names s.temp = some s.inode
  contents : s.fs.contents s.inode = contents
  fresh : before.read s.temp = none
  elsewhere : ∀ name ≠ s.temp, s.fs.read name = before.read name
  temp_ne : s.temp ≠ path

/-- What the function has done on its way to each call. -/
def Stage (before : FileSystem Bytes UInt8) (s : AtomicWrite) : Prop :=
  match s.position with
  | .mkstemp => s = start path before
  | .write => Staged path before (data.take s.written) s ∧ s.written < data.length ∧ s.ok = true
  | .fchmod => Staged path before data s ∧ s.ok = true
  | .close => ∃ contents, Staged path before contents s ∧ (s.ok = true → contents = data ∧ s.mode = mode)
  | .rename => Staged path before data s ∧ s.ok = true ∧ s.mode = mode
  | .unlink => (∃ contents, Staged path before contents s) ∧ s.ok = false
  | .returned ok =>
    (ok = true → s.fs.read path = some data ∧ s.mode = mode) ∧
    (ok = false → s.fs.read path = before.read path) ∧ ∀ name ≠ path, s.fs.read name = before.read name

variable {path data mode} {before : FileSystem Bytes UInt8} {s : AtomicWrite} {contents : Bytes}

/-- A name made from the template is longer than the path. -/
theorem ne_path_of_template {letters : Bytes} (h : letters.length = 6) :
    (path ++ ascii ".tmpXXXXXX").take ((path ++ ascii ".tmpXXXXXX").length - 6) ++ letters ≠ path := by
  intro heq
  have hlength := congrArg List.length heq
  have htemplate : (ascii ".tmpXXXXXX").length = 10 := rfl
  simp only [List.length_append, List.length_take, h, htemplate] at hlength
  omega

theorem Staged.loop (h : Staged path before (data.take s.written) s) (hok : s.ok = true) :
    Stage path data mode before (s.loop data) := by
  unfold AtomicWrite.loop
  split_ifs with hlt
  · exact ⟨⟨h.named, h.contents, h.fresh, h.elsewhere, h.temp_ne⟩, hlt, hok⟩
  · rw [List.take_of_length_le (by omega)] at h
    exact ⟨⟨h.named, h.contents, h.fresh, h.elsewhere, h.temp_ne⟩, hok⟩

theorem Staged.mkstemp {name : Bytes} (hname : before.names name = none) (hne : name ≠ path) :
    Staged path before [] { start path before with
      fs := (before.openTruncate name).1, temp := name, inode := (before.openTruncate name).2 } where
  named := FileSystem.names_openTruncate_self
  contents := FileSystem.contents_openTruncate_self
  fresh := before.read_eq_none_iff.mpr hname
  elsewhere _ h := FileSystem.read_openTruncate_of_ne h
  temp_ne := hne

/-- What is written comes after what has been written. -/
theorem Staged.wrote (h : Staged path before (data.take s.written) s) (hwritten : s.written ≤ data.length)
    (count : ℕ) :
    Staged path before (data.take (s.written + count)) { s with
      fs := s.fs.write s.inode s.written ((data.drop s.written).take count), written := s.written + count } where
  named := h.named
  contents := by
    have hlength : (s.fs.contents s.inode).length = s.written := by simp [h.contents, hwritten]
    have happended := writeAt_length (s.fs.contents s.inode) ((data.drop s.written).take count)
    rw [hlength, h.contents] at happended
    simp [FileSystem.write, h.contents, happended, List.take_add]
  fresh := h.fresh
  elsewhere name hname := by
    have hother : s.fs.names name ≠ some s.inode := fun hsame =>
      hname (s.fs.namesInodes.single name s.temp s.inode hsame h.named)
    exact (s.fs.read_write_of_ne hother s.written _).trans (h.elsewhere name hname)
  temp_ne := h.temp_ne

theorem Staged.read_rename (h : Staged path before contents s) :
    (s.fs.rename s.temp path).read path = some contents ∧
      ∀ name ≠ path, (s.fs.rename s.temp path).read name = before.read name := by
  refine ⟨by rw [FileSystem.read_rename_target h.named, h.contents], fun name hname => ?_⟩
  by_cases htemp : name = s.temp
  · rw [htemp, FileSystem.read_rename_source h.named h.temp_ne, h.fresh]
  · rw [FileSystem.read_rename_of_ne h.named htemp hname, h.elsewhere name htemp]

theorem Staged.read_unlink (h : Staged path before contents s) (name : Bytes) :
    (s.fs.unlink s.temp).read name = before.read name := by
  by_cases htemp : name = s.temp
  · rw [htemp, FileSystem.read_unlink_self, h.fresh]
  · rw [FileSystem.read_unlink_of_ne htemp, h.elsewhere name htemp]

/-- Every call moves the function from one stage to another. -/
theorem Stage.step (h : Stage path data mode before s) (outcome : CallOutcome) (houtcome : s.Permitted data outcome) :
    Stage path data mode before (s.step path data mode outcome) := by
  obtain ⟨fs, position, temp, inode, mode', ok, written⟩ := s
  cases position <;> cases outcome <;> simp only [Permitted] at houtcome
  case mkstemp.mkstemp name =>
    obtain rfl : fs = before := congrArg AtomicWrite.fs h
    cases name with
    | none => exact ⟨by simp, fun _ => rfl, fun _ _ => rfl⟩
    | some name =>
      obtain ⟨⟨letters, hletters, hname⟩, hfree⟩ := houtcome
      obtain rfl : temp = path ++ ascii ".tmpXXXXXX" := congrArg AtomicWrite.temp h
      obtain rfl : written = 0 := congrArg AtomicWrite.written h
      obtain rfl : ok = true := congrArg AtomicWrite.ok h
      obtain rfl : inode = 0 := congrArg AtomicWrite.inode h
      obtain rfl : mode' = 0o600 := congrArg AtomicWrite.mode h
      have hne : name ≠ path := by
        rw [hname]
        exact ne_path_of_template hletters
      have hstaged := Staged.mkstemp hfree hne
      exact Staged.loop hstaged rfl
  case write.wrote count =>
    obtain ⟨hstaged, hlt, hok⟩ := h
    exact Staged.loop (hstaged.wrote hlt.le count) hok
  case write.interrupted => exact h
  case write.writeFailed =>
    obtain ⟨hstaged, -, -⟩ := h
    exact ⟨_, ⟨hstaged.named, hstaged.contents, hstaged.fresh, hstaged.elsewhere, hstaged.temp_ne⟩,
      fun hok => absurd hok Bool.false_ne_true⟩
  case fchmod.fchmod succeeds =>
    obtain ⟨hstaged, -⟩ := h
    refine ⟨data, ⟨hstaged.named, hstaged.contents, hstaged.fresh, hstaged.elsewhere, hstaged.temp_ne⟩, ?_⟩
    intro hsucceeds
    exact ⟨rfl, if_pos hsucceeds⟩
  case close.close =>
    obtain ⟨contents, hstaged, hdone⟩ := h
    have hkept : ∀ position, Staged path before contents ⟨fs, position, temp, inode, mode', ok, written⟩ :=
      fun _ => ⟨hstaged.named, hstaged.contents, hstaged.fresh, hstaged.elsewhere, hstaged.temp_ne⟩
    cases ok with
    | true =>
      obtain ⟨rfl, hmode⟩ := hdone rfl
      exact ⟨hkept .rename, rfl, hmode⟩
    | false => exact ⟨⟨contents, hkept .unlink⟩, rfl⟩
  case rename.rename succeeds =>
    obtain ⟨hstaged, hok, hmode⟩ := h
    cases succeeds with
    | true =>
      obtain ⟨htarget, hothers⟩ := hstaged.read_rename
      exact ⟨fun _ => ⟨htarget, hmode⟩, by simp, hothers⟩
    | false =>
      exact ⟨⟨data, hstaged.named, hstaged.contents, hstaged.fresh, hstaged.elsewhere, hstaged.temp_ne⟩, rfl⟩
  case unlink.unlink =>
    obtain ⟨⟨contents, hstaged⟩, hok⟩ := h
    obtain rfl : ok = false := hok
    exact ⟨by simp, fun _ => hstaged.read_unlink path, fun name _ => hstaged.read_unlink name⟩

/-- At every stage the target has its old contents or the new ones. -/
theorem Stage.read (h : Stage path data mode before s) :
    s.fs.read path = before.read path ∨ s.fs.read path = some data := by
  have hstaged : ∀ contents, Staged path before contents s → s.fs.read path = before.read path :=
    fun _ hstaged => hstaged.elsewhere path hstaged.temp_ne.symm
  unfold Stage at h
  cases hposition : s.position <;> simp only [hposition] at h
  case mkstemp =>
    rw [h]
    exact Or.inl rfl
  case write => exact Or.inl (hstaged _ h.1)
  case fchmod => exact Or.inl (hstaged _ h.1)
  case close =>
    obtain ⟨contents, hcontents, -⟩ := h
    exact Or.inl (hstaged contents hcontents)
  case rename => exact Or.inl (hstaged _ h.1)
  case unlink =>
    obtain ⟨⟨contents, hcontents⟩, -⟩ := h
    exact Or.inl (hstaged contents hcontents)
  case returned ok =>
    cases ok with
    | true => exact Or.inr (h.1 rfl).1
    | false => exact Or.inl (h.2.1 rfl)

section Progress

/-- The calls that are left at most, interruptions aside. -/
def callsLeft (data : Bytes) (s : AtomicWrite) : ℕ :=
  match s.position with
  | .mkstemp => data.length + 5
  | .write => data.length - s.written + 4
  | .fchmod => 4
  | .close => 3
  | .rename => 2
  | .unlink => 1
  | .returned _ => 0

theorem callsLeft_loop_le (s : AtomicWrite) : (s.loop data).callsLeft data ≤ data.length - s.written + 4 := by
  unfold AtomicWrite.loop callsLeft
  split_ifs <;> simp

theorem callsLeft_step {outcome : CallOutcome} (houtcome : s.Permitted data outcome) (hne : outcome ≠ .interrupted) :
    (s.step path data mode outcome).callsLeft data < s.callsLeft data := by
  obtain ⟨fs, position, temp, inode, mode', ok, written⟩ := s
  cases position <;> cases outcome <;> simp only [Permitted] at houtcome
  case mkstemp.mkstemp name =>
    cases name with
    | none => simp [AtomicWrite.step, callsLeft]
    | some name =>
      apply (callsLeft_loop_le _).trans_lt
      simp only [callsLeft]
      omega
  case write.wrote count =>
    apply (callsLeft_loop_le _).trans_lt
    simp only [callsLeft]
    omega
  case write.interrupted => exact absurd rfl hne
  case write.writeFailed => simp [AtomicWrite.step, callsLeft]
  case fchmod.fchmod => simp [AtomicWrite.step, callsLeft]
  case close.close => cases ok <;> simp [AtomicWrite.step, callsLeft]
  case rename.rename succeeds => cases succeeds <;> simp [AtomicWrite.step, callsLeft]
  case unlink.unlink => simp [AtomicWrite.step, callsLeft]

theorem countP_add_callsLeft_le (s : AtomicWrite) {outcomes : List CallOutcome}
    (houtcomes : (machine path data mode).Admits (Permitted data) s outcomes) :
    outcomes.countP (· ≠ .interrupted) + ((machine path data mode).run s outcomes).callsLeft data ≤
      s.callsLeft data := by
  induction outcomes generalizing s with
  | nil => simp
  | cons outcome outcomes ih =>
    obtain ⟨houtcome, hrest⟩ := houtcomes
    have hle := ih _ hrest
    rw [Machine.run_cons, List.countP_cons]
    by_cases hne : outcome = .interrupted
    · have hsame : s.step path data mode .interrupted = s := by
        unfold AtomicWrite.step
        split <;> simp_all
      rw [hne, machine_step, hsame] at hle
      simpa [hne, hsame] using hle
    · have hlt : ((machine path data mode).step s outcome).callsLeft data < s.callsLeft data :=
        callsLeft_step houtcome hne
      rw [if_pos (by simpa using hne)]
      omega

/-- The function returns unless it is interrupted without end: where it has not, its next call can
come to something else, and only so many calls do. -/
theorem writeFileAtomically_returns (path data : Bytes) (mode : ℕ) (fs : FileSystem Bytes UInt8)
    (outcomes : List CallOutcome)
    (houtcomes : (machine path data mode).Admits (Permitted data) (start path fs) outcomes) :
    outcomes.countP (· ≠ .interrupted) ≤ data.length + 5 ∧
    ((∃ ok, ((machine path data mode).run (start path fs) outcomes).position = .returned ok) ∨
      ∃ outcome ≠ .interrupted, ((machine path data mode).run (start path fs) outcomes).Permitted data outcome) := by
  refine ⟨(Nat.le_add_right _ _).trans (countP_add_callsLeft_le (start path fs) houtcomes), ?_⟩
  generalize (machine path data mode).run (start path fs) outcomes = s
  cases hposition : s.position <;> simp only [Permitted, hposition]
  case returned ok => exact Or.inl ⟨ok, rfl⟩
  case mkstemp => exact Or.inr ⟨.mkstemp none, by simp, trivial⟩
  case write => exact Or.inr ⟨.writeFailed, by simp, trivial⟩
  case fchmod => exact Or.inr ⟨.fchmod true, by simp, trivial⟩
  case close => exact Or.inr ⟨.close, by simp, trivial⟩
  case rename => exact Or.inr ⟨.rename true, by simp, trivial⟩
  case unlink => exact Or.inr ⟨.unlink, by simp, trivial⟩

end Progress

/-- Whatever the outcomes of its system calls, at every point the target has its old contents or
all of the data. The function returns true only where it has the data, and false only where it is as
it was; there every other file is as it was too, so that no temporary file is left. -/
theorem writeFileAtomically_allOrNothing (path data : Bytes) (mode : ℕ) (fs : FileSystem Bytes UInt8)
    (outcomes : List CallOutcome)
    (houtcomes : (machine path data mode).Admits (Permitted data) (start path fs) outcomes) :
    let s := (machine path data mode).run (start path fs) outcomes
    (s.fs.read path = fs.read path ∨ s.fs.read path = some data) ∧
    ∀ ok, s.position = .returned ok →
      (ok = true → s.fs.read path = some data ∧ s.mode = mode) ∧
      (ok = false → s.fs.read path = fs.read path) ∧
      ∀ name ≠ path, s.fs.read name = fs.read name := by
  intro s
  have hstage : Stage path data mode fs s := Machine.run_invariant (Stage path data mode fs) (Permitted data)
    (fun _ outcome h houtcome => h.step outcome houtcome) rfl houtcomes
  refine ⟨hstage.read, fun ok hreturned => ?_⟩
  simpa only [Stage, hreturned] using hstage

/-- Three bytes in two writes, with an interruption between them. -/
theorem writeFileAtomically_allOrNothing_short :
    let path := ascii "state.ini"
    let empty : FileSystem Bytes UInt8 := ⟨fun _ => none, fun _ => [], 0, ⟨by simp, by simp⟩⟩
    let before := (empty.openTruncate path).1.write 0 0 [1, 2]
    let outcomes : List CallOutcome := [.mkstemp (some (ascii "state.ini.tmpa1b2c3")), .wrote 1, .interrupted, .wrote 2,
      .fchmod true, .close, .rename true]
    before.read path = some [1, 2] ∧
      ((machine path [3, 4, 5] 0o644).run (start path before) outcomes).fs.read path = some [3, 4, 5] := by
  intro path empty before outcomes
  have hadmits : (machine path [3, 4, 5] 0o644).Admits (Permitted [3, 4, 5]) (start path before) outcomes :=
    ⟨⟨⟨ascii "a1b2c3", rfl, rfl⟩, rfl⟩, ⟨by decide, by decide⟩, trivial, ⟨by decide, by decide⟩, trivial, trivial,
      trivial, trivial⟩
  have hreturned := (writeFileAtomically_allOrNothing path [3, 4, 5] 0o644 before outcomes hadmits).2 true rfl
  exact ⟨rfl, (hreturned.1 rfl).1⟩

end AtomicWrite

end NetworkHealth.Daemon
