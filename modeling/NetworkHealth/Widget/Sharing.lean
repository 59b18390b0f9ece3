import Mathlib.Logic.Function.Basic
import NetworkHealth.Library.Machine
import NetworkHealth.Widget.SharedStore

/-! Any number of widgets around one shared file. Writes go through a shell process, so
they are in flight for a while and may land in any order; everything else a widget does
is one atomic step of its event loop. -/
namespace NetworkHealth.Widget
variable {ι P : Type*}

structure Net (ι P : Type*) where
  file : Shared P
  stores : ι → Store P
  /-- Writes issued and not yet landed, oldest first. -/
  inFlight : List (Shared P)

inductive Action (ι P : Type*)
  | edit (w : ι) (json : P)
  | sync (w : ι) (now : ℕ)
  | land (i : ℕ)
  | lose (i : ℕ)
  | load (w : ι)
  | share (w : ι) (on : Bool)
  | keep (w : ι)
  deriving DecidableEq, Repr

/-- Every widget runs and is in step with the file, and nothing is in flight. -/
structure InStep (n : Net ι P) : Prop where
  active : ∀ w, (n.stores w).active = true
  ready : ∀ w, (n.stores w).ready = true
  json : ∀ w, (n.stores w).localJson = n.file.json
  synced : ∀ w, (n.stores w).syncedRevision = n.file.revision
  pending : ∀ w, (n.stores w).pendingRevision = 0
  inFlight : n.inFlight = []

/-- The reading of `Date.now()` a step makes, 0 for the steps that make none. -/
def Action.clock : Action ι P → ℕ
  | .sync _ now => now
  | _ => 0

namespace Net

/-- As a session starts: nothing written yet, everything else as it was left. -/
structure Fresh (n : Net ι P) : Prop where
  pending : ∀ w, (n.stores w).pendingRevision = 0
  since : ∀ w, (n.stores w).pendingSince = 0
  inFlight : n.inFlight = []

/-- The landing renames the finished temporary file over the target. -/
def land (n : Net ι P) (i : ℕ) : Net ι P :=
  match n.inFlight[i]? with
  | none => n
  | some write => { n with file := write, inFlight := n.inFlight.eraseIdx i }

@[simp] theorem land_stores (n : Net ι P) (i : ℕ) : (n.land i).stores = n.stores := by
  unfold land; split <;> rfl

variable [DecidableEq ι]

def modify (n : Net ι P) (w : ι) (f : Store P → Store P) : Net ι P :=
  { n with stores := Function.update n.stores w (f (n.stores w)) }

@[simp] theorem modify_file (n : Net ι P) (w : ι) (f : Store P → Store P) :
    (n.modify w f).file = n.file := rfl
@[simp] theorem modify_inFlight (n : Net ι P) (w : ι) (f : Store P → Store P) :
    (n.modify w f).inFlight = n.inFlight := rfl
@[simp] theorem modify_stores_self (n : Net ι P) (w : ι) (f : Store P → Store P) :
    (n.modify w f).stores w = f (n.stores w) := by simp [modify]
theorem modify_stores_of_ne (n : Net ι P) {v w : ι} (f : Store P → Store P) (h : v ≠ w) :
    (n.modify w f).stores v = n.stores v := by simp [modify, h]

variable [DecidableEq P]

def sync (k : Setting P) (n : Net ι P) (w : ι) (now : ℕ) : Net ι P :=
  let next := (n.stores w).sync k now n.file
  { n with stores := Function.update n.stores w next.1,
           inFlight := n.inFlight ++ next.2.toList }

def step (k : Setting P) (n : Net ι P) : Action ι P → Net ι P
  | .edit w json => n.modify w (·.edit json)
  | .sync w now => n.sync k w now
  | .land i => n.land i
  | .lose i => { n with inFlight := n.inFlight.eraseIdx i }
  | .load w => n.modify w (·.load)
  | .share w on => n.modify w (·.share on)
  | .keep w => n.modify w (·.keep n.file)

/-- What the `sync()` of a widget would decide now. -/
def decision (k : Setting P) (n : Net ι P) (w : ι) (now : ℕ) : Decision :=
  (n.stores w).decision k now n.file

@[simp] theorem sync_file (k : Setting P) (n : Net ι P) (w : ι) (now : ℕ) :
    (n.sync k w now).file = n.file := rfl
@[simp] theorem sync_inFlight (k : Setting P) (n : Net ι P) (w : ι) (now : ℕ) :
    (n.sync k w now).inFlight = n.inFlight ++ ((n.stores w).sync k now n.file).2.toList := rfl
@[simp] theorem sync_stores_self (k : Setting P) (n : Net ι P) (w : ι) (now : ℕ) :
    (n.sync k w now).stores w = ((n.stores w).sync k now n.file).1 := by simp [sync]
theorem sync_stores_of_ne (k : Setting P) (n : Net ι P) {v w : ι} (now : ℕ) (h : v ≠ w) :
    (n.sync k w now).stores v = n.stores v := by simp [sync, h]

/-- A sync that leaves its own store alone and writes nothing leaves the whole net alone. -/
theorem sync_eq_self {k : Setting P} {n : Net ι P} {w : ι} {now : ℕ}
    (h : (n.stores w).sync k now n.file = (n.stores w, none)) : n.sync k w now = n := by
  simp [sync, h]

/-- What a step can do to one widget's store. -/
theorem step_store (k : Setting P) (n : Net ι P) (a : Action ι P) (w : ι) :
    (n.step k a).stores w = n.stores w ∨
    (∃ json, a = .edit w json ∧ (n.step k a).stores w = (n.stores w).edit json) ∨
    (∃ now, a = .sync w now ∧ (n.step k a).stores w = ((n.stores w).sync k now n.file).1) ∨
    (a = .load w ∧ (n.step k a).stores w = (n.stores w).load) ∨
    (∃ on, a = .share w on ∧ (n.step k a).stores w = (n.stores w).share on) ∨
    (a = .keep w ∧ (n.step k a).stores w = (n.stores w).keep n.file) := by
  cases a with
  | edit v json =>
    by_cases h : w = v
    · subst h; exact Or.inr (Or.inl ⟨json, rfl, modify_stores_self _ _ _⟩)
    · exact Or.inl (modify_stores_of_ne _ _ h)
  | sync v now =>
    by_cases h : w = v
    · subst h; exact Or.inr (Or.inr (Or.inl ⟨now, rfl, sync_stores_self _ _ _ _⟩))
    · exact Or.inl (sync_stores_of_ne _ _ _ h)
  | land i => exact Or.inl (congrFun (land_stores n i) w)
  | lose i => exact Or.inl rfl
  | load v =>
    by_cases h : w = v
    · subst h; exact Or.inr (Or.inr (Or.inr (Or.inl ⟨rfl, modify_stores_self _ _ _⟩)))
    · exact Or.inl (modify_stores_of_ne _ _ h)
  | share v on =>
    by_cases h : w = v
    · subst h
      exact Or.inr (Or.inr (Or.inr (Or.inr (Or.inl ⟨on, rfl, modify_stores_self _ _ _⟩))))
    · exact Or.inl (modify_stores_of_ne _ _ h)
  | keep v =>
    by_cases h : w = v
    · subst h
      exact Or.inr (Or.inr (Or.inr (Or.inr (Or.inr ⟨rfl, modify_stores_self _ _ _⟩))))
    · exact Or.inl (modify_stores_of_ne _ _ h)

end Net

variable [DecidableEq ι] [DecidableEq P]

/-- The widgets and their file as a machine. -/
def sharing (k : Setting P) : Machine (Net ι P) (Action ι P) := ⟨Net.step k⟩

@[simp] theorem sharing_step (k : Setting P) (n : Net ι P) (a : Action ι P) :
    (sharing k).step n a = n.step k a := rfl

/-- No revision is past the bound: in the file, on its way there, or in a store. -/
structure Net.RevisionsLe (bound : ℕ) (n : Net ι P) : Prop where
  file : n.file.revision ≤ bound
  inFlight : ∀ write ∈ n.inFlight, write.revision ≤ bound
  synced : ∀ w, (n.stores w).syncedRevision ≤ bound
  pending : ∀ w, (n.stores w).pendingRevision ≤ bound

theorem Store.revisions_sync (k : Setting P) (now : ℕ) (shared : Shared P) (s : Store P) {bound : ℕ}
    (hshared : shared.revision ≤ bound) (hsynced : s.syncedRevision ≤ bound) (hpending : s.pendingRevision ≤ bound) :
    (s.sync k now shared).1.syncedRevision ≤ bound ∧ (s.sync k now shared).1.pendingRevision ≤ bound + 1 := by
  cases htakes : (s.decision k now shared).takesShared with
  | true =>
    obtain ⟨hrevision, hnone, -⟩ := Store.sync_of_takesShared htakes
    omega
  | false =>
    obtain ⟨hrevision, hsame | hnone | ⟨hnext, -⟩⟩ := Store.sync_of_not_takesShared htakes <;> omega

/-- A step takes the revisions one further at most. -/
theorem Net.RevisionsLe.step {n : Net ι P} {bound : ℕ} (h : n.RevisionsLe bound) (k : Setting P) (a : Action ι P) :
    (n.step k a).RevisionsLe (bound + 1) := by
  obtain ⟨hfile, hinFlight, hsynced, hpending⟩ := h
  have hstores : ∀ w, ((n.step k a).stores w).syncedRevision ≤ bound ∧
      ((n.step k a).stores w).pendingRevision ≤ bound + 1 := by
    intro w
    have hs := hsynced w
    have hp := hpending w
    have hgrown := hp.trans (Nat.le_succ bound)
    obtain he | ⟨json, -, he⟩ | ⟨now, -, he⟩ | ⟨-, he⟩ | ⟨on, -, he⟩ | ⟨-, he⟩ := n.step_store k a w <;> rw [he]
    · exact ⟨hs, hgrown⟩
    · exact ⟨hs, hgrown⟩
    · exact Store.revisions_sync k now n.file _ hfile hs hp
    · unfold Store.load
      split_ifs <;> exact ⟨hs, hgrown⟩
    · refine ⟨?_, hgrown⟩
      change (if on then _ else 0) ≤ bound
      split_ifs
      · exact hs
      · exact Nat.zero_le _
    · exact ⟨hfile, hgrown⟩
  have hwrites : (n.step k a).file.revision ≤ bound ∧ ∀ write ∈ (n.step k a).inFlight, write.revision ≤ bound + 1 := by
    have hbelow : ∀ write ∈ n.inFlight, write.revision ≤ bound + 1 := fun write hw =>
      (hinFlight write hw).trans (Nat.le_succ _)
    cases a with
    | edit w json => exact ⟨hfile, hbelow⟩
    | load w => exact ⟨hfile, hbelow⟩
    | share w on => exact ⟨hfile, hbelow⟩
    | keep w => exact ⟨hfile, hbelow⟩
    | lose i => exact ⟨hfile, fun write hw => hbelow write (List.mem_of_mem_eraseIdx hw)⟩
    | land i =>
      change (n.land i).file.revision ≤ bound ∧ ∀ write ∈ (n.land i).inFlight, _
      unfold Net.land
      split
      · exact ⟨hfile, hbelow⟩
      · next write hwrite =>
        exact ⟨hinFlight write (List.mem_of_getElem? hwrite), fun other hw => hbelow other (List.mem_of_mem_eraseIdx hw)⟩
    | sync w now =>
      refine ⟨hfile, fun write hw => ?_⟩
      obtain hw | hw := List.mem_append.mp hw
      · exact hbelow write hw
      · rw [Store.write_revision (Option.mem_toList.mp hw)]
        exact Nat.succ_le_succ hfile
  exact ⟨hwrites.1.trans (Nat.le_succ _), hwrites.2, fun w => (hstores w).1.trans (Nat.le_succ _),
    fun w => (hstores w).2⟩

/-- The revisions of a run grow no faster than its steps. -/
theorem revisionsLe_run {n : Net ι P} {bound : ℕ} (h : n.RevisionsLe bound) (k : Setting P) (as : List (Action ι P)) :
    ((sharing k).run n as).RevisionsLe (bound + as.length) := by
  induction as generalizing n bound with
  | nil => exact h
  | cons a as ih =>
    rw [Machine.run_cons, List.length_cons, Nat.add_comm as.length, ← Nat.add_assoc]
    exact ih (h.step k a)

end NetworkHealth.Widget
