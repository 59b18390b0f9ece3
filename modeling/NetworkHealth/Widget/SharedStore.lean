import Mathlib.Algebra.Order.Ring.Nat

/-! One setting shared by every widget. A store compares the widget's own value with the
one in a small file and publishes, adopts or waits; what is shared is opaque to it. The
signals `synced` and `adopt` are answered by the owner before the store goes on, so their
effect on the widget's configuration is part of the step. -/
namespace NetworkHealth.Widget
variable {P : Type*}

/-- What `read` returns and what `write` puts into the file. A missing file reads as
revision 0 with the empty payload. -/
structure Shared (P : Type*) where
  revision : ℕ
  json : P
  deriving DecidableEq, Repr

/-- What is being shared: the payload for "nothing here", and how the owner spells its
own value once it has taken a payload as its own. -/
structure Setting (P : Type*) where
  emptyJson : P
  adopted : P → P

/-- An owner that keeps an adopted payload exactly as it is spelled, as the destination
list does with canonical payloads. -/
def Setting.verbatim (emptyJson : P) : Setting P := ⟨emptyJson, id⟩

/-- A store with the properties its owner binds and its private bookkeeping. Times are
milliseconds of `Date.now()`. The two revisions are of type `int`, which holds them below
`2 ^ 31`: no run from revision 0 gets there in fewer steps. -/
structure Store (P : Type*) where
  active : Bool
  ready : Bool
  localJson : P
  syncedRevision : ℕ
  /-- Revision written but not yet seen to come back, 0 when there is none. -/
  pendingRevision : ℕ
  pendingSince : ℕ
  /-- The value as it was when the store was last in step with the shared one. -/
  baseline : P
  deriving DecidableEq, Repr

/-- The branch of `sync` that is taken. -/
inductive Decision
  | inactive
  | confirmed
  | superseded
  | expired
  | waiting
  | agreed
  | publish (revision : ℕ)
  | adopt
  deriving DecidableEq, Repr

/-- In step with the file and its present revision, with nothing left to do. -/
structure Settled (file : Shared P) (s : Store P) : Prop where
  pending : s.pendingRevision = 0
  synced : s.syncedRevision = file.revision
  json : s.localJson = file.json
  baseline : s.baseline = file.json

def Decision.isPublish : Decision → Bool
  | .publish _ => true
  | _ => false

/-- The branches after which the widget agrees with the payload it has just read. -/
def Decision.takesShared : Decision → Bool
  | .confirmed | .superseded | .agreed | .adopt => true
  | _ => false

namespace Store
variable [DecidableEq P]

/-- The exception for an empty value held since start-up. -/
def wouldWipeSharedList (k : Setting P) (shared : Shared P) (s : Store P) : Bool :=
  s.localJson = k.emptyJson && shared.json ≠ k.emptyJson && s.localJson = s.baseline

def decision (k : Setting P) (now : ℕ) (shared : Shared P) (s : Store P) : Decision :=
  if !s.active || !s.ready then .inactive
  else if s.pendingRevision ≠ 0 then
    if s.pendingRevision ≤ shared.revision then
      -- Anything at or past our revision counts as our write coming back.
      if shared.json ≠ s.localJson then .superseded else .confirmed
    else if s.pendingSince + 5000 < now then .expired
    else .waiting
  else if shared.json = s.localJson then .agreed
  else if shared.revision = 0 then .publish 1
  else if s.syncedRevision = shared.revision ∧ ¬ s.wouldWipeSharedList k shared then
    .publish (shared.revision + 1)
  else .adopt

/-- The store after `publish`, and the write it hands to the shell. -/
def publish (revision now : ℕ) (s : Store P) : Store P × Option (Shared P) :=
  ({ s with pendingRevision := revision, pendingSince := now }, some ⟨revision, s.localJson⟩)

/-- One `sync()`: the store afterwards and the write it issues, if any. -/
def sync (k : Setting P) (now : ℕ) (shared : Shared P) (s : Store P) : Store P × Option (Shared P) :=
  match s.decision k now shared with
  | .inactive | .waiting => (s, none)
  | .confirmed =>
    ({ s with pendingRevision := 0, syncedRevision := shared.revision,
              baseline := s.localJson }, none)
  | .superseded =>
    ({ s with pendingRevision := 0, syncedRevision := shared.revision,
              baseline := shared.json, localJson := k.adopted shared.json }, none)
  | .expired => ({ s with pendingRevision := 0 }, none)
  | .agreed => ({ s with baseline := s.localJson, syncedRevision := shared.revision }, none)
  | .publish revision => s.publish revision now
  | .adopt =>
    ({ s with baseline := shared.json, localJson := k.adopted shared.json,
              syncedRevision := shared.revision }, none)

/-- The user changes the widget's own value. -/
def edit (json : P) (s : Store P) : Store P := { s with localJson := json }

/-- The owner's configuration has been loaded: `onReadyChanged`. -/
def load (s : Store P) : Store P :=
  if s.ready then s else { s with ready := true, baseline := s.localJson }

/-- The sharing box is applied: `onSharingDestinationsChanged` forgets where we were when
sharing goes off. -/
def share (on : Bool) (s : Store P) : Store P :=
  { s with active := on, syncedRevision := if on then s.syncedRevision else 0 }

/-- Keep This Widget's List, applied: `saveConfig` marks the widget as being in step. -/
def keep (shared : Shared P) (s : Store P) : Store P :=
  { s with syncedRevision := shared.revision }

/-- What each branch of `sync` knows when it is taken. -/
def Knows (k : Setting P) (now : ℕ) (shared : Shared P) (s : Store P) : Decision → Prop
  | .inactive => s.active = false ∨ s.ready = false
  | .confirmed => s.pendingRevision ≠ 0 ∧ s.pendingRevision ≤ shared.revision ∧
      shared.json = s.localJson
  | .superseded => s.pendingRevision ≠ 0 ∧ s.pendingRevision ≤ shared.revision ∧
      shared.json ≠ s.localJson
  | .expired => s.pendingRevision ≠ 0 ∧ shared.revision < s.pendingRevision ∧
      s.pendingSince + 5000 < now
  | .waiting => s.pendingRevision ≠ 0 ∧ shared.revision < s.pendingRevision ∧
      now ≤ s.pendingSince + 5000
  | .agreed => s.pendingRevision = 0 ∧ shared.json = s.localJson
  | .publish r => s.pendingRevision = 0 ∧ shared.json ≠ s.localJson ∧ r = shared.revision + 1 ∧
      (shared.revision = 0 ∨ s.syncedRevision = shared.revision ∧
        s.wouldWipeSharedList k shared = false)
  | .adopt => s.pendingRevision = 0 ∧ shared.json ≠ s.localJson ∧ shared.revision ≠ 0 ∧
      (s.syncedRevision = shared.revision → s.wouldWipeSharedList k shared = true)

theorem decision_knows (k : Setting P) (now : ℕ) (shared : Shared P) (s : Store P) :
    s.Knows k now shared (s.decision k now shared) := by
  unfold decision
  split_ifs with hoff hpend hback hjson hlate hsame hzero hours
  · simpa [Knows] using hoff
  · exact ⟨hpend, hback, hjson⟩
  · exact ⟨hpend, hback, not_not.mp hjson⟩
  · exact ⟨hpend, by omega, hlate⟩
  · exact ⟨hpend, by omega, by omega⟩
  · exact ⟨not_not.mp hpend, hsame⟩
  · exact ⟨not_not.mp hpend, hsame, by omega, Or.inl hzero⟩
  · exact ⟨not_not.mp hpend, hsame, rfl, Or.inr ⟨hours.1, by simpa using hours.2⟩⟩
  · exact ⟨not_not.mp hpend, hsame, hzero, fun he => by simpa [he] using hours⟩

theorem active_of_decision {k : Setting P} {now : ℕ} {shared : Shared P} {s : Store P}
    (h : s.decision k now shared ≠ .inactive) : s.active = true ∧ s.ready = true := by
  unfold decision at h
  split_ifs at h with hoff <;> simp_all

theorem wouldWipeSharedList_eq_true {k : Setting P} {shared : Shared P} {s : Store P} :
    s.wouldWipeSharedList k shared = true ↔
      s.localJson = k.emptyJson ∧ shared.json ≠ k.emptyJson ∧ s.localJson = s.baseline := by
  simp [wouldWipeSharedList, and_assoc]

/-- A sync writes exactly when it decides to publish. -/
theorem sync_write_eq_none {k : Setting P} {now : ℕ} {shared : Shared P} {s : Store P} :
    (s.sync k now shared).2 = none ↔ (s.decision k now shared).isPublish = false := by
  unfold sync
  cases s.decision k now shared <;> simp [Decision.isPublish, publish]

theorem pending_of_isPublish {k : Setting P} {now : ℕ} {shared : Shared P} {s : Store P}
    (h : (s.decision k now shared).isPublish = true) : s.pendingRevision = 0 := by
  have hknows := s.decision_knows k now shared
  cases hd : s.decision k now shared <;> rw [hd] at h hknows <;> simp [Decision.isPublish] at h
  exact hknows.1

theorem write_revision {k : Setting P} {now : ℕ} {shared write : Shared P} {s : Store P}
    (h : (s.sync k now shared).2 = some write) : write = ⟨shared.revision + 1, s.localJson⟩ := by
  have hknows := s.decision_knows k now shared
  unfold sync at h
  cases hd : s.decision k now shared <;> rw [hd] at h hknows <;> cases h
  rw [hknows.2.2.1]

theorem sync_of_takesShared {k : Setting P} {now : ℕ} {shared : Shared P} {s : Store P}
    (h : (s.decision k now shared).takesShared = true) :
    (s.sync k now shared).1.syncedRevision = shared.revision ∧
      (s.sync k now shared).1.pendingRevision = 0 ∧ (s.sync k now shared).2 = none := by
  have hknows := s.decision_knows k now shared
  unfold sync
  cases hd : s.decision k now shared <;> rw [hd] at h hknows <;> simp [Decision.takesShared] at h
  · exact ⟨rfl, rfl, rfl⟩
  · exact ⟨rfl, rfl, rfl⟩
  · exact ⟨rfl, hknows.1, rfl⟩
  · exact ⟨rfl, hknows.1, rfl⟩

/-- A sync that takes nothing keeps the synced revision; what it leaves pending is what was
pending, nothing, or the revision it publishes past its own. -/
theorem sync_of_not_takesShared {k : Setting P} {now : ℕ} {shared : Shared P} {s : Store P}
    (h : (s.decision k now shared).takesShared = false) :
    let s' := (s.sync k now shared).1
    s'.syncedRevision = s.syncedRevision ∧ (s'.pendingRevision = s.pendingRevision ∨
      s'.pendingRevision = 0 ∨ s'.pendingRevision = shared.revision + 1 ∧
        (shared.revision = 0 ∨ s.syncedRevision = shared.revision)) := by
  have hknows := s.decision_knows k now shared
  unfold sync
  cases hd : s.decision k now shared <;> rw [hd] at h hknows <;> simp [Decision.takesShared] at h
  case publish r =>
    obtain ⟨-, -, rfl, hrev⟩ := hknows
    exact ⟨rfl, Or.inr (Or.inr ⟨rfl, hrev.imp_right And.left⟩)⟩
  case expired => exact ⟨rfl, Or.inr (Or.inl rfl)⟩
  all_goals exact ⟨rfl, Or.inl rfl⟩

@[simp] theorem sync_active (k : Setting P) (now : ℕ) (shared : Shared P) (s : Store P) :
    (s.sync k now shared).1.active = s.active := by
  unfold sync; cases s.decision k now shared <;> rfl

@[simp] theorem sync_ready (k : Setting P) (now : ℕ) (shared : Shared P) (s : Store P) :
    (s.sync k now shared).1.ready = s.ready := by
  unfold sync; cases s.decision k now shared <;> rfl

end Store

variable [DecidableEq P] {file : Shared P} {s : Store P}

/-- Settled widgets have nothing left to do. -/
theorem Settled.sync (k : Setting P) (now : ℕ) (hactive : s.active = true)
    (hready : s.ready = true) (h : Settled file s) : s.sync k now file = (s, none) := by
  have hdecision : s.decision k now file = .agreed := by
    simp [Store.decision, hactive, hready, h.pending, h.json]
  obtain ⟨hpend, hsynced, hjson, hbase⟩ := h
  cases s
  simp_all [Store.sync]

/-- A widget that takes a payload exactly as spelled is settled by it. -/
theorem settled_of_takesShared {e : P} {now : ℕ}
    (h : (s.decision (.verbatim e) now file).takesShared = true) :
    Settled file (s.sync (.verbatim e) now file).1 := by
  have hknows := s.decision_knows (.verbatim e) now file
  unfold Store.sync
  cases hd : s.decision (.verbatim e) now file <;> rw [hd] at h hknows <;>
    simp [Decision.takesShared] at h
  case confirmed => exact ⟨rfl, rfl, hknows.2.2.symm, hknows.2.2.symm⟩
  case superseded => exact ⟨rfl, rfl, rfl, rfl⟩
  case agreed => exact ⟨hknows.1, rfl, hknows.2.symm, hknows.2.symm⟩
  case adopt => exact ⟨hknows.1, rfl, rfl, rfl⟩

end NetworkHealth.Widget
