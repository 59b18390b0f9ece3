import NetworkHealth.Library.Machine
import NetworkHealth.Widget.Destinations
import NetworkHealth.Widget.SharedStore

/-! One widget with its list of destinations as text. What the store compares is bound to the
configured text, and an adopted payload becomes that text as it is, so that a payload which is
no list comes out as the empty one. -/
namespace NetworkHealth.Widget

/-- The widget's configuration and store, the shared file and its own writes on their way. -/
structure Plasmoid where
  /-- `Plasmoid.configuration.destinations`. -/
  destinations : CodeUnits
  store : Store CodeUnits
  file : Shared CodeUnits
  inFlight : List (Shared CodeUnits)

inductive PlasmoidAction
  | sync (now : ℕ)
  | land (i : ℕ)
  | lose (i : ℕ)

/-- The branches that emit `adopt`. -/
def Decision.adopts : Decision → Bool
  | .superseded | .adopt => true
  | _ => false

/-- A sync changes the list exactly where it adopts. -/
theorem Store.sync_localJson {P : Type*} [DecidableEq P] (k : Setting P) (now : ℕ) (shared : Shared P)
    (s : Store P) : (s.sync k now shared).1.localJson =
      if (s.decision k now shared).adopts = true then k.adopted shared.json else s.localJson := by
  unfold Store.sync
  cases s.decision k now shared <;> rfl

variable (collate : CodeUnits → CodeUnits → Ordering)

/-- The list setting of a widget whose `localJson` is now `held`: a binding that throws leaves
its property as it was. -/
def destinationsSetting (held : CodeUnits) : Setting CodeUnits where
  emptyJson := units "[]"
  adopted json := (canonicalDestinations collate (destinationList json)).getD held

namespace Plasmoid

def setting (p : Plasmoid) : Setting CodeUnits := destinationsSetting collate p.store.localJson

def decision (now : ℕ) (p : Plasmoid) : Decision := p.store.decision (p.setting collate) now p.file

/-- `onAdopt` makes the payload the configured list. -/
def sync (now : ℕ) (p : Plasmoid) : Plasmoid :=
  let next := p.store.sync (p.setting collate) now p.file
  { p with
    destinations := if (p.decision collate now).adopts then p.file.json else p.destinations
    store := next.1
    inFlight := p.inFlight ++ next.2.toList }

def land (i : ℕ) (p : Plasmoid) : Plasmoid :=
  match p.inFlight[i]? with
  | none => p
  | some write => { p with file := write, inFlight := p.inFlight.eraseIdx i }

def step (p : Plasmoid) : PlasmoidAction → Plasmoid
  | .sync now => p.sync collate now
  | .land i => p.land i
  | .lose i => { p with inFlight := p.inFlight.eraseIdx i }

/-- The widget and its file, with nobody else writing. -/
def machine : Machine Plasmoid PlasmoidAction := ⟨step collate⟩

@[simp] theorem machine_step (p : Plasmoid) (a : PlasmoidAction) :
    (machine collate).step p a = p.step collate a := rfl

theorem sync_localJson (now : ℕ) (p : Plasmoid) : (p.sync collate now).store.localJson =
    if (p.decision collate now).adopts = true then (p.setting collate).adopted p.file.json
    else p.store.localJson := Store.sync_localJson _ _ _ _

/-- A sync writes nothing but the widget's own list. -/
theorem mem_sync_inFlight {now : ℕ} {p : Plasmoid} {write : Shared CodeUnits}
    (h : write ∈ (p.sync collate now).inFlight) :
    write ∈ p.inFlight ∨ write = ⟨p.file.revision + 1, p.store.localJson⟩ := by
  apply (List.mem_append.mp h).imp_right
  intro hnew
  exact Store.write_revision (Option.mem_toList.mp hnew)

/-- A landing takes nothing but a write on its way into the file. -/
theorem land_cases (i : ℕ) (p : Plasmoid) : p.land i = p ∨
    ∃ write ∈ p.inFlight, p.land i = { p with file := write, inFlight := p.inFlight.eraseIdx i } := by
  unfold land
  cases hwrite : p.inFlight[i]? with
  | none => exact Or.inl rfl
  | some write => exact Or.inr ⟨write, List.mem_of_getElem? hwrite, rfl⟩

/-- The next publication is the widget's own: it is in step with the file's revision, and the
file has not caught up with a write of its own. -/
def Prevails (p : Plasmoid) : Prop :=
  (p.store.pendingRevision = 0 ∨ p.file.revision < p.store.pendingRevision) ∧
    (p.file.revision = 0 ∨ p.store.syncedRevision = p.file.revision ∧
      p.store.wouldWipeSharedList (p.setting collate) p.file = false)

variable {collate} {p : Plasmoid} {now : ℕ}

/-- A widget whose list differs from the shared one adopts nothing while it prevails. -/
theorem Prevails.sync (h : p.Prevails collate) (hjson : p.file.json ≠ p.store.localJson) :
    (p.decision collate now).adopts = false ∧ (p.sync collate now).Prevails collate := by
  obtain ⟨hpending, hours⟩ := h
  have hknows := p.store.decision_knows (p.setting collate) now p.file
  cases hd : p.store.decision (p.setting collate) now p.file <;> rw [hd] at hknows <;>
    simp only [decision, Prevails, Plasmoid.sync, Store.sync, hd, Decision.adopts]
  case inactive => exact ⟨trivial, hpending, hours⟩
  case confirmed => exact absurd hknows.2.2 hjson
  case superseded =>
    obtain ⟨hne, hle, -⟩ := hknows
    omega
  case expired => exact ⟨trivial, Or.inl trivial, hours⟩
  case waiting => exact ⟨trivial, hpending, hours⟩
  case agreed => exact absurd hknows.2 hjson
  case publish revision =>
    obtain ⟨-, -, rfl, -⟩ := hknows
    exact ⟨trivial, Or.inr (Nat.lt_succ_self _), hours⟩
  case adopt =>
    obtain ⟨-, -, hzero, hwipe⟩ := hknows
    obtain ⟨hsynced, hnot⟩ := hours.resolve_left hzero
    rw [hwipe hsynced] at hnot
    cases hnot

/-- One whose list is the shared one adopts nothing either. -/
theorem adopts_of_json_eq (hjson : p.file.json = p.store.localJson) :
    (p.decision collate now).adopts = false := by
  have hknows := p.store.decision_knows (p.setting collate) now p.file
  cases hd : p.store.decision (p.setting collate) now p.file <;> rw [hd] at hknows <;>
    simp only [decision, hd, Decision.adopts]
  case superseded => exact absurd hjson hknows.2.2
  case adopt => exact absurd hjson hknows.2.1

end Plasmoid

end NetworkHealth.Widget
