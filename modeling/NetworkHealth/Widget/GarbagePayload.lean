import NetworkHealth.Widget.Plasmoid

/-! A shared payload that is no list of destinations. A widget that takes it is left with an
empty list and goes on to share that; only one that is in step with the payload's revision
puts its own list in its place. -/
namespace NetworkHealth.Widget
variable (collate : CodeUnits → CodeUnits → Ordering)

/-- The canonical spelling of a list that is not empty. -/
def SpellsEntries (text : CodeUnits) : Prop :=
  ∃ list : List Value, list ≠ [] ∧ canonicalDestinations collate list = some text

variable {collate}

theorem SpellsEntries.destinationList_ne_nil {text : CodeUnits} (h : SpellsEntries collate text) :
    destinationList text ≠ [] := by
  obtain ⟨list, hne, htext⟩ := h
  have hlength := length_of_canonicalDestinations collate htext
  rw [Ne, ← List.length_eq_zero_iff, hlength, List.length_eq_zero_iff]
  exact hne

theorem SpellsEntries.ne_emptyJson {text : CodeUnits} (h : SpellsEntries collate text) :
    text ≠ units "[]" := by
  rintro rfl
  exact h.destinationList_ne_nil destinationList_emptyJson

variable (collate)

/-- An active widget with a list that is not empty, none of whose writes carries an empty one. -/
structure HoldsEntries (p : Plasmoid) : Prop where
  active : p.store.active = true
  ready : p.store.ready = true
  list : destinationList p.destinations ≠ []
  spelled : SpellsEntries collate p.store.localJson
  writes : ∀ write ∈ p.inFlight, SpellsEntries collate write.json

/-- The list is not empty, and nothing on its way to the file is an empty list. -/
def KeepsEntries (p : Plasmoid) : Prop :=
  destinationList p.destinations ≠ [] ∧ ∀ write ∈ p.inFlight, destinationList write.json ≠ []

/-- What keeps a payload without entries from being adopted, over whole runs: either the file has
entries or the widget prevails over it. -/
structure Safe (p : Plasmoid) : Prop extends HoldsEntries collate p where
  file : destinationList p.file.json ≠ [] ∨ p.Prevails collate

section Steps
variable {collate} {p : Plasmoid} {now : ℕ}

/-- Whatever is adopted from a list that is not empty is one again. -/
theorem spellsEntries_adopted {json held : CodeUnits} (hjson : destinationList json ≠ [])
    (hheld : SpellsEntries collate held) :
    SpellsEntries collate ((destinationsSetting collate held).adopted json) := by
  simp only [destinationsSetting]
  cases hspelled : canonicalDestinations collate (destinationList json) with
  | none => exact hheld
  | some text => exact ⟨_, hjson, hspelled⟩

theorem HoldsEntries.not_wouldWipe (h : HoldsEntries collate p) :
    p.store.wouldWipeSharedList (p.setting collate) p.file = false := by
  by_contra hwipe
  rw [Bool.not_eq_false, Store.wouldWipeSharedList_eq_true] at hwipe
  exact h.spelled.ne_emptyJson hwipe.1

/-- A sync keeps the entries unless it adopts a payload without any. -/
theorem HoldsEntries.sync (h : HoldsEntries collate p)
    (hadopts : (p.decision collate now).adopts = true → destinationList p.file.json ≠ []) :
    HoldsEntries collate (p.sync collate now) := by
  obtain ⟨hactive, hready, hlist, hspelled, hwrites⟩ := h
  refine ⟨by simp [Plasmoid.sync, hactive], by simp [Plasmoid.sync, hready], ?_, ?_, ?_⟩
  · simp only [Plasmoid.sync]
    split_ifs with ha
    · exact hadopts ha
    · exact hlist
  · rw [Plasmoid.sync_localJson]
    split_ifs with ha
    · exact spellsEntries_adopted (hadopts ha) hspelled
    · exact hspelled
  · intro write hwrite
    rcases Plasmoid.mem_sync_inFlight collate hwrite with hold | rfl
    · exact hwrites write hold
    · exact hspelled

theorem HoldsEntries.json_ne (h : HoldsEntries collate p) (hfile : destinationList p.file.json = []) :
    p.file.json ≠ p.store.localJson := by
  intro he
  exact h.spelled.destinationList_ne_nil (he ▸ hfile)

theorem Safe.step (h : Safe collate p) (a : PlasmoidAction) : Safe collate (p.step collate a) := by
  obtain ⟨hholds, hfile⟩ := h
  cases a with
  | sync now =>
    by_cases hentries : destinationList p.file.json = []
    · obtain ⟨hkeeps, hprevails⟩ :=
        Plasmoid.Prevails.sync (hfile.resolve_left (not_not.mpr hentries)) (hholds.json_ne hentries)
      exact ⟨hholds.sync fun ha => absurd (hkeeps.symm.trans ha) (by decide), Or.inr hprevails⟩
    · exact ⟨hholds.sync fun _ => hentries, Or.inl hentries⟩
  | land i =>
    obtain ⟨hactive, hready, hlist, hspelled, hwrites⟩ := hholds
    rcases p.land_cases i with he | ⟨write, hwrite, he⟩ <;> simp only [Plasmoid.step, he]
    · exact ⟨⟨hactive, hready, hlist, hspelled, hwrites⟩, hfile⟩
    · exact ⟨⟨hactive, hready, hlist, hspelled, fun w hw => hwrites w (List.mem_of_mem_eraseIdx hw)⟩,
        Or.inl (hwrites write hwrite).destinationList_ne_nil⟩
  | lose i =>
    obtain ⟨hactive, hready, hlist, hspelled, hwrites⟩ := hholds
    exact ⟨⟨hactive, hready, hlist, hspelled, fun w hw => hwrites w (List.mem_of_mem_eraseIdx hw)⟩,
      hfile⟩

theorem Safe.keepsEntries (h : Safe collate p) : KeepsEntries p :=
  ⟨h.list, fun write hw => (h.writes write hw).destinationList_ne_nil⟩

/-- A payload without entries that the file has caught up with is taken at once. -/
theorem takes_empty_of_superseded (h : HoldsEntries collate p) (hfile : destinationList p.file.json = [])
    (hne : p.store.pendingRevision ≠ 0) (hle : p.store.pendingRevision ≤ p.file.revision) :
    destinationList (p.sync collate now).destinations = [] := by
  have hjson := h.json_ne hfile
  have hd : p.decision collate now = .superseded := by
    simp [Plasmoid.decision, Store.decision, h.active, h.ready, hne, hle, hjson]
  simp [Plasmoid.sync, hd, Decision.adopts, hfile]

/-- So is one at a revision that the widget has not agreed with. -/
theorem takes_empty_of_moved (h : HoldsEntries collate p) (hfile : destinationList p.file.json = [])
    (hrevision : 1 ≤ p.file.revision) (hpending : p.store.pendingRevision = 0)
    (hsynced : p.store.syncedRevision ≠ p.file.revision) :
    destinationList (p.sync collate now).destinations = [] := by
  have hjson := h.json_ne hfile
  have hd : p.decision collate now = .adopt := by
    have hzero : p.file.revision ≠ 0 := by omega
    simp [Plasmoid.decision, Store.decision, h.active, h.ready, hpending, hjson, hzero, hsynced]
  simp [Plasmoid.sync, hd, Decision.adopts, hfile]

/-- A write that has not landed is given up after a while, and nothing else changes. -/
theorem sync_expired (h : HoldsEntries collate p) (hne : p.store.pendingRevision ≠ 0)
    (hlt : p.file.revision < p.store.pendingRevision) :
    p.sync collate (p.store.pendingSince + 5001) =
      { p with store := { p.store with pendingRevision := 0 } } := by
  have hd : p.decision collate (p.store.pendingSince + 5001) = .expired := by
    have hnot : ¬ p.store.pendingRevision ≤ p.file.revision := by omega
    simp [Plasmoid.decision, Store.decision, h.active, h.ready, hne, hnot]
  have hstore : p.store.decision (p.setting collate) (p.store.pendingSince + 5001) p.file = .expired := hd
  simp [Plasmoid.sync, Store.sync, hd, hstore, Decision.adopts]

/-- Exactly when a shared payload destroys nothing: it has entries, or the widget is in step with
its revision and has no write pending that the file has caught up with. Otherwise some run ends
with an empty list. -/
theorem payload_destroys_nothing_iff (p : Plasmoid) (hholds : HoldsEntries collate p)
    (hrevision : 1 ≤ p.file.revision) :
    (∀ as : List PlasmoidAction, KeepsEntries ((Plasmoid.machine collate).run p as)) ↔
      destinationList p.file.json ≠ [] ∨
        (p.store.pendingRevision = 0 ∨ p.file.revision < p.store.pendingRevision) ∧
          p.store.syncedRevision = p.file.revision := by
  constructor
  · intro hkeeps
    by_contra hnot
    obtain ⟨hfile, hahead⟩ := not_or.mp hnot
    rw [not_not] at hfile
    by_cases hback : p.store.pendingRevision ≠ 0 ∧ p.store.pendingRevision ≤ p.file.revision
    · exact (hkeeps [.sync 0]).1 (takes_empty_of_superseded hholds hfile hback.1 hback.2)
    · have hsynced : p.store.syncedRevision ≠ p.file.revision := fun he => hahead ⟨by omega, he⟩
      by_cases hpending : p.store.pendingRevision = 0
      · exact (hkeeps [.sync 0]).1 (takes_empty_of_moved hholds hfile hrevision hpending hsynced)
      · have hexpired := sync_expired hholds hpending (by omega)
        apply (hkeeps [.sync (p.store.pendingSince + 5001), .sync 0]).1
        simp only [Machine.run_cons, Machine.run_nil, Plasmoid.machine_step, Plasmoid.step, hexpired]
        obtain ⟨hactive, hready, hlist, hspelled, hwrites⟩ := hholds
        exact takes_empty_of_moved ⟨hactive, hready, hlist, hspelled, hwrites⟩ hfile hrevision rfl hsynced
  · intro hfile as
    have hsafe : Safe collate p :=
      ⟨hholds, hfile.imp_right fun h => ⟨h.1, Or.inr ⟨h.2, hholds.not_wouldWipe⟩⟩⟩
    exact (Machine.run_keeps (Safe collate) (fun q a hq => hq.step a) hsafe as).keepsEntries

end Steps

section Truncated

/-- One entry, in the canonical spelling. -/
def gatewayList : CodeUnits :=
  (canonicalDestinations (fun _ _ => .eq) [.object [(units "id", .string (units "gw"))]]).getD []

/-- A widget in step with revision 3 finds a payload that breaks off, at revision 4. -/
def truncatedPayload : Plasmoid where
  destinations := gatewayList
  store := ⟨true, true, gatewayList, 3, 0, 0, gatewayList⟩
  file := ⟨4, units "[\x7b\"id\":\"gw\",\"na"⟩
  inFlight := []

theorem holdsEntries_truncatedPayload : HoldsEntries (fun _ _ => .eq) truncatedPayload := by
  refine ⟨rfl, rfl, by decide +kernel, ?_, fun write h => absurd h (by simp [truncatedPayload])⟩
  refine ⟨[.object [(units "id", .string (units "gw"))]], by simp, ?_⟩
  exact Option.eq_some_of_isSome (by decide +kernel)

/-- It loses its list in one step and shares the loss in the next. -/
theorem truncated_payload_wipes :
    HoldsEntries (fun _ _ => .eq) truncatedPayload ∧ 1 ≤ truncatedPayload.file.revision ∧
      ¬ KeepsEntries ((Plasmoid.machine fun _ _ => .eq).run truncatedPayload [.sync 0]) ∧
      ((Plasmoid.machine fun _ _ => .eq).run truncatedPayload [.sync 0, .sync 0]).inFlight =
        [⟨5, units "[]"⟩] := by
  refine ⟨holdsEntries_truncatedPayload, by decide, ?_, by decide +kernel⟩
  intro hkeeps
  exact hkeeps.1 (by decide +kernel)

theorem payload_destroys_nothing_iff_truncated :
    (∀ as : List PlasmoidAction,
      KeepsEntries ((Plasmoid.machine fun _ _ => .eq).run truncatedPayload as)) ↔
        destinationList truncatedPayload.file.json ≠ [] ∨
          (truncatedPayload.store.pendingRevision = 0 ∨
            truncatedPayload.file.revision < truncatedPayload.store.pendingRevision) ∧
            truncatedPayload.store.syncedRevision = truncatedPayload.file.revision :=
  payload_destroys_nothing_iff truncatedPayload holdsEntries_truncatedPayload (by decide)

end Truncated
end NetworkHealth.Widget
