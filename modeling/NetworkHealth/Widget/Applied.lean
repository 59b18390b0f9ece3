import NetworkHealth.Widget.DestinationsPage
import NetworkHealth.Widget.Plasmoid

/-! What Apply hands over and what the widget is left with. Switching sharing on shows the list
that will be kept, but the rows stay open to edits, and those are lost: the widget takes the
shared list as it is, unless it counts as in step with it. -/
namespace NetworkHealth.Widget
variable (collate : CodeUnits → CodeUnits → Ordering)

/-- At rest, in step with the file and with nothing of its own on the way. -/
structure AtRest (p : Plasmoid) : Prop where
  settled : Settled p.file p.store
  inFlight : p.inFlight = []

/-- In step with the sharing state that the page shows. A widget that shares is at rest; one
that does not has forgotten the revision it knew. -/
structure StartsInStep (p : Plasmoid) : Prop where
  ready : p.store.ready = true
  spelled : canonicalDestinations collate (destinationList p.destinations) = some p.store.localJson
  pending : p.store.pendingRevision = 0
  inFlight : p.inFlight = []
  sharing : p.store.active = true → Settled p.file p.store
  apart : p.store.active = false → p.store.syncedRevision = 0

/-- A payload that the page can show and the widget can spell, be it a list or nothing of the kind. -/
structure Showable (json : CodeUnits) : Prop where
  rows : ∃ rows, (destinationList json).mapM PageRow.ofEntry = some rows
  spelled : ∃ text, canonicalDestinations collate (destinationList json) = some text
  length : (destinationList json).length ≤ rowLimit

namespace Page

/-- What the page hands over is the list it shows. -/
def Saved (page : Page) : Prop := page.cfgDestinations = listText page.rows

/-- The text of some rows, saved earlier. -/
def Listing (text : CodeUnits) : Prop :=
  ∃ rows : List PageRow, rows.length ≤ rowLimit ∧ text = listText rows

/-- Apply: the `cfg_` values are written to the configuration, then `saveConfig` is called. -/
def apply (page : Page) (p : Plasmoid) : Page × Plasmoid :=
  let localJson :=
    (canonicalDestinations collate (destinationList page.cfgDestinations)).getD p.store.localJson
  let store := (p.store.edit localJson).share page.sharedBox
  ({ page with sharingApplied := page.sharedBox, joinChoice := .none, ownListJson := [] },
    { p with
      destinations := page.cfgDestinations
      store := if page.sharedBox = true ∧ page.joinChoice = .mine then store.keep p.file else store })

section Invariant

/-- Rows and kept texts within bounds. -/
structure Sound (page : Page) : Prop where
  length : page.rows.length ≤ rowLimit
  ownList : page.joinChoice ≠ .none → Listing page.ownListJson
  undo : page.undoJson = [] ∨ Listing page.undoJson

/-- A page opened on a configured list either shows what it hands over or has not been used. -/
structure OpenedOn (own : CodeUnits) (page : Page) : Prop extends Sound page where
  handsOver : page.Saved ∨ page.cfgDestinations = own ∧ page.joinChoice = .none

variable {collate} {own : CodeUnits} {page : Page}

theorem Sound.save (h : Sound page) : OpenedOn own page.save :=
  ⟨⟨h.length, h.ownList, h.undo⟩, Or.inl rfl⟩

theorem listing_listText {rows : List PageRow} (h : rows.length ≤ rowLimit) :
    Listing (listText rows) := ⟨rows, h, rfl⟩

theorem replaceList_of_mapM {list : List Value} {rows : List PageRow}
    (h : list.mapM PageRow.ofEntry = some rows) (page : Page) :
    page.replaceList list = save { page with rows := rows } := by
  simp only [replaceList, h]

/-- A text that was saved earlier is shown again. -/
theorem Listing.replaceList {text : CodeUnits} (h : Listing text) (page : Page) :
    ∃ rows : List PageRow, rows.length ≤ rowLimit ∧
      page.replaceList (destinationList text) = save { page with rows := rows } := by
  obtain ⟨rows, hlength, rfl⟩ := h
  refine ⟨rows.map PageRow.trimmed, by simpa using hlength, ?_⟩
  rw [destinationList_listText hlength]
  exact replaceList_of_mapM (mapM_currentList rows) page

theorem replaceList_of_showable {json : CodeUnits} (h : Showable collate json) (page : Page) :
    ∃ rows : List PageRow, rows.length ≤ rowLimit ∧
      page.replaceList (destinationList json) = save { page with rows := rows } := by
  obtain ⟨⟨rows, hrows⟩, -, hlength⟩ := h
  refine ⟨rows, ?_, replaceList_of_mapM hrows page⟩
  rwa [← (forall₂_of_mapM hrows).length_eq]

variable {shared : Shared CodeUnits} {defaults : Defaults}

theorem OpenedOn.sharingToggled (h : OpenedOn own page) (hshared : Showable collate shared.json)
    (checked : Bool) : OpenedOn own (page.sharingToggled collate shared checked) := by
  obtain ⟨⟨hlength, hown, hundo⟩, hhands⟩ := id h
  unfold Page.sharingToggled
  cases checked with
  | false =>
    simp only [Bool.not_false, if_true]
    split_ifs with hshown
    · obtain ⟨rows, hrows, he⟩ := (hown (by simp [hshown])).replaceList page
      rw [he]
      exact ⟨⟨hrows, fun hnone => absurd rfl hnone, hundo⟩, Or.inl rfl⟩
    · exact ⟨⟨hlength, fun hnone => absurd rfl hnone, hundo⟩, hhands.imp_right fun h => ⟨h.1, rfl⟩⟩
  | true =>
    simp only [Bool.not_true, Bool.false_eq_true, if_false]
    split_ifs with happlied hsame
    · exact h
    · exact h
    all_goals
      obtain ⟨rows, hrows, he⟩ := replaceList_of_showable hshared
        { page with ownListJson := listText page.rows }
      simp only [listText] at he
      rw [he]
      exact ⟨⟨hrows, fun _ => listing_listText hlength, hundo⟩, Or.inl rfl⟩

theorem OpenedOn.step (h : OpenedOn own page) (hshared : Showable collate shared.json)
    (a : PageAction) : OpenedOn own (page.step collate shared defaults a) := by
  obtain ⟨⟨hlength, hown, hundo⟩, hhands⟩ := id h
  have hlimit : maximumDestinations ≤ rowLimit := by decide
  cases a with
  | edit i change =>
    apply Sound.save
    exact ⟨by simpa using hlength, hown, hundo⟩
  | add id name =>
    simp only [Page.step]
    split_ifs with hfull
    · exact h
    · apply Sound.save
      refine ⟨?_, hown, hundo⟩
      simp only [List.length_append, List.length_cons, List.length_nil]
      omega
  | move source target =>
    simp only [Page.step]
    cases hrow : page.rows[source]? with
    | none => exact h
    | some row =>
      simp only
      split_ifs with htarget
      · apply Sound.save
        refine ⟨?_, hown, hundo⟩
        have hinsert : ((page.rows.eraseIdx source).insertIdx target row).length ≤
            (page.rows.eraseIdx source).length + 1 := List.length_insertIdx_le_succ
        have herase := List.length_eraseIdx_of_lt (List.getElem?_eq_some_iff.mp hrow).1
        dsimp only
        omega
      · exact h
  | remove i =>
    apply Sound.save
    exact ⟨(List.length_eraseIdx_le _ _).trans hlength, hown, hundo⟩
  | toggle =>
    have hflipped : OpenedOn own { page with sharedBox := !page.sharedBox } :=
      ⟨⟨hlength, hown, hundo⟩, hhands⟩
    exact hflipped.sharingToggled hshared _
  | keepOwnList =>
    simp only [Page.step]
    split_ifs with hoffered
    · have hlisting := hown (by simp [hoffered.2])
      obtain ⟨rows, hrows, he⟩ := hlisting.replaceList page
      simp only [Page.keepOwnList, he]
      exact ⟨⟨hrows, fun _ => hlisting, hundo⟩, Or.inl rfl⟩
    · exact h
  | useSharedList =>
    simp only [Page.step]
    split_ifs with hoffered
    · have hlisting := hown (by simp [hoffered.2])
      obtain ⟨rows, hrows, he⟩ := replaceList_of_showable hshared page
      simp only [Page.useSharedList, he]
      exact ⟨⟨hrows, fun _ => hlisting, hundo⟩, Or.inl rfl⟩
    · exact h
  | importList destinations =>
    simp only [Page.step]
    split_ifs with hempty
    · exact h
    · apply Sound.save
      exact ⟨by dsimp only; omega, hown, Or.inr (listing_listText hlength)⟩
  | undo =>
    simp only [Page.step]
    split_ifs with hnothing
    · exact h
    · obtain ⟨rows, hrows, he⟩ := (hundo.resolve_left hnothing).replaceList page
      rw [he]
      exact ⟨⟨hrows, hown, Or.inl rfl⟩, Or.inl rfl⟩

/-- Whatever the user does, a page hands over what it shows or has not been used. -/
theorem OpenedOn.run (h : OpenedOn own page) (hshared : Showable collate shared.json)
    (as : List PageAction) : OpenedOn own ((Page.machine collate shared defaults).run page as) :=
  Machine.run_keeps (OpenedOn own) (fun _ a hpage => hpage.step hshared a) h as

end Invariant
end Page

section Rest

/-- A running widget that holds a list and goes on holding it: the shared list is the same, or the
widget's own is the next publication. -/
structure HoldsList (list : CodeUnits) (p : Plasmoid) : Prop where
  active : p.store.active = true
  ready : p.store.ready = true
  localJson : p.store.localJson = list
  writes : ∀ write ∈ p.inFlight, write.json = list
  file : p.file.json = list ∨ p.Prevails collate

/-- A running widget with nothing on its way that is about to take a different shared list. -/
structure Yields (p : Plasmoid) : Prop where
  active : p.store.active = true
  ready : p.store.ready = true
  pending : p.store.pendingRevision = 0
  inFlight : p.inFlight = []
  revision : p.file.revision ≠ 0
  json : p.file.json ≠ p.store.localJson
  wipe : p.store.syncedRevision = p.file.revision →
    p.store.wouldWipeSharedList (p.setting collate) p.file = true

variable {collate} {p : Plasmoid} {list : CodeUnits}

theorem HoldsList.step (h : HoldsList collate list p) (a : PlasmoidAction) :
    HoldsList collate list (p.step collate a) := by
  obtain ⟨hactive, hready, hlocal, hwrites, hfile⟩ := h
  cases a with
  | sync now =>
    have hkeeps : (p.decision collate now).adopts = false ∧
        (p.file.json = list ∨ (p.sync collate now).Prevails collate) := by
      by_cases hjson : p.file.json = list
      · exact ⟨Plasmoid.adopts_of_json_eq (hjson.trans hlocal.symm), Or.inl hjson⟩
      · have hne : p.file.json ≠ p.store.localJson := by rwa [hlocal]
        obtain ⟨hkeeps, hprevails⟩ := Plasmoid.Prevails.sync (hfile.resolve_left hjson) hne
        exact ⟨hkeeps, Or.inr hprevails⟩
    refine ⟨by simp [Plasmoid.step, Plasmoid.sync, hactive], by simp [Plasmoid.step, Plasmoid.sync, hready],
      ?_, ?_, hkeeps.2⟩
    · simp only [Plasmoid.step, Plasmoid.sync_localJson, hkeeps.1, Bool.false_eq_true, if_false, hlocal]
    · intro write hwrite
      rcases Plasmoid.mem_sync_inFlight collate hwrite with hold | rfl
      · exact hwrites write hold
      · exact hlocal
  | land i =>
    rcases p.land_cases i with he | ⟨write, hwrite, he⟩ <;> simp only [Plasmoid.step, he]
    · exact ⟨hactive, hready, hlocal, hwrites, hfile⟩
    · exact ⟨hactive, hready, hlocal, fun w hw => hwrites w (List.mem_of_mem_eraseIdx hw),
        Or.inl (hwrites write hwrite)⟩
  | lose i =>
    exact ⟨hactive, hready, hlocal, fun w hw => hwrites w (List.mem_of_mem_eraseIdx hw), hfile⟩

theorem HoldsList.run (h : HoldsList collate list p) (as : List PlasmoidAction) :
    HoldsList collate list ((Plasmoid.machine collate).run p as) :=
  Machine.run_keeps (HoldsList collate list) (fun _ a hq => hq.step a) h as

/-- Nothing is left to do after a sync that finds the widget's own list in the file. -/
theorem atRest_sync (hactive : p.store.active = true) (hready : p.store.ready = true)
    (hjson : p.file.json = p.store.localJson) (hpending : p.store.pendingRevision ≤ p.file.revision)
    (hflight : p.inFlight = []) : AtRest (p.sync collate 0) := by
  by_cases hzero : p.store.pendingRevision = 0
  · have hd : p.store.decision (p.setting collate) 0 p.file = .agreed := by
      simp [Store.decision, hactive, hready, hzero, hjson]
    simp only [Plasmoid.sync, Plasmoid.decision, Store.sync, hd, hflight]
    exact ⟨⟨hzero, rfl, hjson.symm, hjson.symm⟩, rfl⟩
  · have hd : p.store.decision (p.setting collate) 0 p.file = .confirmed := by
      simp [Store.decision, hactive, hready, hzero, hpending, hjson]
    simp only [Plasmoid.sync, Plasmoid.decision, Store.sync, hd, hflight]
    exact ⟨⟨rfl, rfl, hjson.symm, hjson.symm⟩, rfl⟩

theorem sync_publish (hactive : p.store.active = true) (hready : p.store.ready = true)
    (hpending : p.store.pendingRevision = 0) (hjson : p.file.json ≠ p.store.localJson)
    (h : p.Prevails collate) : p.sync collate 0 =
      { p with
        store := { p.store with pendingRevision := p.file.revision + 1, pendingSince := 0 }
        inFlight := p.inFlight ++ [⟨p.file.revision + 1, p.store.localJson⟩] } := by
  have hd : p.store.decision (p.setting collate) 0 p.file = .publish (p.file.revision + 1) := by
    by_cases hzero : p.file.revision = 0
    · simp [Store.decision, hactive, hready, hpending, hjson, hzero]
    · obtain ⟨hsynced, hwipe⟩ := h.2.resolve_left hzero
      simp [Store.decision, hactive, hready, hpending, hjson, hzero, hsynced, hwipe]
  simp [Plasmoid.sync, Plasmoid.decision, Store.sync, Store.publish, hd, Decision.adopts]

/-- A widget that holds its list comes to rest: it publishes, the write lands, and it is seen. -/
theorem HoldsList.exists_rest (h : HoldsList collate list p) (hpending : p.store.pendingRevision = 0)
    (hflight : p.inFlight = []) : ∃ as, AtRest ((Plasmoid.machine collate).run p as) := by
  obtain ⟨hactive, hready, hlocal, -, hfile⟩ := h
  by_cases hjson : p.file.json = p.store.localJson
  · exact ⟨[.sync 0], atRest_sync hactive hready hjson (by omega) hflight⟩
  · have hprevails := hfile.resolve_left (hlocal ▸ hjson)
    refine ⟨[.sync 0, .land 0, .sync 0], ?_⟩
    simp only [Machine.run_cons, Machine.run_nil, Plasmoid.machine_step, Plasmoid.step,
      sync_publish hactive hready hpending hjson hprevails, hflight]
    exact atRest_sync hactive hready rfl (Nat.le_refl _) rfl

/-- A widget that yields holds the shared list from its next sync on. -/
theorem Yields.sync (h : Yields collate p) (now : ℕ) :
    HoldsList collate ((p.setting collate).adopted p.file.json) (p.sync collate now) ∧
      (p.sync collate now).store.pendingRevision = 0 ∧ (p.sync collate now).inFlight = [] := by
  obtain ⟨hactive, hready, hpending, hflight, hrevision, hjson, hwipe⟩ := h
  have hd : p.store.decision (p.setting collate) now p.file = .adopt := by
    by_cases hsynced : p.store.syncedRevision = p.file.revision
    · simp [Store.decision, hactive, hready, hpending, hjson, hrevision, hwipe hsynced]
    · simp [Store.decision, hactive, hready, hpending, hjson, hrevision, hsynced]
  simp only [Plasmoid.sync, Plasmoid.decision, Store.sync, hd, hflight]
  refine ⟨⟨hactive, hready, rfl, by simp, Or.inr ⟨Or.inl hpending, Or.inr ⟨rfl, ?_⟩⟩⟩, hpending, rfl⟩
  by_contra hnot
  rw [Bool.not_eq_false, Store.wouldWipeSharedList_eq_true] at hnot
  obtain ⟨hempty, hne, hbase⟩ := hnot
  exact hne (hbase.symm.trans hempty)

theorem Yields.run (h : Yields collate p) (as : List PlasmoidAction) :
    (Plasmoid.machine collate).run p as = p ∨
      HoldsList collate ((p.setting collate).adopted p.file.json) ((Plasmoid.machine collate).run p as) := by
  apply Machine.run_keeps (fun q => q = p ∨ HoldsList collate ((p.setting collate).adopted p.file.json) q) ?_
    (Or.inl rfl)
  rintro q a (rfl | hq)
  · cases a with
    | sync now => exact Or.inr (h.sync now).1
    | land i => simp [Plasmoid.step, Plasmoid.land, h.inFlight]
    | lose i =>
      refine Or.inl ?_
      have hnone := h.inFlight
      cases q
      simp_all [Plasmoid.step]
  · exact Or.inr (hq.step a)

/-- Where a widget that yields comes to rest, and that it does. -/
theorem Yields.rest (h : Yields collate p) :
    (∀ as, AtRest ((Plasmoid.machine collate).run p as) →
      ((Plasmoid.machine collate).run p as).store.localJson = (p.setting collate).adopted p.file.json) ∧
    ∃ as, AtRest ((Plasmoid.machine collate).run p as) := by
  constructor
  · intro as hrest
    rcases h.run as with he | hholds
    · rw [he] at hrest
      exact absurd hrest.settled.json.symm h.json
    · exact hholds.localJson
  · obtain ⟨hholds, hpending, hflight⟩ := h.sync 0
    obtain ⟨as, hrest⟩ := hholds.exists_rest hpending hflight
    exact ⟨.sync 0 :: as, hrest⟩

theorem HoldsList.rest (h : HoldsList collate list p) (hpending : p.store.pendingRevision = 0)
    (hflight : p.inFlight = []) :
    (∀ as, AtRest ((Plasmoid.machine collate).run p as) →
      ((Plasmoid.machine collate).run p as).store.localJson = list) ∧
    ∃ as, AtRest ((Plasmoid.machine collate).run p as) :=
  ⟨fun as _ => (h.run as).localJson, h.exists_rest hpending hflight⟩

end Rest

section Kept

variable {collate} {p : Plasmoid} {page : Page}

/-- While the page is open the widget's own syncs change nothing. -/
theorem StartsInStep.sync (h : StartsInStep collate p) (now : ℕ) : p.sync collate now = p := by
  cases hactive : p.store.active with
  | true =>
    have hnothing := (h.sharing hactive).sync (p.setting collate) now hactive h.ready
    have hjson := (h.sharing hactive).json.symm
    simp [Plasmoid.sync, hnothing, Plasmoid.adopts_of_json_eq hjson]
  | false =>
    have hd : p.store.decision (p.setting collate) now p.file = .inactive := by
      simp [Store.decision, hactive]
    simp [Plasmoid.sync, Plasmoid.decision, Store.sync, hd, Decision.adopts]

end Kept

section Rejoining

end Rejoining
end NetworkHealth.Widget
