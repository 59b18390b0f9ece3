import NetworkHealth.Library.Traverse
import NetworkHealth.Widget.Applied

/-! Unticking the sharing box before Apply. Handlers run to their end or throw on the way, which
leaves the page as they had made it by then. -/
namespace NetworkHealth.Widget

/-- What the roles of the list model read in a row that was given no value of their type: undefined,
or some text and number. -/
structure Blank where
  text : Option CodeUnits
  number : Option Binary64

/-- A row as the list model gives it back. -/
structure ListRow where
  destinationId : Option CodeUnits
  name : Option CodeUnits
  address : Option CodeUnits
  thresholdUs : Option (Number Binary64)
  sensitivity : Option (Number Binary64)
  destinationEnabled : Bool
  partTime : Bool

/-- A row as `load`, `addDestination` and the fields of the page make it. -/
structure OwnRow where
  destinationId : CodeUnits
  name : CodeUnits
  address : CodeUnits
  thresholdUs : Number Binary64
  sensitivity : Number Binary64
  destinationEnabled : Bool
  partTime : Bool

/-- What `currentList` pushes for a row. -/
structure ListEntry where
  id : Option CodeUnits
  name : Option CodeUnits
  address : CodeUnits
  order : Number Binary64
  thresholdUs : Option (Number Binary64)
  sensitivity : Option (Number Binary64)
  enabled : Bool
  partTime : Bool

/-- Undefined members are read like members that are missing. -/
def ListEntry.toValue (e : ListEntry) : Value :=
  let member (key : CodeUnits) (value : Option Value) := (value.map fun v => (key, v)).toList
  .object (member (units "id") (e.id.map .string) ++ member (units "name") (e.name.map .string) ++
    [(units "address", .string e.address), (units "order", .number e.order)] ++
    member (units "thresholdUs") (e.thresholdUs.map .number) ++
    member (units "sensitivity") (e.sensitivity.map .number) ++
    [(units "enabled", .bool e.enabled), (units "partTime", .bool e.partTime)])

/-- The entry of the row at an index. Where the address is undefined, trimming it throws. -/
def ListRow.toEntry (row : ListRow) (i : ℕ) : Option ListEntry :=
  row.address.map fun address => ⟨row.destinationId, row.name, trim address, Binary64.nearest ((i + 1 : ℕ) : ℚ),
    row.thresholdUs, row.sensitivity, row.destinationEnabled, row.partTime⟩

def OwnRow.toListRow (row : OwnRow) : ListRow :=
  ⟨some row.destinationId, some row.name, some row.address, some row.thresholdUs, some row.sensitivity,
    row.destinationEnabled, row.partTime⟩

def OwnRow.toEntry (i : ℕ) (row : OwnRow) : ListEntry :=
  ⟨some row.destinationId, some row.name, trim row.address, Binary64.nearest ((i + 1 : ℕ) : ℚ), some row.thresholdUs,
    some row.sensitivity, row.destinationEnabled, row.partTime⟩

def isNull : Value → Bool
  | .null => true
  | _ => false

section Append
variable (blank : Blank)

def asText : Option Value → Option CodeUnits
  | some (.string text) => some text
  | _ => blank.text

def asNumber : Option Value → Option (Number Binary64)
  | some (.number x) => some x
  | _ => blank.number.map .finite

/-- The row that `replaceList` appends for an entry other than null. -/
def ListRow.ofEntry (entry : Value) : ListRow :=
  ⟨asText blank (entry.field (units "id")), asText blank (entry.field (units "name")),
    asText blank (entry.field (units "address")), asNumber blank (entry.field (units "thresholdUs")),
    asNumber blank (entry.field (units "sensitivity")), !isBool false (entry.field (units "enabled")),
    isBool true (entry.field (units "partTime"))⟩

end Append

/-- What of the page takes part in joining. -/
structure JoinPage where
  rows : List ListRow
  cfgDestinations : CodeUnits
  sharedBox : Bool
  lastSerialised : CodeUnits
  sharingApplied : Bool
  joinChoice : JoinChoice
  ownListJson : CodeUnits

/-- The buttons of the join message. -/
inductive JoinAction
  | keepOwnList
  | useSharedList

namespace JoinPage

def currentList (rows : List ListRow) : Option (List ListEntry) :=
  rows.zipIdx.mapM fun p => p.1.toEntry p.2

def serialised (list : List ListEntry) : CodeUnits := (JsonValue.array (list.map ListEntry.toValue)).stringify

/-- The page after a handler, whether it ran to its end or threw. -/
def settle : Except JoinPage JoinPage → JoinPage
  | .ok page => page
  | .error page => page

def save (page : JoinPage) : Except JoinPage JoinPage :=
  match currentList page.rows with
  | some list => .ok { page with lastSerialised := serialised list, cfgDestinations := serialised list }
  | none => .error page

section Handlers
variable (blank : Blank) (collate : CodeUnits → CodeUnits → Ordering) (shared : Shared CodeUnits)

/-- One turn of the loop of `replaceList`. Reading the id of null throws. -/
def append (page : JoinPage) (entry : Value) : Except JoinPage JoinPage :=
  if isNull entry then .error page else .ok { page with rows := page.rows ++ [ListRow.ofEntry blank entry] }

def replaceList (list : List Value) (page : JoinPage) : Except JoinPage JoinPage := do
  let page ← list.foldlM (append blank) { page with rows := [] }
  page.save

def sharingToggled (checked : Bool) (page : JoinPage) : Except JoinPage JoinPage :=
  if !checked then do
    let page ← if page.joinChoice = .shared then page.replaceList blank (destinationList page.ownListJson)
      else .ok page
    .ok { page with joinChoice := .none, ownListJson := [] }
  else if page.sharingApplied then .ok page
  else
    match currentList page.rows with
    | none => .error page
    | some own =>
      if shared.revision = 0 then .ok page
      else match canonicalDestinations collate (own.map ListEntry.toValue) with
        | none => .error page
        | some text =>
          if shared.json = text then .ok page
          else do
            let page ← { page with ownListJson := serialised own }.replaceList blank (destinationList shared.json)
            .ok { page with joinChoice := if own.length > 0 then .shared else .none }

def keepOwnList (page : JoinPage) : Except JoinPage JoinPage := do
  let page ← page.replaceList blank (destinationList page.ownListJson)
  .ok { page with joinChoice := .mine }

def useSharedList (page : JoinPage) : Except JoinPage JoinPage := do
  let page ← page.replaceList blank (destinationList shared.json)
  .ok { page with joinChoice := .shared }

/-- The sharing box is clicked. -/
def toggle (page : JoinPage) : JoinPage :=
  settle ({ page with sharedBox := !page.sharedBox }.sharingToggled blank collate shared (!page.sharedBox))

/-- A button is clicked, if the page offers it. -/
def click (page : JoinPage) : JoinAction → JoinPage
  | .keepOwnList =>
    if page.sharedBox ∧ page.joinChoice = .shared then settle (page.keepOwnList blank) else page
  | .useSharedList =>
    if page.sharedBox ∧ page.joinChoice = .mine then settle (page.useSharedList blank shared) else page

def clicks : Machine JoinPage JoinAction := ⟨click blank shared⟩

end Handlers

/-- A page that was opened with sharing off and shows some rows. -/
def apart (rows : List OwnRow) (cfgDestinations lastSerialised : CodeUnits) : JoinPage :=
  ⟨rows.map OwnRow.toListRow, cfgDestinations, false, lastSerialised, false, .none, []⟩

/-- `replaceList` shows the list to its end. -/
def Presentable (blank : Blank) (list : List Value) : Prop :=
  ∀ entry ∈ list, isNull entry = false ∧ (asText blank (entry.field (units "address"))).isSome

instance (blank : Blank) (list : List Value) : Decidable (Presentable blank list) :=
  inferInstanceAs (Decidable (∀ entry ∈ list, _))

section Rows
variable (blank : Blank)

/-- The rows that `replaceList` has appended when it is through with the list or throws. -/
def shownRows (list : List Value) : List ListRow :=
  (list.takeWhile fun entry => !isNull entry).map (ListRow.ofEntry blank)

variable {blank} {list : List Value}

theorem Presentable.shownRows_eq (h : Presentable blank list) : shownRows blank list = list.map (ListRow.ofEntry blank) := by
  have hall : ∀ entry ∈ list, (!isNull entry) = true := fun entry hentry => by rw [(h entry hentry).1]; rfl
  rw [shownRows, List.takeWhile_eq_self_iff.mpr hall]

theorem foldl_append (list : List Value) (page : JoinPage) :
    list.foldl (fun page entry => { page with rows := page.rows ++ [ListRow.ofEntry blank entry] }) page =
      { page with rows := page.rows ++ list.map (ListRow.ofEntry blank) } := by
  induction list generalizing page with
  | nil => simp
  | cons entry rest ih => simp [ih]

/-- The loop of `replaceList`. -/
theorem foldlM_append (list : List Value) (page : JoinPage) :
    list.foldlM (append blank) { page with rows := [] } =
      if list.any isNull = true then .error { page with rows := shownRows blank list }
      else .ok { page with rows := shownRows blank list } := by
  have hloop := foldlM_throwing isNull
    (fun page entry => ({ page with rows := page.rows ++ [ListRow.ofEntry blank entry] } : JoinPage)) list
    { page with rows := [] }
  rw [foldl_append] at hloop
  exact hloop

theorem isSome_currentList (rows : List ListRow) :
    (currentList rows).isSome ↔ ∀ row ∈ rows, row.address.isSome :=
  isSome_mapM_zipIdx (fun row i => by simp [ListRow.toEntry]) rows 0

theorem isSome_currentList_ofEntry (blank : Blank) (list : List Value) :
    (currentList (list.map (ListRow.ofEntry blank))).isSome ↔
      ∀ entry ∈ list, (asText blank (entry.field (units "address"))).isSome := by
  rw [isSome_currentList, List.forall_mem_map]
  rfl

theorem replaceList_eq_save (blank : Blank) (h : Presentable blank list) (page : JoinPage) :
    page.replaceList blank list = save { page with rows := list.map (ListRow.ofEntry blank) } := by
  have hall : ¬ list.any isNull = true := by
    rw [List.any_eq_true]
    rintro ⟨entry, hentry, hnull⟩
    rw [(h entry hentry).1] at hnull
    exact Bool.false_ne_true hnull
  rw [replaceList, foldlM_append, if_neg hall, h.shownRows_eq]
  rfl

theorem replaceList_of_presentable (blank : Blank) (h : Presentable blank list) (page : JoinPage) :
    ∃ text, page.replaceList blank list = .ok { page with
      rows := list.map (ListRow.ofEntry blank), lastSerialised := text, cfgDestinations := text } := by
  obtain ⟨shown, hshown⟩ := Option.isSome_iff_exists.mp ((isSome_currentList_ofEntry blank list).mpr fun entry hentry =>
    (h entry hentry).2)
  refine ⟨serialised shown, ?_⟩
  simp only [replaceList_eq_save blank h, save, hshown]

/-- The page is left with the rows made so far, and not saved. -/
theorem replaceList_of_not_presentable (h : ¬ Presentable blank list) (page : JoinPage) :
    page.replaceList blank list = .error { page with rows := shownRows blank list } := by
  rw [replaceList, foldlM_append]
  split_ifs with hnull
  · rfl
  · have hall : ∀ entry ∈ list, (!isNull entry) = true := by simpa using hnull
    have hnone : currentList (shownRows blank list) = none := by
      rw [shownRows, List.takeWhile_eq_self_iff.mpr hall, ← Option.not_isSome_iff_eq_none]
      intro hshown
      have haddress := (isSome_currentList_ofEntry blank list).mp hshown
      exact h fun entry hentry => ⟨by simpa using hall entry hentry, haddress entry hentry⟩
    simp only [bind, Except.bind, save, hnone]

end Rows

section Own
variable (blank : Blank)

/-- A number that went through a text. -/
def respelled (x : Number Binary64) : Option (Number Binary64) := asNumber blank (some (JsonValue.number x).plain)

/-- A row that went through the text of its list. -/
def respelledRow (row : OwnRow) : ListRow :=
  ⟨some row.destinationId, some row.name, some (trim row.address), respelled blank row.thresholdUs,
    respelled blank row.sensitivity, row.destinationEnabled, row.partTime⟩

/-- A text can spell the number. -/
def Spelled (x : Number Binary64) : Prop := ∃ y, x = .finite y

variable {blank}

theorem respelled_eq_some_iff (x : Number Binary64) : respelled blank x = some x ↔ Spelled x := by
  cases x with
  | finite y => exact iff_of_true rfl ⟨y, rfl⟩
  | _ => cases hblank : blank.number <;> simp [respelled, JsonValue.plain, asNumber, Spelled, hblank]

theorem currentList_map {h : OwnRow → ListRow} {g : ℕ → OwnRow → ListEntry}
    (hentry : ∀ row i, (h row).toEntry i = some (g i row)) (own : List OwnRow) :
    currentList (own.map h) = some (own.mapIdx g) := by
  rw [currentList, mapM_zipIdx_map hentry]
  simp only [Nat.zero_add]

theorem currentList_own (own : List OwnRow) :
    currentList (own.map OwnRow.toListRow) = some (own.mapIdx OwnRow.toEntry) :=
  currentList_map (fun _ _ => rfl) own

/-- A list that went through its text is the list it was, if its numbers can be spelled. -/
theorem currentList_respelled_iff (own : List OwnRow) :
    currentList (own.map (respelledRow blank)) = currentList (own.map OwnRow.toListRow) ↔
      ∀ row ∈ own, Spelled row.thresholdUs ∧ Spelled row.sensitivity := by
  have hentry : ∀ (row : OwnRow) i, (respelledRow blank row).toEntry i = some
      { row.toEntry i with
        thresholdUs := respelled blank row.thresholdUs, sensitivity := respelled blank row.sensitivity } := by
    intro row i
    simp only [respelledRow, ListRow.toEntry, Option.map_some, trim_trim, OwnRow.toEntry]
  rw [currentList_map hentry, currentList_own, Option.some.injEq, List.mapIdx_eq_mapIdx_iff,
    List.forall_mem_iff_getElem]
  refine forall₂_congr fun i hi => ?_
  simp only [OwnRow.toEntry, ListEntry.mk.injEq, true_and, and_true, respelled_eq_some_iff]

theorem ofEntry_toValue (i : ℕ) (row : OwnRow) :
    ListRow.ofEntry blank (row.toEntry i).toValue.plain = respelledRow blank row := by
  cases row with
  | mk id name address thresholdUs sensitivity enabled partTime => cases enabled <;> cases partTime <;> rfl

theorem destinationList_serialised (list : List ListEntry) :
    destinationList (serialised list) = list.map fun e => e.toValue.plain := by
  rw [serialised, destinationList_stringify, List.map_map]
  rfl

theorem map_ofEntry_own (own : List OwnRow) :
    (destinationList (serialised (own.mapIdx OwnRow.toEntry))).map (ListRow.ofEntry blank) =
      own.map (respelledRow blank) := by
  rw [destinationList_serialised, List.map_map]
  apply List.ext_getElem <;> simp [ofEntry_toValue]

theorem presentable_own (own : List OwnRow) :
    Presentable blank (destinationList (serialised (own.mapIdx OwnRow.toEntry))) := by
  rw [destinationList_serialised]
  intro entry hentry
  simp only [List.mem_map, List.mem_mapIdx] at hentry
  obtain ⟨-, ⟨i, hi, rfl⟩, rfl⟩ := hentry
  exact ⟨rfl, rfl⟩

theorem exists_canonicalDestinations_own (collate : CodeUnits → CodeUnits → Ordering) (own : List OwnRow) :
    ∃ text, canonicalDestinations collate ((own.mapIdx OwnRow.toEntry).map ListEntry.toValue) = some text := by
  obtain ⟨normalised, hnormalised⟩ : ∃ normalised, ((own.mapIdx OwnRow.toEntry).map ListEntry.toValue).zipIdx.mapM
      (fun p => Normalised.normalise p.1 p.2) = some normalised := by
    apply exists_mapM_eq_some
    intro p hp
    have hmem := List.fst_mem_of_mem_zipIdx hp
    simp only [List.mem_map, List.mem_mapIdx] at hmem
    obtain ⟨-, ⟨i, hi, rfl⟩, hentry⟩ := hmem
    rw [← hentry]
    exact ⟨_, rfl⟩
  exact ⟨_, by rw [canonicalDestinations, hnormalised, Option.map_some]⟩

end Own

section Untick
variable (blank : Blank) (collate : CodeUnits → CodeUnits → Ordering) (shared : Shared CodeUnits)

/-- Nothing is shared yet, or it is the own list. -/
def NothingToJoin (own : List OwnRow) : Prop :=
  shared.revision = 0 ∨
    canonicalDestinations collate ((own.mapIdx OwnRow.toEntry).map ListEntry.toValue) = some shared.json

/-- Ticking leaves the own list in place, or keeps a text of it that says everything, or happens to
show the same list. -/
def Restorable (own : List OwnRow) : Prop :=
  NothingToJoin collate shared own ∨
    if own ≠ [] ∧ Presentable blank (destinationList shared.json) then
      ∀ row ∈ own, Spelled row.thresholdUs ∧ Spelled row.sensitivity
    else currentList (shownRows blank (destinationList shared.json)) = currentList (own.map OwnRow.toListRow)

/-- The shared list is on display and the own one kept, or the own list is shown again. -/
structure Joining (own : List OwnRow) (page : JoinPage) : Prop where
  sharedBox : page.sharedBox = true
  ownListJson : page.ownListJson = serialised (own.mapIdx OwnRow.toEntry)
  choice : page.joinChoice = .shared ∨ page.joinChoice = .mine ∧ page.rows = own.map (respelledRow blank)

variable {blank collate shared} {own : List OwnRow} {cfgDestinations lastSerialised : CodeUnits} {page : JoinPage}

/-- Ticking, where the list of the page can be made and spelled. -/
theorem sharingToggled_true {entries : List ListEntry} {text : CodeUnits}
    (hentries : currentList page.rows = some entries)
    (htext : canonicalDestinations collate (entries.map ListEntry.toValue) = some text) :
    page.sharingToggled blank collate shared true =
      if page.sharingApplied = true then .ok page
      else if shared.revision = 0 ∨ text = shared.json then .ok page
      else (do
        let page ← { page with ownListJson := serialised entries }.replaceList blank (destinationList shared.json)
        .ok { page with joinChoice := if entries.length > 0 then .shared else .none }) := by
  simp only [sharingToggled, Bool.not_true, Bool.false_eq_true, if_false, hentries, htext, eq_comm (a := shared.json)]
  by_cases hzero : shared.revision = 0
  · simp only [hzero, if_true, true_or]
  · simp only [hzero, if_false, false_or]

theorem toggle_of_nothingToJoin (h : NothingToJoin collate shared own) :
    toggle blank collate shared (apart own cfgDestinations lastSerialised) =
      { apart own cfgDestinations lastSerialised with sharedBox := true } := by
  obtain ⟨text, htext⟩ := exists_canonicalDestinations_own collate own
  simp only [NothingToJoin, htext, Option.some.injEq] at h
  change settle ({ apart own cfgDestinations lastSerialised with sharedBox := true }.sharingToggled blank collate shared
    true) = _
  rw [sharingToggled_true (currentList_own own) htext, if_pos h, ite_self]
  rfl

theorem toggle_of_not_nothingToJoin (h : ¬ NothingToJoin collate shared own) :
    toggle blank collate shared (apart own cfgDestinations lastSerialised) = settle (do
      let page ← { apart own cfgDestinations lastSerialised with
        sharedBox := true, ownListJson := serialised (own.mapIdx OwnRow.toEntry) }.replaceList blank
          (destinationList shared.json)
      .ok { page with joinChoice := if (own.mapIdx OwnRow.toEntry).length > 0 then .shared else .none }) := by
  obtain ⟨text, htext⟩ := exists_canonicalDestinations_own collate own
  simp only [NothingToJoin, htext, Option.some.injEq] at h
  change settle ({ apart own cfgDestinations lastSerialised with sharedBox := true }.sharingToggled blank collate shared
    true) = _
  rw [sharingToggled_true (currentList_own own) htext, if_neg (by simp [apart]), if_neg h]

theorem Joining.click (h : Joining blank own page) (hshared : Presentable blank (destinationList shared.json))
    (a : JoinAction) : Joining blank own (page.click blank shared a) := by
  obtain ⟨hbox, hown, hchoice⟩ := id h
  cases a with
  | keepOwnList =>
    rw [JoinPage.click]
    split_ifs
    · obtain ⟨text, htext⟩ := replaceList_of_presentable blank (presentable_own own) page
      rw [keepOwnList, hown, htext, map_ofEntry_own]
      exact ⟨hbox, hown, Or.inr ⟨rfl, rfl⟩⟩
    · exact h
  | useSharedList =>
    rw [JoinPage.click]
    split_ifs
    · obtain ⟨text, htext⟩ := replaceList_of_presentable blank hshared page
      rw [useSharedList, htext]
      exact ⟨hbox, hown, Or.inl rfl⟩
    · exact h

theorem Joining.toggle (h : Joining blank own page) :
    (page.toggle blank collate shared).rows = own.map (respelledRow blank) := by
  obtain ⟨hbox, hown, hchoice⟩ := h
  rw [JoinPage.toggle, hbox]
  rcases hchoice with hchoice | ⟨hchoice, hrows⟩
  · obtain ⟨text, htext⟩ := replaceList_of_presentable blank (presentable_own own)
      { page with sharedBox := false }
    simp only [hchoice, hown] at htext
    simp only [sharingToggled, Bool.not_true, Bool.not_false, if_true, hchoice, hown, htext, map_ofEntry_own]
    rfl
  · simp only [sharingToggled, Bool.not_true, Bool.not_false, if_true, hchoice]
    exact hrows

/-- Without a choice no button is offered, and unticking changes no row. -/
theorem toggle_clicks_of_none (hbox : page.sharedBox = true) (hchoice : page.joinChoice = .none)
    (actions : List JoinAction) :
    (((clicks blank shared).run page actions).toggle blank collate shared).rows = page.rows := by
  have hstays : (clicks blank shared).run page actions = page := by
    refine Machine.run_keeps (· = page) ?_ rfl actions
    rintro _ a rfl
    cases a <;> simp [clicks, click, hchoice]
  simp only [hstays, toggle, hbox, sharingToggled, Bool.not_true, Bool.not_false, if_true, hchoice]
  rfl

theorem joining_toggle (h : ¬ NothingToJoin collate shared own) (hne : own ≠ [])
    (hshared : Presentable blank (destinationList shared.json)) :
    Joining blank own (toggle blank collate shared (apart own cfgDestinations lastSerialised)) := by
  obtain ⟨text, htext⟩ := replaceList_of_presentable blank hshared
    { apart own cfgDestinations lastSerialised with
      sharedBox := true, ownListJson := serialised (own.mapIdx OwnRow.toEntry) }
  have hsome : (own.mapIdx OwnRow.toEntry).length > 0 := by
    simpa only [List.length_mapIdx] using List.length_pos_of_ne_nil hne
  rw [toggle_of_not_nothingToJoin h, htext, if_pos hsome]
  exact ⟨rfl, rfl, Or.inl rfl⟩

/-- With no list of its own, or when the shared one cannot be shown to its end, the page is left
with what it made of the shared list and without a choice. -/
theorem toggle_leaves (h : ¬ NothingToJoin collate shared own)
    (hleft : ¬ (own ≠ [] ∧ Presentable blank (destinationList shared.json))) :
    let ticked := toggle blank collate shared (apart own cfgDestinations lastSerialised)
    ticked.sharedBox = true ∧ ticked.joinChoice = .none ∧
      ticked.rows = shownRows blank (destinationList shared.json) := by
  intro ticked
  have hticked : ticked = _ := toggle_of_not_nothingToJoin h
  rw [hticked]
  by_cases hlist : Presentable blank (destinationList shared.json)
  · obtain ⟨text, htext⟩ := replaceList_of_presentable blank hlist
      { apart own cfgDestinations lastSerialised with
        sharedBox := true, ownListJson := serialised (own.mapIdx OwnRow.toEntry) }
    obtain rfl : own = [] := by
      by_contra hne
      exact hleft ⟨hne, hlist⟩
    rw [htext, hlist.shownRows_eq]
    exact ⟨rfl, rfl, rfl⟩
  · rw [replaceList_of_not_presentable hlist]
    exact ⟨rfl, rfl, rfl⟩

/-- Unticking puts the own list back, whichever buttons were clicked, exactly under that condition. -/
theorem untick_restores_iff (blank : Blank) (collate : CodeUnits → CodeUnits → Ordering)
    (shared : Shared CodeUnits) (own : List OwnRow) (cfgDestinations lastSerialised : CodeUnits)
    (actions : List JoinAction) :
    let page := apart own cfgDestinations lastSerialised
    let ticked := page.toggle blank collate shared
    let unticked := ((clicks blank shared).run ticked actions).toggle blank collate shared
    currentList unticked.rows = currentList page.rows ↔ Restorable blank collate shared own := by
  intro page ticked unticked
  by_cases hsame : NothingToJoin collate shared own
  · have hrows : unticked.rows = page.rows := by
      have hticked : ticked = { page with sharedBox := true } := toggle_of_nothingToJoin hsame
      simp only [unticked, hticked]
      exact toggle_clicks_of_none rfl rfl actions
    rw [hrows]
    exact iff_of_true rfl (Or.inl hsame)
  · rw [Restorable, or_iff_right hsame]
    split_ifs with hjoining
    · have hticked : Joining blank own ticked := joining_toggle hsame hjoining.1 hjoining.2
      have hrun : Joining blank own ((clicks blank shared).run ticked actions) :=
        Machine.run_keeps (Joining blank own) (fun _ a h => h.click hjoining.2 a) hticked actions
      have hrows : unticked.rows = own.map (respelledRow blank) := hrun.toggle
      rw [hrows]
      exact currentList_respelled_iff own
    · obtain ⟨hbox, hchoice, hrows⟩ : ticked.sharedBox = true ∧ ticked.joinChoice = .none ∧
          ticked.rows = shownRows blank (destinationList shared.json) := toggle_leaves hsame hjoining
      have hunticked : unticked.rows = ticked.rows := toggle_clicks_of_none hbox hchoice actions
      rw [hunticked, hrows]
      exact Iff.rfl

/-- A widget without a list of its own: its page keeps the shared list when sharing is unticked again. -/
theorem untick_keeps_shared :
    let json := units ("[\x7b\"id\":\"r\",\"name\":\"Router\",\"address\":\"192.0.2.1\",\"order\":1," ++
      "\"thresholdUs\":1000,\"sensitivity\":3,\"enabled\":true\x7d]")
    let page := apart [] (units "[]") []
    let unticked := (page.toggle ⟨none, none⟩ (fun _ _ => .eq) ⟨1, json⟩).toggle ⟨none, none⟩ (fun _ _ => .eq) ⟨1, json⟩
    (currentList page.rows).map List.length = some 0 ∧ (currentList unticked.rows).map List.length = some 1 := by
  decide +kernel

end Untick

end JoinPage

/-! The page as a whole has rows of finite numbers only, and takes no list it cannot show. As far as
that goes, it joins in the same way. -/

def PageRow.toOwnRow (row : PageRow) : OwnRow :=
  ⟨row.destinationId, row.name, row.address, .finite row.thresholdUs, .finite row.sensitivity,
    row.destinationEnabled, row.partTime⟩

def JoinAction.toPageAction : JoinAction → PageAction
  | .keepOwnList => .keepOwnList
  | .useSharedList => .useSharedList

namespace Page
open JoinPage (Presentable currentList_own serialised replaceList_of_presentable)

/-- What of the page takes part in joining. -/
def joining (page : Page) : JoinPage :=
  ⟨page.rows.map fun row => row.toOwnRow.toListRow, page.cfgDestinations, page.sharedBox, page.lastSerialised,
    page.sharingApplied, page.joinChoice, page.ownListJson⟩

section Joining
variable {blank : Blank} {collate : CodeUnits → CodeUnits → Ordering} {shared : Shared CodeUnits}
  {defaults : Defaults} {list : List Value} {rows : List PageRow} {page : Page}

theorem map_toValue_toOwnRow (rows : List PageRow) :
    ((rows.map PageRow.toOwnRow).mapIdx OwnRow.toEntry).map ListEntry.toValue = currentList rows := by
  apply List.ext_getElem
  · simp [currentList]
  · intro i _ _
    simp only [List.getElem_map, List.getElem_mapIdx, currentList]
    rfl

theorem currentList_joining (rows : List PageRow) :
    JoinPage.currentList (rows.map fun row => row.toOwnRow.toListRow) =
      some ((rows.map PageRow.toOwnRow).mapIdx OwnRow.toEntry) := by
  rw [← currentList_own, List.map_map]
  rfl

theorem save_joining (page : Page) : page.joining.save = .ok page.save.joining := by
  simp only [JoinPage.save, joining, currentList_joining, serialised, map_toValue_toOwnRow]
  rfl

theorem asNumber_of_asFinite {value : Option Value} {x : Binary64} (h : asFinite value = some x) :
    asNumber blank value = some (.finite x) := by
  unfold asFinite at h
  split at h
  · obtain rfl := Option.some.inj h
    rfl
  · exact absurd h (by simp)

theorem asText_of_asString {value : Option Value} {text : CodeUnits} (h : asString value = some text) :
    asText blank value = some text := by
  unfold asString at h
  split at h
  · obtain rfl := Option.some.inj h
    rfl
  · exact absurd h (by simp)

theorem ofEntry_eq_toListRow {entry : Value} {row : PageRow} (h : PageRow.ofEntry entry = some row) :
    ListRow.ofEntry blank entry = row.toOwnRow.toListRow := by
  simp only [PageRow.ofEntry, Option.bind_eq_bind, Option.bind_eq_some_iff, Option.some.injEq] at h
  obtain ⟨id, hid, name, hname, address, haddress, threshold, hthreshold, sensitivity, hsensitivity, rfl⟩ := h
  simp only [ListRow.ofEntry, asText_of_asString hid, asText_of_asString hname, asText_of_asString haddress,
    asNumber_of_asFinite hthreshold, asNumber_of_asFinite hsensitivity]
  rfl

theorem isNull_of_ofEntry {entry : Value} {row : PageRow} (h : PageRow.ofEntry entry = some row) :
    isNull entry = false := by
  cases entry with
  | null => cases h
  | _ => rfl

/-- A list of rows is shown to its end. -/
theorem presentable_of_mapM (blank : Blank) (h : list.mapM PageRow.ofEntry = some rows) : Presentable blank list := by
  have hrows := forall₂_of_mapM h
  have hentry : ∀ entry row, PageRow.ofEntry entry = some row →
      (True ↔ isNull entry = false ∧ (asText blank (entry.field (units "address"))).isSome) := by
    intro entry row hrow
    have haddress : (ListRow.ofEntry blank entry).address = some row.address := by
      rw [ofEntry_eq_toListRow hrow]
      rfl
    exact iff_of_true trivial ⟨isNull_of_ofEntry hrow, Option.isSome_iff_exists.mpr ⟨_, haddress⟩⟩
  exact (forall₂_iff_forall hrows hentry).mp (hrows.imp fun _ _ _ => trivial)

theorem replaceList_joining (blank : Blank) (h : list.mapM PageRow.ofEntry = some rows) (page : Page) :
    page.joining.replaceList blank list = .ok (page.replaceList list).joining := by
  have hrows := forall₂_of_mapM h
  have hmap : list.map (ListRow.ofEntry blank) = rows.map fun row => row.toOwnRow.toListRow := by
    rw [← List.forall₂_eq_eq_eq, List.forall₂_map_left_iff, List.forall₂_map_right_iff]
    exact hrows.imp fun entry row hrow => ofEntry_eq_toListRow hrow
  have hlist := presentable_of_mapM blank h
  rw [JoinPage.replaceList_eq_save blank hlist, hmap, replaceList_of_mapM h]
  exact save_joining { page with rows := rows }

theorem Listing.mapM {text : CodeUnits} (h : Listing text) :
    ∃ rows, (destinationList text).mapM PageRow.ofEntry = some rows := by
  obtain ⟨rows, hlength, rfl⟩ := h
  rw [destinationList_listText hlength]
  exact ⟨_, mapM_currentList rows⟩

theorem sharingToggled_joining (blank : Blank) (h : Sound page) (hshared : Showable collate shared.json)
    (checked : Bool) :
    page.joining.sharingToggled blank collate shared checked =
      .ok (page.sharingToggled collate shared checked).joining := by
  cases checked with
  | false =>
    simp only [JoinPage.sharingToggled, Page.sharingToggled, Bool.not_false, if_true]
    by_cases hchoice : page.joinChoice = .shared
    · obtain ⟨rows, hrows⟩ := (h.ownList (by simp [hchoice])).mapM
      rw [if_pos hchoice, if_pos (show page.joining.joinChoice = .shared from hchoice)]
      change (page.joining.replaceList blank (destinationList page.ownListJson) >>= _) = _
      rw [replaceList_joining blank hrows page]
      rfl
    · rw [if_neg hchoice, if_neg (show page.joining.joinChoice ≠ .shared from hchoice)]
      rfl
  | true =>
    obtain ⟨rows, hrows⟩ := hshared.rows
    obtain ⟨text, htext⟩ := exists_canonical_currentList collate page.rows
    have hentries := currentList_joining page.rows
    rw [JoinPage.sharingToggled_true hentries (by rwa [map_toValue_toOwnRow])]
    simp only [Page.sharingToggled, Bool.not_true, Bool.false_eq_true, if_false, htext, Option.some.injEq]
    by_cases happlied : page.sharingApplied = true
    · rw [if_pos happlied, if_pos (show page.joining.sharingApplied = true from happlied)]
    · rw [if_neg happlied, if_neg (show ¬ page.joining.sharingApplied = true from happlied)]
      by_cases hsame : shared.revision = 0 ∨ text = shared.json
      · rw [if_pos hsame, if_pos hsame]
      · have hreplaced := replaceList_joining blank hrows { page with ownListJson := listText page.rows }
        have hown : serialised ((page.rows.map PageRow.toOwnRow).mapIdx OwnRow.toEntry) = listText page.rows := by
          rw [serialised, map_toValue_toOwnRow, listText]
        have hlength : ((page.rows.map PageRow.toOwnRow).mapIdx OwnRow.toEntry).length =
            (currentList page.rows).length := by
          simp [currentList]
        rw [if_neg hsame, if_neg hsame, hown, hlength]
        change (({ page with ownListJson := listText page.rows } : Page).joining.replaceList blank _ >>= _) = _
        rw [hreplaced]
        rfl

theorem toggle_joining (h : Sound page) (hshared : Showable collate shared.json) :
    page.joining.toggle blank collate shared = (page.step collate shared defaults .toggle).joining := by
  have hflipped : Sound { page with sharedBox := !page.sharedBox } := ⟨h.length, h.ownList, h.undo⟩
  have htoggled := sharingToggled_joining blank hflipped hshared (!page.sharedBox)
  exact congrArg JoinPage.settle htoggled

theorem click_joining (h : Sound page) (hshared : Showable collate shared.json) (a : JoinAction) :
    page.joining.click blank shared a = (page.step collate shared defaults a.toPageAction).joining := by
  cases a with
  | keepOwnList =>
    by_cases hoffered : page.sharedBox = true ∧ page.joinChoice = .shared
    · obtain ⟨rows, hrows⟩ := (h.ownList (by simp [hoffered.2])).mapM
      have hreplaced := replaceList_joining blank hrows page
      have hoffered' : page.joining.sharedBox = true ∧ page.joining.joinChoice = .shared := hoffered
      simp only [JoinPage.click, JoinAction.toPageAction, Page.step]
      rw [if_pos hoffered, if_pos hoffered']
      change JoinPage.settle (page.joining.replaceList blank (destinationList page.ownListJson) >>= _) = _
      rw [hreplaced]
      rfl
    · have hoffered' : ¬ (page.joining.sharedBox = true ∧ page.joining.joinChoice = .shared) := hoffered
      simp only [JoinPage.click, JoinAction.toPageAction, Page.step]
      rw [if_neg hoffered, if_neg hoffered']
  | useSharedList =>
    by_cases hoffered : page.sharedBox = true ∧ page.joinChoice = .mine
    · obtain ⟨rows, hrows⟩ := hshared.rows
      have hreplaced := replaceList_joining blank hrows page
      have hoffered' : page.joining.sharedBox = true ∧ page.joining.joinChoice = .mine := hoffered
      simp only [JoinPage.click, JoinAction.toPageAction, Page.step]
      rw [if_pos hoffered, if_pos hoffered']
      change JoinPage.settle (page.joining.replaceList blank (destinationList shared.json) >>= _) = _
      rw [hreplaced]
      rfl
    · have hoffered' : ¬ (page.joining.sharedBox = true ∧ page.joining.joinChoice = .mine) := hoffered
      simp only [JoinPage.click, JoinAction.toPageAction, Page.step]
      rw [if_neg hoffered, if_neg hoffered']

end Joining
end Page
end NetworkHealth.Widget
