import NetworkHealth.Library.Machine
import NetworkHealth.Widget.Destinations
import NetworkHealth.Widget.SharedStore

/-! The Destinations page of the settings dialog: its rows, the list it will hand over, and the
choice it offers when sharing is switched on. It only reads the shared file; the file does not
change while the page is open. -/
namespace NetworkHealth.Widget

/-- One row of the page. Its two number fields hold finite numbers only. -/
structure PageRow where
  destinationId : CodeUnits
  name : CodeUnits
  address : CodeUnits
  thresholdUs : Binary64
  sensitivity : Binary64
  destinationEnabled : Bool
  partTime : Bool

inductive RowEdit
  | name (text : CodeUnits)
  | address (text : CodeUnits)
  | thresholdUs (value : Binary64)
  | sensitivity (value : Binary64)
  | enabled (checked : Bool)
  | partTime (checked : Bool)

def PageRow.edit : RowEdit → PageRow → PageRow
  | .name text, row => { row with name := text }
  | .address text, row => { row with address := text }
  | .thresholdUs value, row => { row with thresholdUs := value }
  | .sensitivity value, row => { row with sensitivity := value }
  | .enabled checked, row => { row with destinationEnabled := checked }
  | .partTime checked, row => { row with partTime := checked }

/-- The list entry of the row at an index, as `currentList` pushes it. -/
def PageRow.toEntry (i : ℕ) (row : PageRow) : Value :=
  .object [(units "id", .string row.destinationId), (units "name", .string row.name),
    (units "address", .string (trim row.address)),
    (units "order", .number (Binary64.nearest ((i + 1 : ℕ) : ℚ))),
    (units "thresholdUs", .number (.finite row.thresholdUs)),
    (units "sensitivity", .number (.finite row.sensitivity)),
    (units "enabled", .bool row.destinationEnabled), (units "partTime", .bool row.partTime)]

def currentList (rows : List PageRow) : List Value := rows.mapIdx PageRow.toEntry

def asString : Option Value → Option CodeUnits
  | some (.string text) => some text
  | _ => none

def asFinite : Option Value → Option Binary64
  | some (.number (.finite x)) => some x
  | _ => none

/-- The row that `replaceList` appends for an entry; none where the entry has not the texts and
numbers of a row. -/
def PageRow.ofEntry (entry : Value) : Option PageRow := do
  let id ← asString (entry.field (units "id"))
  let name ← asString (entry.field (units "name"))
  let address ← asString (entry.field (units "address"))
  let thresholdUs ← asFinite (entry.field (units "thresholdUs"))
  let sensitivity ← asFinite (entry.field (units "sensitivity"))
  some ⟨id, name, address, thresholdUs, sensitivity, !isBool false (entry.field (units "enabled")),
    isBool true (entry.field (units "partTime"))⟩

/-- `cfg_defaultThresholdUs` and `cfg_defaultSensitivity`. -/
structure Defaults where
  thresholdUs : Binary64
  sensitivity : Binary64

section Load

/-- A property of any value; reading one of null throws. -/
def property (key : CodeUnits) : Value → Option (Option Value)
  | .null => none
  | value => some (value.field key)

/-- `String(value)` and `Number(value)` of a property that may be missing. -/
def stringOf (value : Option Value) : Option CodeUnits :=
  value.elim (some (units "undefined")) JsonValue.toText

def numberOf (value : Option Value) : Option (Number Binary64) :=
  value.elim (some .nan) JsonValue.toNumber

/-- What the page sorts an entry by. -/
def loadKey (entry : Value) : Option (Number Binary64 × CodeUnits) := do
  let order ← (property (units "order") entry).bind numberOf
  let name ← (property (units "name") entry).bind stringOf
  some (order, name)

def keyNotAfter (collate : CodeUnits → CodeUnits → Ordering)
    (a b : (Number Binary64 × CodeUnits) × Value) : Prop :=
  (a.1.1.compareByDifference b.1.1).then (collate a.1.2 b.1.2) ≠ .gt

instance (collate : CodeUnits → CodeUnits → Ordering) : DecidableRel (keyNotAfter collate) :=
  fun a b => inferInstanceAs (Decidable
    ((a.1.1.compareByDifference b.1.1).then (collate a.1.2 b.1.2) ≠ .gt))

/-- The order in which the page shows a list. A single entry is compared with nothing. -/
def sortEntries (collate : CodeUnits → CodeUnits → Ordering) : List Value → Option (List Value)
  | [] => some []
  | [entry] => some [entry]
  | entries => (entries.mapM fun entry => (loadKey entry).map fun key => (key, entry)).map fun keyed =>
      (keyed.insertionSort (keyNotAfter collate)).map Prod.snd

/-- The row that `load` appends; none where it throws, or where a number is not finite. -/
def loadRow (defaults : Defaults) (newId : CodeUnits) (entry : Value) : Option PageRow := do
  let id ← property (units "id") entry
  let id ← id.elim (some newId) JsonValue.toText
  let name ← (entry.field (units "name")).elim (some []) JsonValue.toText
  let address ← (entry.field (units "address")).elim (some []) JsonValue.toText
  let thresholdUs ← (entry.field (units "thresholdUs")).elim (some (.finite defaults.thresholdUs))
    JsonValue.toNumber
  let sensitivity ← (entry.field (units "sensitivity")).elim (some (.finite defaults.sensitivity))
    JsonValue.toNumber
  let thresholdUs ← asFinite (some (.number thresholdUs))
  let sensitivity ← asFinite (some (.number sensitivity))
  some ⟨id, name, address, thresholdUs, sensitivity, !isBool false (entry.field (units "enabled")),
    isBool true (entry.field (units "partTime"))⟩

def maximumDestinations : ℕ := 128

/-- `load`, with the ids that `newId` would give. -/
def load (collate : CodeUnits → CodeUnits → Ordering) (defaults : Defaults) (newId : ℕ → CodeUnits)
    (destinations : CodeUnits) : Option (List PageRow) :=
  (sortEntries collate (destinationList destinations)).bind fun sorted =>
    (sorted.take maximumDestinations).zipIdx.mapM fun p => loadRow defaults (newId p.2) p.1

end Load

/-- Rejoining with a list that differs from the shared one. -/
inductive JoinChoice
  | none
  | shared
  | mine
  deriving DecidableEq, Repr

structure Page where
  rows : List PageRow
  cfgDestinations : CodeUnits
  /-- `cfg_sharedDestinations`, the sharing box. -/
  sharedBox : Bool
  lastSerialised : CodeUnits
  undoJson : CodeUnits
  sharingApplied : Bool
  joinChoice : JoinChoice
  ownListJson : CodeUnits

inductive PageAction
  | edit (i : ℕ) (change : RowEdit)
  | add (id name : CodeUnits)
  | move (source target : ℕ)
  | remove (i : ℕ)
  | toggle
  | keepOwnList
  | useSharedList
  /-- A file with these destinations is imported. -/
  | importList (destinations : List PageRow)
  | undo

namespace Page

def listText (rows : List PageRow) : CodeUnits := (JsonValue.array (currentList rows)).stringify

/-- `save`. The change of `cfg_destinations` does not come back, being `lastSerialised`. -/
def save (page : Page) : Page :=
  { page with
    lastSerialised := listText page.rows
    cfgDestinations := listText page.rows }

/-- `replaceList`. A list with an entry that is no row is not shown, and leaves the page alone. -/
def replaceList (list : List Value) (page : Page) : Page :=
  match list.mapM PageRow.ofEntry with
  | some rows => save { page with rows := rows }
  | none => page

variable (collate : CodeUnits → CodeUnits → Ordering) (shared : Shared CodeUnits)

/-- `sharingToggled(checked)`. -/
def sharingToggled (checked : Bool) (page : Page) : Page :=
  if !checked then
    let page := if page.joinChoice = .shared then page.replaceList (destinationList page.ownListJson) else page
    { page with joinChoice := .none, ownListJson := [] }
  else if page.sharingApplied then page
  else
    let own := currentList page.rows
    if shared.revision = 0 ∨ canonicalDestinations collate own = some shared.json then page
    else
      let page := { page with ownListJson := (JsonValue.array own).stringify }
      let page := page.replaceList (destinationList shared.json)
      { page with joinChoice := if own.length > 0 then .shared else .none }

def keepOwnList (page : Page) : Page :=
  { page.replaceList (destinationList page.ownListJson) with joinChoice := .mine }

def useSharedList (page : Page) : Page :=
  { page.replaceList (destinationList shared.json) with joinChoice := .shared }

/-- One action of the user. Buttons that the page does not offer at the moment do nothing. -/
def step (defaults : Defaults) (page : Page) : PageAction → Page
  | .edit i change => save { page with rows := page.rows.modify i (PageRow.edit change) }
  | .add id name =>
    if maximumDestinations ≤ page.rows.length then page
    else save { page with
      rows := page.rows ++ [⟨id, name, [], defaults.thresholdUs, defaults.sensitivity, true, false⟩] }
  | .move source target =>
    match page.rows[source]? with
    | some row =>
      if target < page.rows.length then
        save { page with rows := (page.rows.eraseIdx source).insertIdx target row }
      else page
    | none => page
  | .remove i => save { page with rows := page.rows.eraseIdx i }
  | .toggle => { page with sharedBox := !page.sharedBox }.sharingToggled collate shared (!page.sharedBox)
  | .keepOwnList => if page.sharedBox ∧ page.joinChoice = .shared then page.keepOwnList else page
  | .useSharedList => if page.sharedBox ∧ page.joinChoice = .mine then page.useSharedList shared else page
  | .importList destinations =>
    if destinations = [] ∨ maximumDestinations < destinations.length then page
    else save { page with undoJson := listText page.rows, rows := destinations }
  | .undo =>
    if page.undoJson = [] then page
    else { page.replaceList (destinationList page.undoJson) with undoJson := [] }

/-- The page while it is open. -/
def machine (defaults : Defaults) : Machine Page PageAction := ⟨step collate shared defaults⟩

/-- The page as it opens on a configuration; none where its list cannot be shown. -/
def opened (defaults : Defaults) (newId : ℕ → CodeUnits) (destinations : CodeUnits) (sharing : Bool) :
    Option Page :=
  (load collate defaults newId destinations).map fun rows =>
    { rows := rows, cfgDestinations := destinations, sharedBox := sharing, lastSerialised := [],
      undoJson := [], sharingApplied := sharing, joinChoice := .none, ownListJson := [] }

end Page

section Texts

/-- As many rows as JavaScript counts exactly. -/
def rowLimit : ℕ := 2 ^ 53

theorem plain_toEntry {i : ℕ} (h : i < rowLimit) (row : PageRow) : (row.toEntry i).plain = row.toEntry i := by
  have hcount := Binary64.nearest_natCast (n := i + 1) h
  simp only [PageRow.toEntry, hcount, JsonValue.plain, JsonValue.plainMembers]

theorem mem_currentList {rows : List PageRow} {entry : Value} (h : entry ∈ currentList rows) :
    ∃ (i : ℕ) (row : PageRow), i < rows.length ∧ entry = row.toEntry i := by
  obtain ⟨i, hi, rfl⟩ := List.mem_mapIdx.mp h
  exact ⟨i, rows[i], hi, rfl⟩

/-- What the page saves is read back as the list it shows. -/
theorem destinationList_listText {rows : List PageRow} (h : rows.length ≤ rowLimit) :
    destinationList (Page.listText rows) = currentList rows := by
  rw [Page.listText, destinationList_stringify]
  conv_rhs => rw [← List.map_id (currentList rows)]
  apply List.map_congr_left
  intro entry hentry
  obtain ⟨i, row, hi, rfl⟩ := mem_currentList hentry
  exact plain_toEntry (hi.trans_le h) row

def PageRow.trimmed (row : PageRow) : PageRow := { row with address := trim row.address }

theorem ofEntry_toEntry (i : ℕ) (row : PageRow) : PageRow.ofEntry (row.toEntry i) = some row.trimmed := by
  cases row with
  | mk id name address thresholdUs sensitivity enabled partTime => cases enabled <;> cases partTime <;> rfl

/-- The rows come back from the list, with their addresses trimmed. -/
theorem mapM_currentList (rows : List PageRow) :
    (currentList rows).mapM PageRow.ofEntry = some (rows.map PageRow.trimmed) :=
  mapM_mapIdx ofEntry_toEntry rows

theorem exists_canonical_currentList (collate : CodeUnits → CodeUnits → Ordering) (rows : List PageRow) :
    ∃ text, canonicalDestinations collate (currentList rows) = some text := by
  obtain ⟨normalised, hnormalised⟩ : ∃ normalised, (currentList rows).zipIdx.mapM
      (fun p => Normalised.normalise p.1 p.2) = some normalised := by
    apply exists_mapM_eq_some
    intro p hp
    obtain ⟨i, row, -, hentry⟩ := mem_currentList (List.fst_mem_of_mem_zipIdx hp)
    rw [hentry]
    exact ⟨_, rfl⟩
  exact ⟨_, by rw [canonicalDestinations, hnormalised, Option.map_some]⟩

end Texts
end NetworkHealth.Widget
