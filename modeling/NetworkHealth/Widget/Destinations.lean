import Mathlib.Data.List.Sort
import NetworkHealth.Library.Conversion
import NetworkHealth.Library.Traverse

/-! The list of destinations as text: what `JSON.parse` makes of a configuration and the one
canonical spelling that widgets compare. Names are ordered by the user's locale, which is a
parameter. -/
namespace NetworkHealth.Widget

abbrev Value := JsonValue Binary64

/-- `destinationList` of the widget and `parseDestinations`: every text that is not an array
counts as the empty list. -/
def destinationList (text : CodeUnits) : List Value :=
  match JsonValue.parse text with
  | some (.array items) => items
  | _ => []

/-- `value === b` for a boolean. -/
def isBool (b : Bool) : Option Value → Bool
  | some (.bool value) => value = b
  | _ => false

/-- `String(value === undefined ? default : value)`. -/
def textOr (default : CodeUnits) (value : Option Value) : Option CodeUnits :=
  (value.getD (.string default)).toText

/-- `Number(value === undefined ? default : value)`. -/
def numberOr (default : ℚ) (value : Option Value) : Option (Number Binary64) :=
  (value.getD (.number (Binary64.nearest default))).toNumber

/-- One normalised entry. -/
structure Normalised where
  id : CodeUnits
  name : CodeUnits
  address : CodeUnits
  order : Number Binary64
  thresholdUs : Number Binary64
  sensitivity : Number Binary64
  enabled : Bool
  partTime : Bool

namespace Normalised

/-- The entry at an index. Whatever is not an object has no properties, as `{}` has none. -/
def normalise (entry : Value) (i : ℕ) : Option Normalised := do
  let id ← textOr [] (entry.field (units "id"))
  let name ← textOr [] (entry.field (units "name"))
  let address ← textOr [] (entry.field (units "address"))
  let order ← numberOr (i + 1) (entry.field (units "order"))
  let thresholdUs ← numberOr 1000 (entry.field (units "thresholdUs"))
  let sensitivity ← numberOr 3 (entry.field (units "sensitivity"))
  some ⟨id, name, address, order, thresholdUs, sensitivity,
    !isBool false (entry.field (units "enabled")), isBool true (entry.field (units "partTime"))⟩

/-- `partTime` is only spelled out when set. -/
def toValue (d : Normalised) : Value :=
  .object ([(units "id", .string d.id), (units "name", .string d.name),
    (units "address", .string d.address), (units "order", .number d.order),
    (units "thresholdUs", .number d.thresholdUs), (units "sensitivity", .number d.sensitivity),
    (units "enabled", .bool d.enabled)] ++
    if d.partTime then [(units "partTime", .bool true)] else [])

/-- Not after the other one in `order`, nor in `id` where that says nothing. -/
def notAfter (collate : CodeUnits → CodeUnits → Ordering) (a b : Normalised) : Prop :=
  (a.order.compareByDifference b.order).then (collate a.id b.id) ≠ .gt

instance (collate : CodeUnits → CodeUnits → Ordering) : DecidableRel (notAfter collate) :=
  fun a b => inferInstanceAs (Decidable
    ((a.order.compareByDifference b.order).then (collate a.id b.id) ≠ .gt))

end Normalised

variable (collate : CodeUnits → CodeUnits → Ordering)

/-- `Utils.canonicalDestinations`; none where a conversion throws. -/
def canonicalDestinations (list : List Value) : Option CodeUnits :=
  (list.zipIdx.mapM fun p => Normalised.normalise p.1 p.2).map fun normalised =>
    (JsonValue.array ((normalised.insertionSort (Normalised.notAfter collate)).map
      Normalised.toValue)).stringify

theorem destinationList_emptyJson : destinationList (units "[]") = [] := by decide +kernel

@[simp] theorem destinationList_stringify (items : List Value) :
    destinationList (JsonValue.array items).stringify = items.map JsonValue.plain := by
  simp [destinationList, parse_stringify, JsonValue.plain, JsonValue.plainItems_eq_map]

/-- A canonical spelling has as many entries as the list it spells. -/
theorem length_of_canonicalDestinations {list : List Value} {text : CodeUnits}
    (h : canonicalDestinations collate list = some text) :
    (destinationList text).length = list.length := by
  obtain ⟨normalised, hnormalised, rfl⟩ := Option.map_eq_some_iff.mp h
  have hlength := (forall₂_of_mapM hnormalised).length_eq
  rw [List.length_zipIdx] at hlength
  rw [destinationList_stringify, List.length_map, List.length_map, List.length_insertionSort, hlength]

end NetworkHealth.Widget
