import Mathlib.Data.Rat.Floor
import Mathlib.Tactic.Linarith
import NetworkHealth.Library.JsonIndent
import NetworkHealth.Widget.Canonical

/-! Lists of destinations as files: the envelope that Export writes, and what Import makes of any
file it is given. -/
namespace NetworkHealth.Widget

/-- The document that says what it is, written at the moment that `exported` spells. -/
def exportEnvelope (exported : CodeUnits) (destinations : Value) : Value :=
  .object [(units "application", .string (units "plasma-network-health")),
    (units "version", .number (Binary64.nearest 1)), (units "exported", .string exported), (units "destinations", destinations)]

/-- `exportDocument`; none where a conversion throws. -/
def exportDocument (collate : CodeUnits → CodeUnits → Ordering) (exported : CodeUnits) (list : List Value) :
    Option CodeUnits := do
  let text ← canonicalDestinations collate list
  let destinations ← JsonValue.parse text
  some ((exportEnvelope exported destinations).indented (units "  ") 0 ++ units "\n")

/-- The four digits of one round of `newId`, of `0x10000` and a number drawn below it without the
leading one. -/
def hexDigits (n : UInt16) : CodeUnits :=
  [hexDigit (n.toNat / 0x1000), hexDigit (n.toNat / 0x100 % 16), hexDigit (n.toNat / 0x10 % 16),
    hexDigit (n.toNat % 16)]

def newId (random : Fin 4 → UInt16) : CodeUnits := (List.ofFn random).flatMap hexDigits

/-- What the engine has a part in: the names of the properties that every object inherits, the
numbers drawn at each entry, and the text of a syntax error. -/
structure Engine where
  inherited : CodeUnits → Bool
  random : ℕ → Fin 4 → UInt16
  syntaxError : CodeUnits

structure ImportArguments where
  defaultThresholdUs : Number Binary64
  defaultSensitivity : Number Binary64
  maximum : ℤ

structure ImportResult where
  ok : Bool
  error : CodeUnits
  destinations : List Normalised
  skipped : ℕ
  dropped : ℕ

/-- The variables of the loop. The own properties of `seen` are all true. -/
structure Import where
  out : List Normalised
  seen : List CodeUnits
  skipped : ℕ
  dropped : ℕ

def withinOr (low high : ℚ) (default : Number Binary64) : Number Binary64 → Number Binary64
  | .finite x => if x.val < low ∨ high < x.val then default else .finite x
  | _ => default

/-- `Math.round`: halves go up. -/
def mathRound : Number Binary64 → Number Binary64
  | .finite x => Binary64.nearest (x.val + 1 / 2).floor
  | x => x

/-- `seen[id]`. Inherited properties are all truthy. -/
def Import.isSeen (e : Engine) (s : Import) (id : CodeUnits) : Bool := s.seen.contains id || e.inherited id

/-- The array in a file, bare or in an envelope. -/
def rawEntries : Value → Option (List Value)
  | .array items => some items
  | document =>
    match document.field (units "destinations") with
    | some (.array items) => some items
    | _ => none

/-- The properties of `Object.prototype`. -/
def objectPrototype : List CodeUnits :=
  ["constructor", "__proto__", "__defineGetter__", "__defineSetter__", "hasOwnProperty", "__lookupGetter__",
    "__lookupSetter__", "isPrototypeOf", "propertyIsEnumerable", "toString", "valueOf", "toLocaleString"].map units

section Loop
variable (e : Engine) (args : ImportArguments)

/-- One turn of the loop; none where a conversion throws. -/
def Import.step (s : Import) (p : Value × ℕ) : Option Import := do
  let address := trim (← textOr [] (p.1.field (units "address")))
  if address = [] then some { s with skipped := s.skipped + 1 }
  else if args.maximum ≤ s.out.length then some { s with dropped := s.dropped + 1 }
  else
    let own ← textOr [] (p.1.field (units "id"))
    let id := if own = [] ∨ s.isSeen e own = true then newId (e.random p.2) else own
    let threshold ← numberOf (p.1.field (units "thresholdUs"))
    let sensitivity ← numberOf (p.1.field (units "sensitivity"))
    let name ← textOr [] (p.1.field (units "name"))
    some { s with
      out := s.out ++ [⟨id, if name = [] then address else name, address, Binary64.nearest ((s.out.length + 1 : ℕ) : ℚ),
        mathRound (withinOr 1 60000000 args.defaultThresholdUs threshold),
        mathRound (withinOr 0 1000 args.defaultSensitivity sensitivity),
        !isBool false (p.1.field (units "enabled")), isBool true (p.1.field (units "partTime"))⟩]
      seen := id :: s.seen }

def importLoop (entries : List (Value × ℕ)) : Option Import := entries.foldlM (Import.step e args) ⟨[], [], 0, 0⟩

/-- `importDocument`; none where it throws. -/
def importDocument (text : CodeUnits) : Option ImportResult :=
  match JsonValue.parse text with
  | none => some ⟨false, e.syntaxError, [], 0, 0⟩
  | some parsed =>
    match rawEntries parsed with
    | none => some ⟨false, units "no destination list found", [], 0, 0⟩
    | some raw => (importLoop e args raw.zipIdx).map fun s => ⟨true, [], s.out, s.skipped, s.dropped⟩

end Loop

/-- A destination as Import hands it to the page, the property `partTime` included. -/
def Normalised.toEntry (d : Normalised) : Value :=
  .object [(units "id", .string d.id), (units "name", .string d.name), (units "address", .string d.address),
    (units "order", .number d.order), (units "thresholdUs", .number d.thresholdUs),
    (units "sensitivity", .number d.sensitivity), (units "enabled", .bool d.enabled),
    (units "partTime", .bool d.partTime)]

section Accounts

/-- An address that is not blank. -/
def hasAddress (entry : Value) : Bool := (textOr [] (entry.field (units "address"))).any fun text => trim text ≠ []

/-- A destination has the data of an entry, its id and its place in the list apart. -/
structure ReadFrom (args : ImportArguments) (entry : Value) (d : Normalised) : Prop where
  address : (textOr [] (entry.field (units "address"))).map trim = some d.address
  name : (textOr [] (entry.field (units "name"))).map (fun text => if text = [] then d.address else text) = some d.name
  thresholdUs : (numberOf (entry.field (units "thresholdUs"))).map
    (fun x => mathRound (withinOr 1 60000000 args.defaultThresholdUs x)) = some d.thresholdUs
  sensitivity : (numberOf (entry.field (units "sensitivity"))).map
    (fun x => mathRound (withinOr 0 1000 args.defaultSensitivity x)) = some d.sensitivity
  enabled : d.enabled = !isBool false (entry.field (units "enabled"))
  partTime : d.partTime = isBool true (entry.field (units "partTime"))

/-- What an entry adds where it is used, in a list that has these destinations. -/
structure Added (e : Engine) (args : ImportArguments) (s : Import) (p : Value × ℕ) (d : Normalised) : Prop where
  readFrom : ReadFrom args p.1 d
  order : d.order = Binary64.nearest ((s.out.length + 1 : ℕ) : ℚ)
  id : ∃ own, textOr [] (p.1.field (units "id")) = some own ∧
    d.id = if own = [] ∨ s.isSeen e own = true then newId (e.random p.2) else own

variable {e : Engine} {args : ImportArguments} {s s' : Import} {p : Value × ℕ}

/-- An entry is skipped, dropped or used. -/
theorem Import.step_cases (h : s.step e args p = some s') :
    (hasAddress p.1 = false ∧ s' = { s with skipped := s.skipped + 1 }) ∨
    (hasAddress p.1 = true ∧ args.maximum ≤ s.out.length ∧ s' = { s with dropped := s.dropped + 1 }) ∨
    (hasAddress p.1 = true ∧ s.out.length < args.maximum ∧ ∃ d, Added e args s p d ∧
      s' = { s with out := s.out ++ [d], seen := d.id :: s.seen }) := by
  simp only [Import.step, Option.bind_eq_bind, Option.bind_eq_some_iff] at h
  obtain ⟨address, haddress, h⟩ := h
  have husable : hasAddress p.1 = decide (trim address ≠ []) := by rw [hasAddress, haddress]; rfl
  split_ifs at h with hblank hfull
  · exact Or.inl ⟨by simpa [husable] using hblank, (Option.some.inj h).symm⟩
  · exact Or.inr (Or.inl ⟨by simpa [husable] using hblank, hfull, (Option.some.inj h).symm⟩)
  · simp only [Option.bind_eq_some_iff] at h
    obtain ⟨own, hown, threshold, hthreshold, sensitivity, hsensitivity, name, hname, h⟩ := h
    refine Or.inr (Or.inr ⟨by simpa [husable] using hblank, by omega, _,
      ⟨⟨?_, ?_, ?_, ?_, rfl, rfl⟩, rfl, own, hown, rfl⟩, (Option.some.inj h).symm⟩)
    · rw [haddress, Option.map_some]
    · rw [hname, Option.map_some]
    · rw [hthreshold, Option.map_some]
    · rw [hsensitivity, Option.map_some]

/-- The entries of a file with an address, as many as may be used. -/
def usable (args : ImportArguments) (entries : List (Value × ℕ)) : List (Value × ℕ) :=
  (entries.filter fun p => hasAddress p.1).take args.maximum.toNat

/-- What the loop has made of the entries it is done with. -/
structure Accounts (e : Engine) (args : ImportArguments) (done : List (Value × ℕ)) (s : Import) : Prop where
  total : s.out.length + s.skipped + s.dropped = done.length
  entries : List.Forall₂ (fun p d => ReadFrom args p.1 d) (usable args done) s.out
  order : ∀ k d, s.out[k]? = some d → d.order = Binary64.nearest ((k + 1 : ℕ) : ℚ)
  seen : ∀ id, id ∈ s.seen ↔ id ∈ s.out.map Normalised.id
  kept : ∀ k p d own, (usable args done)[k]? = some p → s.out[k]? = some d →
    textOr [] (p.1.field (units "id")) = some own → own ≠ [] → own ∉ (s.out.take k).map Normalised.id →
      e.inherited own = false → d.id = own

theorem usable_append (entries : List (Value × ℕ)) (p : Value × ℕ) : usable args (entries ++ [p]) =
    if hasAddress p.1 = true ∧ (usable args entries).length < args.maximum.toNat then usable args entries ++ [p]
    else usable args entries := by
  rw [usable, usable, List.filter_append, List.length_take]
  cases hp : hasAddress p.1 with
  | false => simp [hp]
  | true =>
    by_cases hroom : (entries.filter fun p => hasAddress p.1).length < args.maximum.toNat
    · rw [if_pos ⟨rfl, by omega⟩, List.take_of_length_le hroom.le, List.take_of_length_le]
      · simp [hp]
      · simp only [List.length_append, List.filter_cons, hp, if_true, List.filter_nil, List.length_singleton]
        omega
    · rw [if_neg (by omega), List.take_append_of_le_length (by omega)]

/-- An entry that is not used leaves everything but the counts. -/
theorem Accounts.unused {done : List (Value × ℕ)} (h : Accounts e args done s)
    (hunused : ¬ (hasAddress p.1 = true ∧ s.out.length < args.maximum.toNat)) {skipped dropped : ℕ}
    (hcounts : skipped + dropped = s.skipped + s.dropped + 1) :
    Accounts e args (done ++ [p]) { s with skipped := skipped, dropped := dropped } := by
  have hsame : usable args (done ++ [p]) = usable args done := by
    rw [usable_append, h.entries.length_eq, if_neg hunused]
  refine ⟨?_, hsame ▸ h.entries, h.order, h.seen, hsame ▸ h.kept⟩
  have htotal := h.total
  simp only [List.length_append, List.length_singleton]
  omega

theorem Accounts.used {done : List (Value × ℕ)} (h : Accounts e args done s) (hp : hasAddress p.1 = true)
    (hroom : s.out.length < args.maximum.toNat) {d : Normalised} (hadded : Added e args s p d) :
    Accounts e args (done ++ [p]) { s with out := s.out ++ [d], seen := d.id :: s.seen } := by
  have hlength := h.entries.length_eq
  have hmore : usable args (done ++ [p]) = usable args done ++ [p] := by
    rw [usable_append, hlength, if_pos ⟨hp, hroom⟩]
  constructor
  case total =>
    have htotal := h.total
    simp only [List.length_append, List.length_singleton]
    omega
  case entries =>
    rw [hmore]
    exact List.rel_append h.entries (.cons hadded.readFrom .nil)
  case order =>
    intro k d' hd'
    rcases lt_or_ge k s.out.length with hlt | hge
    · rw [List.getElem?_append_left hlt] at hd'
      exact h.order k d' hd'
    · rw [List.getElem?_append_right hge, List.getElem?_singleton] at hd'
      split_ifs at hd' with hk
      obtain rfl := Option.some.inj hd'
      rw [hadded.order, show k = s.out.length by omega]
  case seen =>
    intro id
    rw [List.mem_cons, h.seen id, List.map_append, List.mem_append, or_comm, List.map_singleton, List.mem_singleton]
  case kept =>
    intro k p' d' own hp' hd' hown hne hfirst hinherited
    rw [hmore] at hp'
    rcases lt_or_ge k s.out.length with hlt | hge
    · rw [List.getElem?_append_left (by omega)] at hp'
      rw [List.getElem?_append_left hlt] at hd'
      rw [List.take_append_of_le_length hlt.le] at hfirst
      exact h.kept k p' d' own hp' hd' hown hne hfirst hinherited
    · rw [List.getElem?_append_right (by omega), List.getElem?_singleton] at hp'
      rw [List.getElem?_append_right hge, List.getElem?_singleton] at hd'
      split_ifs at hp' hd' with hk hk'
      obtain rfl := Option.some.inj hp'
      obtain rfl := Option.some.inj hd'
      obtain ⟨own', hown', hid⟩ := hadded.id
      obtain rfl := Option.some.inj (hown.symm.trans hown')
      have htake : (s.out ++ [d]).take k = s.out := by
        rw [List.take_append_of_le_length (by omega), List.take_of_length_le hge]
      have hnot : own ∉ s.seen := by
        rw [h.seen]
        simpa only [htake] using hfirst
      rw [hid, if_neg]
      simp [Import.isSeen, hne, hnot, hinherited]

theorem Accounts.step {done : List (Value × ℕ)} (h : Accounts e args done s) (hstep : s.step e args p = some s') :
    Accounts e args (done ++ [p]) s' := by
  rcases Import.step_cases hstep with ⟨hp, rfl⟩ | ⟨-, hfull, rfl⟩ | ⟨hp, hroom, d, hadded, rfl⟩
  · exact h.unused (by simp [hp]) (by omega)
  · exact h.unused (by omega) (by omega)
  · exact h.used hp (by omega) hadded

section Fresh

/-- The ids so far are there and differ. -/
structure DistinctIds (s : Import) : Prop where
  nonempty : ∀ d ∈ s.out, d.id ≠ []
  nodup : (s.out.map Normalised.id).Nodup

theorem newId_ne_nil (random : Fin 4 → UInt16) : newId random ≠ [] := by
  simp [newId, hexDigits, List.ofFn_succ]

theorem DistinctIds.step (h : DistinctIds s) (hseen : ∀ id, id ∈ s.seen ↔ id ∈ s.out.map Normalised.id)
    (hfresh : s.isSeen e (newId (e.random p.2)) = false) (hstep : s.step e args p = some s') : DistinctIds s' := by
  rcases Import.step_cases hstep with ⟨-, rfl⟩ | ⟨-, -, rfl⟩ | ⟨-, -, d, hadded, rfl⟩
  · exact ⟨h.nonempty, h.nodup⟩
  · exact ⟨h.nonempty, h.nodup⟩
  · obtain ⟨own, -, hid⟩ := hadded.id
    have hnew : d.id ≠ [] ∧ s.isSeen e d.id = false := by
      rw [hid]
      split_ifs with hown
      · exact ⟨newId_ne_nil _, hfresh⟩
      · rw [not_or, Bool.not_eq_true] at hown
        exact hown
    have hmem : d.id ∉ s.out.map Normalised.id := by
      rw [← hseen]
      intro hmem
      simp [Import.isSeen, hmem] at hnew
    constructor
    · intro d' hd'
      rcases List.mem_append.mp hd' with hold | hlast
      · exact h.nonempty d' hold
      · obtain rfl := List.mem_singleton.mp hlast
        exact hnew.1
    · rw [List.map_append, List.map_singleton, List.nodup_append_comm]
      exact List.nodup_cons.mpr ⟨hmem, h.nodup⟩

end Fresh

/-- A value that is no array and no object. -/
def IsScalar (value : Value) : Prop := (∀ items, value ≠ .array items) ∧ ∀ members, value ≠ .object members

/-- Its fields are null, booleans, numbers or texts. -/
def HasScalarFields (entry : Value) : Prop := ∀ key value, entry.field key = some value → IsScalar value

theorem IsScalar.toText {value : Value} (h : IsScalar value) : ∃ text, value.toText = some text := by
  cases value with
  | array items => exact absurd rfl (h.1 items)
  | object members => exact absurd rfl (h.2 members)
  | _ => exact ⟨_, by rw [JsonValue.toText]⟩

theorem IsScalar.toNumber {value : Value} (h : IsScalar value) : ∃ x, value.toNumber = some x := by
  cases value with
  | array items => exact absurd rfl (h.1 items)
  | object members => exact absurd rfl (h.2 members)
  | _ => exact ⟨_, by rw [JsonValue.toNumber]⟩

namespace HasScalarFields
variable {entry : Value}

theorem textOr (h : HasScalarFields entry) (key : CodeUnits) :
    ∃ text, Widget.textOr [] (entry.field key) = some text := by
  cases hfield : entry.field key with
  | none => exact ⟨[], rfl⟩
  | some value => exact (h key value hfield).toText

theorem numberOf (h : HasScalarFields entry) (key : CodeUnits) : ∃ x, Widget.numberOf (entry.field key) = some x := by
  cases hfield : entry.field key with
  | none => exact ⟨.nan, rfl⟩
  | some value => exact (h key value hfield).toNumber

/-- Nothing throws where the fields are scalars. -/
theorem exists_step (h : HasScalarFields p.1) (e : Engine) (args : ImportArguments) (s : Import) :
    ∃ s', s.step e args p = some s' := by
  obtain ⟨address, haddress⟩ := h.textOr (units "address")
  obtain ⟨own, hown⟩ := h.textOr (units "id")
  obtain ⟨name, hname⟩ := h.textOr (units "name")
  obtain ⟨threshold, hthreshold⟩ := h.numberOf (units "thresholdUs")
  obtain ⟨sensitivity, hsensitivity⟩ := h.numberOf (units "sensitivity")
  simp only [Import.step, haddress, hown, hname, hthreshold, hsensitivity, Option.bind_eq_bind, Option.bind_some]
  split_ifs <;> exact ⟨_, rfl⟩

end HasScalarFields

/-- At every entry `newId` gives an id that has not been seen so far. -/
def FreshIds (e : Engine) (args : ImportArguments) (entries : List (Value × ℕ)) : Prop :=
  ∀ done p rest s, entries = done ++ p :: rest → importLoop e args done = some s →
    s.isSeen e (newId (e.random p.2)) = false

/-- The loop accounts for every entry. -/
theorem exists_importLoop {entries : List (Value × ℕ)} (hscalar : ∀ p ∈ entries, HasScalarFields p.1)
    (hfresh : FreshIds e args entries) :
    ∃ s, importLoop e args entries = some s ∧ Accounts e args entries s ∧ DistinctIds s := by
  apply foldlM_invariant fun done s => Accounts e args done s ∧ DistinctIds s
  · refine ⟨⟨rfl, ?_, by simp, by simp, by simp⟩, ⟨by simp, by simp⟩⟩
    rw [usable, List.filter_nil, List.take_nil]
    exact .nil
  · rintro done p rest s hsplit hdone ⟨haccounts, hdistinct⟩
    obtain ⟨s', hs'⟩ := (hscalar p (by simp [hsplit])).exists_step e args s
    have hnew := hfresh done p rest s hsplit hdone
    exact ⟨s', hs', haccounts.step hs', hdistinct.step haccounts.seen hnew hs'⟩

section Ranges
variable {low high : ℕ}

/-- A number in a range. -/
def InRange (low high : ℕ) (x : Number Binary64) : Prop := ∃ y, x = .finite y ∧ (low : ℚ) ≤ y.val ∧ y.val ≤ high

/-- An integer in a range. -/
def IsCount (low high : ℕ) (x : Number Binary64) : Prop :=
  ∃ (n : ℕ) (y : Binary64), x = .finite y ∧ y.val = n ∧ low ≤ n ∧ n ≤ high

theorem inRange_withinOr {default : Number Binary64} (hdefault : InRange low high default) (x : Number Binary64) :
    InRange low high (withinOr low high default x) := by
  unfold withinOr
  split
  · split_ifs with hout
    · exact hdefault
    · rw [not_or, not_lt, not_lt] at hout
      exact ⟨_, rfl, hout⟩
  · exact hdefault

theorem isCount_mathRound (hhigh : high ≤ 2 ^ 53) {x : Number Binary64} (h : InRange low high x) :
    IsCount low high (mathRound x) := by
  obtain ⟨y, rfl, hlow, hle⟩ := h
  have hfloor : (low : ℤ) ≤ ⌊y.val + 1 / 2⌋ ∧ ⌊y.val + 1 / 2⌋ < high + 1 := by
    constructor
    · apply Int.le_floor.mpr
      push_cast
      linarith
    · apply Int.floor_lt.mpr
      push_cast
      linarith
  obtain ⟨n, hn⟩ := Int.eq_ofNat_of_zero_le ((Int.natCast_nonneg low).trans hfloor.1)
  rw [hn] at hfloor
  have hcount : n ≤ 2 ^ 53 := by omega
  refine ⟨n, Binary64.ofCount n hcount, ?_, rfl, by omega, by omega⟩
  have hround : (y.val + 1 / 2).floor = n := hn
  rw [mathRound, hround, Int.cast_natCast, Binary64.nearest_natCast hcount]

end Ranges

theorem map_usable_zipIdx (raw : List Value) :
    (usable args raw.zipIdx).map Prod.fst = (raw.filter hasAddress).take args.maximum.toNat := by
  rw [usable, List.map_take]
  conv_rhs => rw [← List.zipIdx_map_fst 0 raw, List.filter_map]
  rfl

/-- What a destination takes from an entry is in range. -/
theorem ReadFrom.isCount {entry : Value} {d : Normalised} (h : ReadFrom args entry d)
    (hthreshold : InRange 1 60000000 args.defaultThresholdUs) (hsensitivity : InRange 0 1000 args.defaultSensitivity) :
    IsCount 1 60000000 d.thresholdUs ∧ IsCount 0 1000 d.sensitivity := by
  obtain ⟨x, -, hx⟩ := Option.map_eq_some_iff.mp h.thresholdUs
  obtain ⟨y, -, hy⟩ := Option.map_eq_some_iff.mp h.sensitivity
  rw [← hx, ← hy]
  exact ⟨isCount_mathRound (by norm_num) (by exact_mod_cast inRange_withinOr hthreshold x),
    isCount_mathRound (by norm_num) (by exact_mod_cast inRange_withinOr hsensitivity y)⟩

/-- Import takes every file with a list of entries and accounts for each of them: it is returned,
skipped or dropped, what is returned are the first entries that have an address, and each of those
can be used as it is. -/
theorem importDocument_accounts (e : Engine) (args : ImportArguments) (text : CodeUnits)
    (hthreshold : InRange 1 60000000 args.defaultThresholdUs) (hsensitivity : InRange 0 1000 args.defaultSensitivity)
    (hscalar : ∀ parsed raw, JsonValue.parse text = some parsed → rawEntries parsed = some raw →
      ∀ entry ∈ raw, HasScalarFields entry)
    (hfresh : ∀ parsed raw, JsonValue.parse text = some parsed → rawEntries parsed = some raw →
      FreshIds e args raw.zipIdx) :
    ∃ result, importDocument e args text = some result ∧
      (result.ok = true ↔ ∃ parsed raw, JsonValue.parse text = some parsed ∧ rawEntries parsed = some raw) ∧
      (result.ok = false → result.destinations = []) ∧
      (result.ok = true → ∃ parsed raw, JsonValue.parse text = some parsed ∧ rawEntries parsed = some raw ∧
        result.destinations.length + result.skipped + result.dropped = raw.length ∧
        List.Forall₂ (ReadFrom args) ((raw.filter hasAddress).take args.maximum.toNat) result.destinations ∧
        (∀ k d, result.destinations[k]? = some d → d.order = Binary64.nearest ((k + 1 : ℕ) : ℚ)) ∧
        (∀ d ∈ result.destinations, d.id ≠ [] ∧ IsCount 1 60000000 d.thresholdUs ∧ IsCount 0 1000 d.sensitivity) ∧
        (result.destinations.map Normalised.id).Nodup ∧
        ∀ k entry d own, ((raw.filter hasAddress).take args.maximum.toNat)[k]? = some entry →
          result.destinations[k]? = some d → textOr [] (entry.field (units "id")) = some own → own ≠ [] →
            own ∉ (result.destinations.take k).map Normalised.id → e.inherited own = false → d.id = own) := by
  cases hparse : JsonValue.parse text (F := Binary64) with
  | none => exact ⟨⟨false, e.syntaxError, [], 0, 0⟩, by simp only [importDocument, hparse], by simp, fun _ => rfl, by simp⟩
  | some parsed =>
    cases hraw : rawEntries parsed with
    | none => exact ⟨⟨false, units "no destination list found", [], 0, 0⟩, by simp only [importDocument, hparse, hraw],
      by simp [hraw], fun _ => rfl, by simp⟩
    | some raw =>
      have hentries : ∀ p ∈ raw.zipIdx, HasScalarFields p.1 := fun p hp =>
        hscalar parsed raw hparse hraw p.1 (List.fst_mem_of_mem_zipIdx hp)
      obtain ⟨s, hloop, haccounts, hdistinct⟩ := exists_importLoop hentries (hfresh parsed raw hparse hraw)
      refine ⟨⟨true, [], s.out, s.skipped, s.dropped⟩, ?_, iff_of_true rfl ⟨parsed, raw, rfl, hraw⟩, by simp, fun _ =>
        ⟨parsed, raw, rfl, hraw, ?_, ?_, ?_, ?_, ?_, ?_⟩⟩
      · simp only [importDocument, hparse, hraw, hloop, Option.map_some]
      · simpa using haccounts.total
      · rw [← map_usable_zipIdx, List.forall₂_map_left_iff]
        exact haccounts.entries
      · exact haccounts.order
      · intro d hd
        obtain ⟨k, hk, rfl⟩ := List.getElem_of_mem hd
        have hread := haccounts.entries.get (by rwa [haccounts.entries.length_eq]) hk
        exact ⟨hdistinct.nonempty _ hd, hread.isCount hthreshold hsensitivity⟩
      · exact hdistinct.nodup
      · intro k entry d own hentry hd
        rw [← map_usable_zipIdx, List.getElem?_map] at hentry
        obtain ⟨p, hp, rfl⟩ := Option.map_eq_some_iff.mp hentry
        exact haccounts.kept k p d own hp hd

/-- A null entry, and one whose id every object inherits. -/
theorem importDocument_accounts_inherited :
    let e : Engine := ⟨objectPrototype.contains, fun _ _ => 0, []⟩
    let raw : List Value :=
      [.null, .object [(units "address", .string (units "::1")), (units "id", .string (units "toString"))]]
    ∃ result, importDocument e ⟨Binary64.nearest 1000, Binary64.nearest 3, 128⟩ (JsonValue.array raw).stringify =
      some result ∧ result.ok = true ∧ result.destinations.map Normalised.address = [units "::1"] ∧
        result.skipped + result.dropped = 1 := by
  intro e raw
  have hparse : JsonValue.parse (JsonValue.array raw).stringify = some (JsonValue.array raw) := by
    rw [parse_stringify]
    rfl
  have hentries : ∀ parsed raw', JsonValue.parse (JsonValue.array raw).stringify = some parsed →
      rawEntries parsed = some raw' → raw' = raw := by
    intro parsed raw' hparsed hraw
    obtain rfl := Option.some.inj (hparse.symm.trans hparsed)
    exact (Option.some.inj hraw).symm
  have hscalar : ∀ entry ∈ raw, HasScalarFields entry := by
    simp only [raw, List.forall_mem_cons, List.not_mem_nil, false_implies, implies_true, and_true]
    constructor
    · intro key value hfield
      cases hfield
    · intro key value hfield
      change List.lookup key [(units "id", .string (units "toString")), (units "address", .string (units "::1"))] =
        some value at hfield
      rw [List.lookup_cons, List.lookup_cons] at hfield
      split at hfield
      · simp [IsScalar, ← Option.some.inj hfield]
      · split at hfield
        · simp [IsScalar, ← Option.some.inj hfield]
        · cases hfield
  have hfresh : FreshIds e ⟨Binary64.nearest 1000, Binary64.nearest 3, 128⟩ raw.zipIdx := by
    intro done p rest s hsplit hloop
    have hnew : ([] : List CodeUnits).contains (newId fun _ => 0) = false ∧ e.inherited (newId fun _ => 0) = false := by
      decide
    rcases done with _ | ⟨first, _ | ⟨second, done⟩⟩
    · obtain rfl := Option.some.inj hloop
      exact Bool.or_eq_false_iff.mpr hnew
    · obtain rfl : first = (.null, 0) := by simpa [raw] using (congrArg List.head? hsplit).symm
      obtain rfl := Option.some.inj hloop
      exact Bool.or_eq_false_iff.mpr hnew
    · simp [raw] at hsplit
  have hthreshold : InRange 1 60000000 (Binary64.nearest 1000) :=
    ⟨.ofCount 1000 (by decide), by exact_mod_cast Binary64.nearest_natCast (by decide), by decide, by decide⟩
  have hsensitivity : InRange 0 1000 (Binary64.nearest 3) :=
    ⟨.ofCount 3 (by decide), by exact_mod_cast Binary64.nearest_natCast (by decide), by decide, by decide⟩
  obtain ⟨result, himport, hiff, -, hok⟩ := importDocument_accounts e ⟨Binary64.nearest 1000, Binary64.nearest 3, 128⟩
    (JsonValue.array raw).stringify hthreshold hsensitivity
    (fun parsed raw' hparsed hraw => hentries parsed raw' hparsed hraw ▸ hscalar)
    (fun parsed raw' hparsed hraw => hentries parsed raw' hparsed hraw ▸ hfresh)
  have haccepted : result.ok = true := hiff.mpr ⟨_, raw, hparse, rfl⟩
  obtain ⟨parsed, raw', hparsed, hraw, htotal, hread, -⟩ := hok haccepted
  obtain rfl := hentries parsed raw' hparsed hraw
  change List.Forall₂ _ raw.tail result.destinations at hread
  obtain ⟨d, rest, hd, hrest, hdestinations⟩ := List.forall₂_cons_left_iff.mp hread
  obtain rfl := List.forall₂_nil_left_iff.mp hrest
  have haddress : d.address = units "::1" := (Option.some.inj hd.address).symm
  have hlength : raw.length = 2 := rfl
  rw [hdestinations, List.length_singleton, hlength] at htotal
  exact ⟨result, himport, haccepted, by rw [hdestinations, List.map_singleton, haddress], by omega⟩

end Accounts

section RoundTrip
variable {e : Engine} {args : ImportArguments} {s : Import} {d : Normalised} {ds : List Normalised}

/-- A destination that Import takes as it is. -/
structure Importable (e : Engine) (d : Normalised) : Prop where
  trimmed : trim d.address = d.address
  address : d.address ≠ []
  name : d.name ≠ []
  id : d.id ≠ []
  inherited : e.inherited d.id = false
  thresholdUs : IsCount 1 60000000 d.thresholdUs
  sensitivity : IsCount 0 1000 d.sensitivity

theorem mathRound_withinOr {low high : ℕ} {x : Number Binary64} (h : IsCount low high x) (default : Number Binary64) :
    mathRound (withinOr low high default x) = x := by
  obtain ⟨n, y, rfl, hn, hlow, hhigh⟩ := h
  have hrange : ¬ (y.val < low ∨ (high : ℚ) < y.val) := by
    rw [hn, not_or, not_lt, not_lt]
    exact ⟨by exact_mod_cast hlow, by exact_mod_cast hhigh⟩
  have hround : (y.val + 1 / 2).floor = n := by
    have hfloor : ⌊(n : ℚ) + 1 / 2⌋ = n := by
      rw [Int.floor_eq_iff]
      constructor <;> push_cast <;> linarith
    rw [hn]
    exact hfloor
  rw [withinOr, if_neg hrange, mathRound, hround, Int.cast_natCast, ← hn, Binary64.nearest_val]

theorem Normalised.fields_toValue (d : Normalised) :
    textOr [] (d.toValue.field (units "id")) = some d.id ∧ textOr [] (d.toValue.field (units "name")) = some d.name ∧
      textOr [] (d.toValue.field (units "address")) = some d.address ∧
      numberOf (d.toValue.field (units "thresholdUs")) = some d.thresholdUs ∧
      numberOf (d.toValue.field (units "sensitivity")) = some d.sensitivity ∧
      (!isBool false (d.toValue.field (units "enabled"))) = d.enabled ∧
      isBool true (d.toValue.field (units "partTime")) = d.partTime := by
  obtain ⟨id, name, address, order, thresholdUs, sensitivity, enabled, partTime⟩ := d
  cases enabled <;> cases partTime <;> exact ⟨rfl, rfl, rfl, rfl, rfl, rfl, rfl⟩

/-- A destination in a file of its own spelling is added as it is. -/
theorem Importable.step_toValue (h : Importable e d) (hseen : d.id ∉ s.seen) (hroom : s.out.length < args.maximum)
    (horder : d.order = Binary64.nearest ((s.out.length + 1 : ℕ) : ℚ)) (i : ℕ) :
    s.step e args (d.toValue, i) = some { s with out := s.out ++ [d], seen := d.id :: s.seen } := by
  have hthreshold : mathRound (withinOr 1 60000000 args.defaultThresholdUs d.thresholdUs) = d.thresholdUs := by
    exact_mod_cast mathRound_withinOr h.thresholdUs args.defaultThresholdUs
  have hsensitivity : mathRound (withinOr 0 1000 args.defaultSensitivity d.sensitivity) = d.sensitivity := by
    exact_mod_cast mathRound_withinOr h.sensitivity args.defaultSensitivity
  have hknown : ¬ (d.id = [] ∨ s.isSeen e d.id = true) := by
    simp [Import.isSeen, h.id, hseen, h.inherited]
  obtain ⟨hid, hname, haddress, hthresholdUs, hsensitive, henabled, hpartTime⟩ := d.fields_toValue
  simp only [Import.step, haddress, hid, hname, hthresholdUs, hsensitive, henabled, hpartTime, h.trimmed,
    Option.bind_eq_bind, Option.bind_some, if_neg h.address, if_neg hroom.not_ge, if_neg hknown, if_neg h.name,
    hthreshold, hsensitivity, ← horder]

/-- Import takes a list of such destinations as it is, in its order. -/
theorem importLoop_toValue (k : ℕ) (himportable : ∀ d ∈ ds, Importable e d) (hids : (ds.map Normalised.id).Nodup)
    (hseen : ∀ d ∈ ds, d.id ∉ s.seen) (hroom : (s.out.length + ds.length : ℤ) ≤ args.maximum)
    (horder : ∀ j d, ds[j]? = some d → d.order = Binary64.nearest ((s.out.length + j + 1 : ℕ) : ℚ)) :
    ∃ s', ((ds.map Normalised.toValue).zipIdx k).foldlM (Import.step e args) s = some s' ∧
      s'.out = s.out ++ ds ∧ s'.skipped = s.skipped ∧ s'.dropped = s.dropped := by
  induction ds generalizing s k with
  | nil => exact ⟨s, rfl, by simp, rfl, rfl⟩
  | cons d ds ih =>
    rw [List.length_cons] at hroom
    push_cast at hroom
    have hstep : s.step e args (d.toValue, k) = some { s with out := s.out ++ [d], seen := d.id :: s.seen } :=
      (himportable d (by simp)).step_toValue (hseen d (by simp)) (by omega) (by simpa using horder 0 d rfl) k
    obtain ⟨hnew, hrest⟩ := List.nodup_cons.mp hids
    obtain ⟨s', hloop, hout, hskipped, hdropped⟩ := ih
      (s := ⟨s.out ++ [d], d.id :: s.seen, s.skipped, s.dropped⟩) (k + 1)
      (fun d' hd' => himportable d' (by simp [hd'])) hrest (by
        intro d' hd' hmem
        rcases List.mem_cons.mp hmem with heq | hold
        · exact hnew (heq ▸ List.mem_map_of_mem hd')
        · exact hseen d' (by simp [hd']) hold) (by
          simp only [List.length_append, List.length_singleton]
          push_cast
          omega)
      (by
        intro j d' hd'
        rw [horder (j + 1) d' hd', List.length_append, List.length_singleton]
        congr 2
        omega)
    refine ⟨s', ?_, by simpa using hout, hskipped, hdropped⟩
    rw [List.map_cons, List.zipIdx_cons, List.foldlM_cons, hstep]
    exact hloop

/-- The destination of a row, at its index. -/
def PageRow.toNormalised (i : ℕ) (row : PageRow) : Normalised :=
  ⟨row.destinationId, row.name, trim row.address, Binary64.nearest ((i + 1 : ℕ) : ℚ), .finite row.thresholdUs,
    .finite row.sensitivity, row.destinationEnabled, row.partTime⟩

theorem currentList_eq (rows : List PageRow) :
    currentList rows = (rows.mapIdx PageRow.toNormalised).map Normalised.toEntry := by
  apply List.ext_getElem
  · simp [currentList]
  · intro i hi hi'
    simp only [currentList, List.getElem_mapIdx, List.getElem_map]
    rfl

theorem normalise_toEntry (d : Normalised) (i : ℕ) : Normalised.normalise d.toEntry i = some d := by
  obtain ⟨id, name, address, order, thresholdUs, sensitivity, enabled, partTime⟩ := d
  cases enabled <;> cases partTime <;> rfl

section Rows
variable {rows : List PageRow}

theorem getElem?_toNormalised {k : ℕ} {d : Normalised} (h : (rows.mapIdx PageRow.toNormalised)[k]? = some d) :
    ∃ row, rows[k]? = some row ∧ d = row.toNormalised k := by
  rw [List.getElem?_mapIdx] at h
  obtain ⟨row, hrow, hd⟩ := Option.map_eq_some_iff.mp h
  exact ⟨row, hrow, hd.symm⟩

theorem finite_toNormalised (h : rows.length ≤ rowLimit) : ∀ d ∈ rows.mapIdx PageRow.toNormalised, d.Finite := by
  intro d hd
  obtain ⟨i, hi, rfl⟩ := List.mem_mapIdx.mp hd
  exact ⟨⟨_, Binary64.nearest_natCast (Nat.succ_le_of_lt (hi.trans_le h))⟩, ⟨_, rfl⟩, ⟨_, rfl⟩⟩

/-- The page's list is sorted, being numbered. -/
theorem insertionSort_toNormalised (collate : CodeUnits → CodeUnits → Ordering) (h : rows.length ≤ rowLimit) :
    (rows.mapIdx PageRow.toNormalised).insertionSort (Normalised.notAfter collate) =
      rows.mapIdx PageRow.toNormalised := by
  apply List.Pairwise.insertionSort_eq
  rw [List.pairwise_iff_getElem]
  intro i j hi hj hij
  rw [List.length_mapIdx] at hi hj
  rw [List.getElem_mapIdx, List.getElem_mapIdx,
    Normalised.notAfter_iff (Binary64.nearest_natCast (Nat.succ_le_of_lt (hi.trans_le h)))
      (Binary64.nearest_natCast (Nat.succ_le_of_lt (hj.trans_le h)))]
  left
  change ((i + 1 : ℕ) : ℚ) < ((j + 1 : ℕ) : ℚ)
  exact_mod_cast Nat.succ_lt_succ hij

/-- What Export writes for the page's list, read back by `JSON.parse`. -/
theorem exists_exportDocument (collate : CodeUnits → CodeUnits → Ordering) (exported : CodeUnits)
    (h : rows.length ≤ rowLimit) :
    ∃ text parsed, exportDocument collate exported (currentList rows) = some text ∧
      JsonValue.parse text = some parsed ∧
      rawEntries parsed = some ((rows.mapIdx PageRow.toNormalised).map Normalised.toValue) := by
  have hplain : ((rows.mapIdx PageRow.toNormalised).map Normalised.toValue).map JsonValue.plain =
      (rows.mapIdx PageRow.toNormalised).map Normalised.toValue := by
    rw [List.map_map]
    exact List.map_congr_left fun d hd => (finite_toNormalised h d hd).plain_toValue
  have hcanonical : canonicalDestinations collate (currentList rows) =
      some (JsonValue.array ((rows.mapIdx PageRow.toNormalised).map Normalised.toValue)).stringify := by
    rw [canonicalDestinations, currentList_eq, mapM_normalise normalise_toEntry, Option.map_some,
      insertionSort_toNormalised collate h]
  have hparse :
      JsonValue.parse (JsonValue.array ((rows.mapIdx PageRow.toNormalised).map Normalised.toValue)).stringify =
      some (JsonValue.array ((rows.mapIdx PageRow.toNormalised).map Normalised.toValue)) := by
    rw [parse_stringify, JsonValue.plain, JsonValue.plainItems_eq_map, hplain]
  have hgap : ∀ c ∈ units "  ", isJsonSpace c = true := List.all_eq_true.mp (by decide)
  have hend : ∀ c ∈ units "\n", isJsonSpace c = true := List.all_eq_true.mp (by decide)
  refine ⟨_, _, ?_, parse_indented hgap (exportEnvelope exported (.array
    ((rows.mapIdx PageRow.toNormalised).map Normalised.toValue))) hend, ?_⟩
  · rw [exportDocument, hcanonical, Option.bind_eq_bind, Option.bind_some, hparse]
    rfl
  · simp only [exportEnvelope, JsonValue.plain, JsonValue.plainMembers, JsonValue.plainItems_eq_map, hplain]
    rfl

end Rows

/-- A row that Import gives back: its texts are there once its address is trimmed, and its numbers
are integers in range. -/
structure Exportable (e : Engine) (row : PageRow) : Prop where
  address : trim row.address ≠ []
  name : row.name ≠ []
  id : row.destinationId ≠ []
  inherited : e.inherited row.destinationId = false
  thresholdUs : IsCount 1 60000000 (.finite row.thresholdUs)
  sensitivity : IsCount 0 1000 (.finite row.sensitivity)

/-- Import undoes Export, whatever the defaults. -/
theorem importDocument_exportDocument (e : Engine) (args : ImportArguments)
    (collate : CodeUnits → CodeUnits → Ordering) (exported : CodeUnits) {rows : List PageRow}
    (hlimit : rows.length ≤ rowLimit) (hmaximum : (rows.length : ℤ) ≤ args.maximum)
    (hrows : ∀ row ∈ rows, Exportable e row) (hids : (rows.map PageRow.destinationId).Nodup) :
    ∃ text result, exportDocument collate exported (currentList rows) = some text ∧
      importDocument e args text = some result ∧ result.ok = true ∧ result.skipped = 0 ∧ result.dropped = 0 ∧
      result.destinations.map Normalised.toEntry = currentList rows := by
  obtain ⟨text, parsed, hexport, hparse, hraw⟩ := exists_exportDocument collate exported hlimit
  have himportable : ∀ d ∈ rows.mapIdx PageRow.toNormalised, Importable e d := by
    intro d hd
    obtain ⟨i, hi, rfl⟩ := List.mem_mapIdx.mp hd
    have hrow := hrows rows[i] (List.getElem_mem hi)
    exact ⟨trim_trim _, hrow.address, hrow.name, hrow.id, hrow.inherited, hrow.thresholdUs, hrow.sensitivity⟩
  have hnodup : ((rows.mapIdx PageRow.toNormalised).map Normalised.id).Nodup := by
    have hsame : (rows.mapIdx PageRow.toNormalised).map Normalised.id = rows.map PageRow.destinationId := by
      apply List.ext_getElem <;> simp [PageRow.toNormalised]
    rwa [hsame]
  have horder : ∀ j d, (rows.mapIdx PageRow.toNormalised)[j]? = some d →
      d.order = Binary64.nearest ((0 + j + 1 : ℕ) : ℚ) := by
    intro j d hd
    obtain ⟨row, -, rfl⟩ := getElem?_toNormalised hd
    rw [Nat.zero_add]
    rfl
  obtain ⟨s, hloop, hout, hskipped, hdropped⟩ := @importLoop_toValue e args ⟨[], [], 0, 0⟩ _ 0 himportable hnodup
    (by simp) (by simpa using hmaximum) horder
  refine ⟨text, ⟨true, [], s.out, s.skipped, s.dropped⟩, hexport, ?_, rfl, hskipped, hdropped, ?_⟩
  · simp only [importDocument, hparse, hraw, importLoop, hloop, Option.map_some]
  · rw [currentList_eq, hout, List.nil_append]

/-- Two rows, one of them disabled and part-time, with defaults that are no numbers. -/
theorem importDocument_exportDocument_pair :
    let e : Engine := ⟨objectPrototype.contains, fun _ _ => 0, []⟩
    let row (id : String) (enabled : Bool) : PageRow := ⟨units id, units "Router", units " 192.0.2.1 ",
      .ofCount 1000 (by decide), .ofCount 0 (by decide), enabled, !enabled⟩
    let rows := [row "a" false, row "b" true]
    ∃ text result, exportDocument compare (units "2026-01-01T00:00:00.000Z") (currentList rows) = some text ∧
      importDocument e ⟨.nan, .nan, 2⟩ text = some result ∧
        result.destinations.map Normalised.toEntry = currentList rows := by
  intro e row rows
  have hrow : ∀ id enabled, units id ≠ [] → e.inherited (units id) = false → Exportable e (row id enabled) := by
    intro id enabled hid hinherited
    have haddress : trim (units " 192.0.2.1 ") ≠ [] := by decide
    have hname : units "Router" ≠ [] := by decide
    exact ⟨haddress, hname, hid, hinherited, ⟨1000, _, rfl, rfl, by decide, by decide⟩,
      ⟨0, _, rfl, rfl, by decide, by decide⟩⟩
  have hrows : ∀ r ∈ rows, Exportable e r := by
    simp only [rows, List.forall_mem_cons, List.not_mem_nil, false_implies, implies_true, and_true]
    exact ⟨hrow "a" false (by decide) (by decide), hrow "b" true (by decide) (by decide)⟩
  obtain ⟨text, result, hexport, himport, -, -, -, hsame⟩ := importDocument_exportDocument e ⟨.nan, .nan, 2⟩ compare
    (units "2026-01-01T00:00:00.000Z") (by decide) (by decide) hrows (by decide)
  exact ⟨text, result, hexport, himport, hsame⟩

end RoundTrip

end NetworkHealth.Widget
