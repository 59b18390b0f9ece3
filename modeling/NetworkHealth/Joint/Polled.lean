import NetworkHealth.Daemon.StateIni
import NetworkHealth.Joint.Handover
import NetworkHealth.Joint.Wire
import NetworkHealth.Library.Conversion
import NetworkHealth.Library.Utf16

/-! What a poll finds in the state file. The file goes through the settings, the payload through
`Qt.atob` and `JSON.parse`, and the document is read member by member. -/
namespace NetworkHealth.Joint
open Daemon (Bytes Json ascii)
open Daemon.Json (Token Piece tokens pieces ValidUtf8)
open CNumber (byte widen)

section Text

theorem tokens_ascii {c : Char} (h : c.toNat < 0x80) (rest : Bytes) :
    (tokens (String.utf8EncodeChar c ++ rest)).map codeUnit = utf16Char c ++ (tokens rest).map codeUnit := by
  have hlow : ¬ (true = true ∧ 0x80 ≤ UInt8.ofNat c.toNat) := by
    rintro ⟨-, hle⟩
    rw [UInt8.le_iff_toNat_le, UInt8.toNat_ofNat', Nat.mod_eq_of_lt (by omega)] at hle
    exact absurd h (not_lt.mpr hle)
  have hnat : (UInt8.ofNat c.toNat).toNat = c.toNat := by
    rw [UInt8.toNat_ofNat', Nat.mod_eq_of_lt (by omega)]
  have hunit : (UInt8.ofNat c.toNat).toUInt16 = UInt16.ofNat c.toNat := by
    rw [← UInt16.toNat_inj, UInt8.toNat_toUInt16, hnat, UInt16.toNat_ofNat', Nat.mod_eq_of_lt (by omega)]
  rw [← Daemon.Json.appendUtf8_char, Daemon.Json.appendUtf8_one h, List.singleton_append, tokens, pieces, if_neg hlow,
    List.flatMap_cons, List.map_append, utf16Char, if_pos (by omega)]
  congr 1
  simp only [Piece.tokens]
  split_ifs
  · rw [List.map_singleton, codeUnit, hnat]
  · rw [List.map_singleton, codeUnit, hunit]

theorem tokens_beyond {c : Char} (h : 0x80 ≤ c.toNat) (rest : Bytes) :
    (tokens (String.utf8EncodeChar c ++ rest)).map codeUnit = utf16Char c ++ (tokens rest).map codeUnit := by
  rw [← Daemon.Json.appendUtf8_char, tokens, Daemon.Json.pieces_utf8 h (Daemon.Json.toNat_lt c), List.flatMap_cons,
    List.map_append]
  congr 1
  simp only [Piece.tokens, utf16Char]
  split_ifs with hbasic
  · rfl
  · have hhigh : (c.toNat - 0x10000) >>> 10 = (c.toNat - 0x10000) / 0x400 := by rw [Nat.shiftRight_eq_div_pow]
    have hlow : (c.toNat - 0x10000) &&& 0x3FF = (c.toNat - 0x10000) % 0x400 := Nat.and_two_pow_sub_one_eq_mod _ 10
    rw [hhigh, hlow]
    rfl

/-- A string that is text arrives as the text it is. -/
theorem seenString_utf8 (text : String) : seenString (utf8 text) = utf16 text := by
  have hall : ∀ cs : List Char, (tokens (cs.flatMap String.utf8EncodeChar)).map codeUnit = cs.flatMap utf16Char := by
    intro cs
    induction cs with
    | nil => rfl
    | cons c cs ih =>
      rw [List.flatMap_cons, List.flatMap_cons, ← ih]
      rcases Nat.lt_or_ge c.toNat 0x80 with h | h
      · exact tokens_ascii h _
      · exact tokens_beyond h _
  exact hall text.toList

theorem exists_utf8 {bytes : Bytes} (h : ValidUtf8 bytes) : ∃ text : String, bytes = utf8 text := by
  obtain ⟨cs, rfl⟩ := h
  exact ⟨String.ofList cs, by rw [utf8, String.toList_ofList]⟩

theorem unicode_seenString {bytes : Bytes} (h : ValidUtf8 bytes) : fromUtf8 bytes = some (unicode (seenString bytes)) := by
  obtain ⟨text, rfl⟩ := exists_utf8 h
  rw [fromUtf8_utf8, seenString_utf8, unicode_utf16]

theorem seenString_inj {a b : Bytes} (ha : ValidUtf8 a) (hb : ValidUtf8 b) (h : seenString a = seenString b) : a = b := by
  obtain ⟨text, rfl⟩ := exists_utf8 ha
  obtain ⟨text', rfl⟩ := exists_utf8 hb
  rw [seenString_utf8, seenString_utf8] at h
  rw [utf16_injective h]

end Text

section Read

/-- A property of an object; one that is missing reads as null. -/
def property (v : JsonValue Binary64) (key : String) : JsonValue Binary64 := (v.field (units key)).getD .null

def stringOf : JsonValue Binary64 → String
  | .string value => unicode value
  | _ => ""

def numberOf : JsonValue Binary64 → ℚ
  | .number (.finite x) => x.val
  | _ => 0

def isTrue : JsonValue Binary64 → Bool
  | .bool value => value
  | _ => false

def elements : JsonValue Binary64 → List (JsonValue Binary64)
  | .array items => items
  | _ => []

/-- The properties of an object in the order of their first mention, each with its last value. -/
def properties : JsonValue Binary64 → List (CodeUnits × JsonValue Binary64)
  | .object members => (members.map Prod.fst).eraseDups.map fun key => (key, (members.reverse.lookup key).getD .null)
  | _ => []

def readLive (entry : JsonValue Binary64) : Widget.Live where
  id := stringOf (property entry "id")
  state := health (stringOf (property entry "state"))
  resolved := stringOf (property entry "resolved")
  haveRtt := isTrue (property entry "have_rtt")
  rttUs := (numberOf (property entry "rtt_us")).floor
  lossPercent := numberOf (property entry "loss_percent")
  sent := (numberOf (property entry "sent")).floor
  received := (numberOf (property entry "received")).floor
  error := stringOf (property entry "error")

/-- Whether a value counts as true in a condition. -/
def truthy : JsonValue Binary64 → Bool
  | .null => false
  | .bool value => value
  | .number (.finite x) => x.val ≠ 0
  | .number (.infinite _) => true
  | .number .nan => false
  | .string value => value ≠ []
  | .array _ | .object _ => true

def readFamily (entry : JsonValue Binary64) : Widget.Family :=
  ⟨truthy (property entry "available"), stringOf (property entry "error")⟩

def readLives (client : JsonValue Binary64) : List Widget.Live :=
  (elements (property client "destinations")).map readLive

/-- `applyDocument` on what `JSON.parse` gave it. -/
def readDocument (payload : JsonValue Binary64) : Widget.Document where
  generation := match property payload "generation" with
    | .number (.finite x) => some x.val.floor
    | _ => none
  ipv4 := readFamily (property (property payload "engine") "ipv4")
  ipv6 := readFamily (property (property payload "engine") "ipv6")
  clients := (properties (property payload "clients")).map fun member => (unicode member.1, readLives member.2)

end Read

section Publishable

/-- The strings of a value are text, and no object names a member twice. -/
inductive Publishable : Json → Prop
  | null : Publishable .null
  | bool (value : Bool) : Publishable (.bool value)
  | number (value : ℚ) : Publishable (.number value)
  | infinite : Publishable .infinite
  | string {value : Bytes} (h : ValidUtf8 value) : Publishable (.string value)
  | array {items : List Json} (h : ∀ item ∈ items, Publishable item) : Publishable (.array items)
  | object {members : List (Bytes × Json)} (hnodup : (members.map Prod.fst).Nodup)
      (hkeys : ∀ member ∈ members, ValidUtf8 member.1) (hvalues : ∀ member ∈ members, Publishable member.2) :
      Publishable (.object members)

variable {v : Json}

theorem Publishable.field (h : Publishable v) (key : Bytes) : Publishable (v.field key) := by
  cases h with
  | @object members hnodup hkeys hvalues =>
    rw [Json.field]
    cases hlookup : members.lookup key with
    | none => exact .null
    | some value => exact hvalues _ (mem_of_lookup hlookup)
  | null | bool _ | number _ | infinite | string _ | array _ => exact .null

/-- A name of the source. -/
def isAscii (key : String) : Bool := key.toList.all fun c => c.toNat < 0x80

theorem isAscii_iff {key : String} : isAscii key = true ↔ ∀ c ∈ key.toList, c.toNat < 0x80 := by
  simp [isAscii]

theorem ascii_eq_utf8 {key : String} (hkey : isAscii key = true) : ascii key = utf8 key := by
  rw [ascii, utf8, List.map_eq_flatMap]
  refine List.flatMap_congr fun c hc => ?_
  rw [← Daemon.Json.appendUtf8_char, Daemon.Json.appendUtf8_one (isAscii_iff.mp hkey c hc)]

theorem units_eq_utf16 {key : String} (hkey : isAscii key = true) : units key = utf16 key := by
  rw [units, utf16, List.map_eq_flatMap]
  refine List.flatMap_congr fun c hc => ?_
  rw [utf16Char, if_pos ((isAscii_iff.mp hkey c hc).trans (by decide))]
  rfl

theorem validUtf8_utf8 (text : String) : ValidUtf8 (utf8 text) := ⟨text.toList, rfl⟩

theorem nodup_seenMembers {members : List (Bytes × Json)} (hnodup : (members.map Prod.fst).Nodup)
    (hkeys : ∀ member ∈ members, ValidUtf8 member.1) :
    ((members.map fun m => (seenString m.1, seen m.2)).map Prod.fst).Nodup := by
  have hnames : (members.map fun m => (seenString m.1, seen m.2)).map Prod.fst =
      (members.map Prod.fst).map seenString := by rw [List.map_map, List.map_map]; rfl
  have hvalid : ∀ key ∈ members.map Prod.fst, ValidUtf8 key := by
    intro key hkey
    obtain ⟨m, hm, rfl⟩ := List.mem_map.mp hkey
    exact hkeys m hm
  rw [hnames]
  exact hnodup.map_on fun a ha b hb hsame => seenString_inj (hvalid a ha) (hvalid b hb) hsame

/-- A member is found under its name in the text, and what is missing is missing there. -/
theorem property_seen {key : String} (h : Publishable v) (hkey : isAscii key = true) :
    property (seen v) key = seen (v.field (ascii key)) := by
  have hunits : units key = seenString (ascii key) := by
    rw [units_eq_utf16 hkey, ascii_eq_utf8 hkey, seenString_utf8]
  have hvalid : ValidUtf8 (ascii key) := by
    rw [ascii_eq_utf8 hkey]
    exact validUtf8_utf8 key
  cases h with
  | @object members hnodup hkeys hvalues =>
    have hnodup' := nodup_seenMembers hnodup hkeys
    have hspelled : ∀ m ∈ members, seenString m.1 = seenString (ascii key) → m.1 = ascii key :=
      fun m hm hsame => seenString_inj (hkeys m hm) hvalid hsame
    have hlookup := lookup_map_key (g := seen) hspelled
    rw [property, hunits, seen, seenMembers_eq_map, JsonValue.field, lookup_reverse hnodup', hlookup, Json.field]
    cases members.lookup (ascii key) <;> rfl
  | null | bool _ | number _ | infinite | string _ | array _ => rfl

theorem stringOf_seen (h : Publishable v) : stringOf (seen v) = text v := by
  cases h with
  | @string value hvalid => rw [seen, stringOf, text, unicode_seenString hvalid, Option.getD_some]
  | null | bool _ | number _ | infinite | array _ | object _ _ _ => rfl

theorem stringOf_property {key : String} (h : Publishable v) (hkey : isAscii key = true) :
    stringOf (property (seen v) key) = text (v.field (ascii key)) := by
  rw [property_seen h hkey, stringOf_seen (h.field _)]

theorem elements_seen (v : Json) : elements (seen v) = (v.entries.map Prod.fst).map seen := by
  cases v with
  | array items => rw [seen, elements, seenItems_eq_map, Json.entries, List.zipIdx_map_fst]
  | number _ | null | bool _ | infinite | string _ | object _ => rfl

/-- If no name is given twice, the properties are the members. -/
theorem properties_seen (h : Publishable v) :
    properties (seen v) = (members v).map fun member => (seenString member.1, seen member.2) := by
  cases h with
  | @object found hnodup hkeys hvalues =>
    have hnodup' := nodup_seenMembers hnodup hkeys
    rw [seen, seenMembers_eq_map, properties, members]
    generalize (found.map fun m => (seenString m.1, seen m.2)) = entries at hnodup' ⊢
    rw [eraseDups_of_nodup hnodup', List.map_map]
    conv_rhs => rw [← List.map_id entries]
    refine List.map_congr_left fun entry hentry => ?_
    have hlookup : entries.lookup entry.1 = some entry.2 := (lookup_eq_some_iff_mem hnodup').mpr hentry
    simp only [Function.comp_apply, lookup_reverse hnodup', hlookup, Option.getD_some, id]
  | null | bool _ | number _ | infinite | string _ | array _ => rfl

end Publishable

section Numbers

/-- A number as it is read back. -/
def printedNumber (q : ℚ) : ℚ := numberOf (.number (NumberFormat.nearest (writtenNumber q)))

theorem numberOf_seen (v : Json) : numberOf (seen v) = printedNumber (number v) ∨ numberOf (seen v) = 0 := by
  cases v with
  | number value => exact Or.inl rfl
  | null | bool _ | infinite | string _ | array _ | object _ => exact Or.inr rfl

/-- A count arrives as it is. -/
theorem nearest_count {n : ℕ} (h : n < 9000000000000000) :
    (NumberFormat.nearest (writtenNumber n) : Number Binary64) = .finite (Binary64.ofCount n (by omega)) := by
  have hwritten : writtenNumber n = n := by
    have hlt : (n : ℚ) < 9000000000000000 := by exact_mod_cast h
    have hfloor : ((n : ℚ).floor : ℚ) = n := by
      have hint := Rat.floor_intCast (n : ℤ)
      rw [Int.cast_natCast] at hint
      rw [hint, Int.cast_natCast]
    rw [writtenNumber, if_pos ⟨hfloor.symm, by rwa [abs_of_nonneg (Nat.cast_nonneg n)]⟩]
  rw [hwritten]
  exact Binary64.nearest_natCast _

theorem numberOf_count {n : ℕ} (h : n < 9000000000000000) : numberOf (seen (.number n)) = n := by
  rw [seen, nearest_count h]
  rfl

end Numbers

section Document

/-- An entry with the loss percentage as it is read back. -/
def printedLive (live : Widget.Live) : Widget.Live := { live with lossPercent := printedNumber live.lossPercent }

def printedDocument (document : Widget.Document) : Widget.Document :=
  { document with clients := document.clients.map fun client => (client.1, client.2.map printedLive) }

/-- What a number field counts is not too large for a double. -/
def IsCount (v : Json) : Prop := ∃ n < 9000000000000000, v = .number (n : ℕ)

/-- The members that the widget reads of a destination. -/
structure IsEntry (entry : Json) : Prop where
  publishable : Publishable entry
  haveRtt : ∃ value, entry.field (ascii "have_rtt") = .bool value
  rttUs : IsCount (entry.field (ascii "rtt_us"))
  sent : IsCount (entry.field (ascii "sent"))
  received : IsCount (entry.field (ascii "received"))
  lossPercent : ∃ q, entry.field (ascii "loss_percent") = .number q

structure IsFamily (entry : Json) : Prop where
  publishable : Publishable entry
  available : ∃ value, entry.field (ascii "available") = .bool value

theorem IsCount.read {v : Json} (h : IsCount v) : numberOf (seen v) = number v := by
  obtain ⟨n, hlt, rfl⟩ := h
  exact numberOf_count hlt

theorem readLive_seen {entry : Json} (h : IsEntry entry) : readLive (seen entry) = printedLive (live entry) := by
  obtain ⟨value, hvalue⟩ := h.haveRtt
  obtain ⟨q, hq⟩ := h.lossPercent
  have hp := h.publishable
  unfold readLive live printedLive
  rw [stringOf_property hp rfl, stringOf_property hp rfl, stringOf_property hp rfl,
    stringOf_property hp rfl, property_seen hp rfl, property_seen hp rfl,
    property_seen hp rfl, property_seen hp rfl, property_seen hp rfl, h.rttUs.read,
    h.sent.read, h.received.read, hvalue, hq]
  rfl

theorem readFamily_seen {entry : Json} (h : IsFamily entry) : readFamily (seen entry) = family entry := by
  obtain ⟨value, hvalue⟩ := h.available
  unfold readFamily family
  rw [stringOf_property h.publishable rfl, property_seen h.publishable rfl, hvalue]
  rfl

/-- The members that the widget reads of the payload. -/
structure IsPayload (payload : Json) : Prop where
  publishable : Publishable payload
  generation : IsCount (payload.field (ascii "generation"))
  ipv4 : IsFamily ((payload.field (ascii "engine")).field (ascii "ipv4"))
  ipv6 : IsFamily ((payload.field (ascii "engine")).field (ascii "ipv6"))
  entries : ∀ client ∈ members (payload.field (ascii "clients")),
    ∀ slot ∈ (client.2.field (ascii "destinations")).entries, IsEntry slot.1

theorem readLives_seen {client : Json} (hpublishable : Publishable client)
    (hentries : ∀ slot ∈ (client.field (ascii "destinations")).entries, IsEntry slot.1) :
    readLives (seen client) = (lives client).map printedLive := by
  rw [readLives, property_seen hpublishable rfl, elements_seen, lives, List.map_map, List.map_map, List.map_map]
  exact List.map_congr_left fun slot hslot => readLive_seen (hentries slot hslot)

/-- The document comes through whole, but for the loss percentages, of which ten digits do. -/
theorem readDocument_seen {payload : Json} (h : IsPayload payload) :
    readDocument (seen payload) = printedDocument (document payload) := by
  have hp := h.publishable
  have hclients : (properties (property (seen payload) "clients")).map
      (fun member => (unicode member.1, readLives member.2)) =
      ((members (payload.field (ascii "clients"))).filterMap fun member =>
        (fromUtf8 member.1).map fun id => (id, lives member.2)).map
          fun client => (client.1, client.2.map printedLive) := by
    rw [property_seen hp rfl, properties_seen (hp.field _), List.map_map, List.map_filterMap,
      ← List.filterMap_eq_map]
    have hfield := hp.field (ascii "clients")
    have hentries := h.entries
    generalize payload.field (ascii "clients") = clients at hfield hentries
    cases hfield with
    | @object found hnodup hkeys hvalues =>
      refine List.filterMap_congr fun member hmember => ?_
      have hname := unicode_seenString (hkeys member hmember)
      have hlives := readLives_seen (hvalues member hmember) (hentries member hmember)
      simp only [Function.comp_apply, hname, Option.map_some, hlives]
    | null | bool _ | number _ | infinite | string _ | array _ => rfl
  obtain ⟨n, hlt, hn⟩ := h.generation
  unfold readDocument document printedDocument
  rw [hclients, property_seen hp rfl, property_seen hp rfl, property_seen (hp.field _) rfl,
    property_seen (hp.field _) rfl, readFamily_seen h.ipv4, readFamily_seen h.ipv6, hn, seen, nearest_count hlt]
  rfl

end Document

end NetworkHealth.Joint
