import NetworkHealth.Daemon.AsciiOnly
import NetworkHealth.Library.JsonReads
import NetworkHealth.Library.NumberText

/-! A JSON text of the daemon as the widget's engine reads it. The daemon writes ASCII only, so
each of its bytes is a character of the text, whatever its strings are made of. -/
namespace NetworkHealth.Joint
open Daemon (Bytes Json ascii)
open Daemon.Json (Token Piece tokens pieces writeString writeByte isControl writeNumber writeList write dump)
open CNumber (byte hexText intText generalText widen tenPlaces)

section Strings

/-- What a `\u` escape or a byte of ASCII comes to. -/
def codeUnit : Token → UInt16
  | .raw b => b.toUInt16
  | .unit u => UInt16.ofNat u

/-- A string of the daemon's, as it arrives. -/
def seenString (s : Bytes) : CodeUnits := (tokens s).map codeUnit

theorem hexValue_hexDigit {n : ℕ} (h : n < 16) : hexValue (CNumber.hexDigit n).toUInt16 = some n := by
  have hall : ∀ d : Fin 16, hexValue (CNumber.hexDigit d.val).toUInt16 = some d.val := by decide
  exact hall ⟨n, h⟩

theorem parseString_hexText {u : ℕ} (h : u < 0x10000) (rest : CodeUnits) :
    parseString (backslash :: unit 'u' :: (widen (hexText u) ++ rest)) =
      (parseString rest).map (putUnit (UInt16.ofNat u)) := by
  have hback : backslash ≠ quotationMark := by decide
  have hsum : 4096 * (u / 4096 % 16) + 256 * (u / 256 % 16) + 16 * (u / 16 % 16) + u % 16 = u := by omega
  have hunit : hexUnit (CNumber.hexDigit (u / 4096 % 16)).toUInt16 (CNumber.hexDigit (u / 256 % 16)).toUInt16
      (CNumber.hexDigit (u / 16 % 16)).toUInt16 (CNumber.hexDigit (u % 16)).toUInt16 = some (UInt16.ofNat u) := by
    simp only [hexUnit, hexValue_hexDigit (Nat.mod_lt _ (by decide : 0 < 16)), Option.bind_eq_bind, Option.bind_some, hsum]
  rw [parseString.eq_def]
  simp only [if_neg hback, if_true, hexText, CNumber.widen_cons, CNumber.widen_nil, List.cons_append, List.nil_append,
    hunit, Option.bind_some]

/-- The escape a byte of ASCII is written as, or the byte itself. -/
theorem writeByte_cases {b : UInt8} (hascii : b < 0x80) (hcontrol : isControl b = false) :
    (∃ e : UInt8, writeByte b = [Daemon.Json.backslash, e] ∧ unescape e.toUInt16 = some b.toUInt16 ∧
      e.toUInt16 ≠ unit 'u') ∨
    writeByte b = [b] ∧ b.toUInt16 ≠ quotationMark ∧ b.toUInt16 ≠ backslash ∧ ¬ b.toUInt16 < 32 := by
  have hall : ∀ n : Fin 128, isControl (UInt8.ofNat n.val) = false →
      (∃ e ∈ [34, 92, 98, 102, 110, 114, 116], writeByte (UInt8.ofNat n.val) = [Daemon.Json.backslash, e] ∧
        unescape e.toUInt16 = some (UInt8.ofNat n.val).toUInt16 ∧ e.toUInt16 ≠ unit 'u') ∨
      writeByte (UInt8.ofNat n.val) = [UInt8.ofNat n.val] ∧ (UInt8.ofNat n.val).toUInt16 ≠ quotationMark ∧
        (UInt8.ofNat n.val).toUInt16 ≠ backslash ∧ ¬ (UInt8.ofNat n.val).toUInt16 < 32 := by decide +kernel
  have hb := hall ⟨b.toNat, UInt8.lt_iff_toNat_lt.mp hascii⟩
  rw [UInt8.ofNat_toNat] at hb
  refine (hb hcontrol).imp_left ?_
  rintro ⟨e, -, he⟩
  exact ⟨e, he⟩

theorem parseString_token {t : Token} (hvalid : t.Valid) (hascii : ∀ b, t = .raw b → b < 0x80) (rest : CodeUnits) :
    parseString (widen t.text ++ rest) = (parseString rest).map (putUnit (codeUnit t)) := by
  have hbackslash : Daemon.Json.backslash.toUInt16 = backslash := by decide
  cases t with
  | unit u =>
    have hu : (byte 'u').toUInt16 = unit 'u' := by decide
    rw [Token.text, CNumber.widen_cons, CNumber.widen_cons, hbackslash, hu]
    exact parseString_hexText hvalid rest
  | raw b =>
    rcases writeByte_cases (hascii b rfl) hvalid with ⟨e, htext, hescape, hu⟩ | ⟨htext, hquote, hback, hlow⟩
    · rw [Token.text, htext, CNumber.widen_cons, CNumber.widen_cons, hbackslash]
      exact parseString_escape hescape hu rest
    · rw [Token.text, htext, CNumber.widen_cons, CNumber.widen_nil, List.cons_append, parseString.eq_def]
      simp only [if_neg hquote, if_neg hback, if_neg hlow]
      rfl

theorem ascii_of_mem_tokens {s : Bytes} {b : UInt8} (h : Token.raw b ∈ tokens s) : b < 0x80 := by
  obtain ⟨piece, hpiece, ht⟩ := List.mem_flatMap.mp h
  rcases Daemon.Json.mem_pieces hpiece with ⟨c, hc, rfl⟩ | rfl | ⟨codePoint, -, rfl⟩
  · simp only [Piece.tokens] at ht
    split_ifs at ht
    · simp at ht
    · obtain rfl : b = c := by simpa using ht
      exact hc
  · simp [Daemon.Json.replacement, Piece.tokens] at ht
  · simp only [Piece.tokens] at ht
    split_ifs at ht <;> simp at ht

theorem parseString_tokens {ts : List Token} (hvalid : ∀ t ∈ ts, t.Valid) (hascii : ∀ b, Token.raw b ∈ ts → b < 0x80)
    (rest : CodeUnits) :
    parseString (widen (ts.flatMap Token.text) ++ quotationMark :: rest) = some (ts.map codeUnit, rest) := by
  induction ts with
  | nil =>
    rw [List.flatMap_nil, CNumber.widen_nil, List.nil_append, parseString.eq_def]
    exact if_pos rfl
  | cons t ts ih =>
    have hrest := ih (fun t' ht' => hvalid t' (List.mem_cons_of_mem _ ht')) fun b hb =>
      hascii b (List.mem_cons_of_mem _ hb)
    have hfirst : ∀ b, t = .raw b → b < 0x80 := fun b hb => hascii b (hb ▸ List.mem_cons_self)
    rw [List.flatMap_cons, CNumber.widen_append, List.append_assoc,
      parseString_token (hvalid t List.mem_cons_self) hfirst, hrest]
    rfl

theorem stringReadsAs_writeString (s : Bytes) : StringReadsAs (widen (writeString true s)) (seenString s) := by
  have htext : writeString true s = Daemon.Json.quote :: ((tokens s).flatMap Token.text ++ [Daemon.Json.quote]) := by
    rw [writeString, Daemon.Json.flatMap_text, tokens, List.cons_append]
  have hquote : Daemon.Json.quote.toUInt16 = quotationMark := by decide
  refine ⟨widen ((tokens s).flatMap Token.text) ++ [quotationMark], ?_, fun rest => ?_⟩
  · rw [htext, CNumber.widen_cons, CNumber.widen_append, CNumber.widen_cons, CNumber.widen_nil, hquote]
  · rw [List.append_assoc]
    exact parseString_tokens Daemon.Json.valid_of_mem_tokens (fun b hb => ascii_of_mem_tokens hb) rest

end Strings

/-- The number that is read where one is written. -/
def writtenNumber (q : ℚ) : ℚ := if q = q.floor ∧ |q| < 9000000000000000 then q else tenPlaces q

theorem jsonNumber_writeNumber (q : ℚ) : jsonNumber (widen (writeNumber q)) = some (writtenNumber q) := by
  unfold writeNumber writtenNumber
  split_ifs with hinteger
  · rw [CNumber.jsonNumber_intText, ← hinteger.1]
  · exact CNumber.jsonNumber_generalText q

mutual

/-- A value as the engine reads it. -/
def seen : Json → JsonValue Binary64
  | .null => .null
  | .bool value => .bool value
  | .number value => .number (NumberFormat.nearest (writtenNumber value))
  | .infinite => .null
  | .string value => .string (seenString value)
  | .array items => .array (seenItems items)
  | .object members => .object (seenMembers members)

def seenItems : List Json → List (JsonValue Binary64)
  | [] => []
  | item :: rest => seen item :: seenItems rest

def seenMembers : List (Bytes × Json) → List (CodeUnits × JsonValue Binary64)
  | [] => []
  | (key, value) :: rest => (seenString key, seen value) :: seenMembers rest

end

theorem seenItems_eq_map (items : List Json) : seenItems items = items.map seen := by
  induction items with
  | nil => rfl
  | cons item rest ih => simp [seenItems, ih]

theorem seenMembers_eq_map (members : List (Bytes × Json)) :
    seenMembers members = members.map fun m => (seenString m.1, seen m.2) := by
  induction members with
  | nil => rfl
  | cons member rest ih => simp [seenMembers, ih]

section Dump

theorem widen_intercalate (texts : List Bytes) :
    widen ([byte ','].intercalate texts) = commaSeparated (texts.map widen) := by
  have hcomma : (byte ',').toUInt16 = unit ',' := by decide
  induction texts with
  | nil => rfl
  | cons text rest ih =>
    cases rest with
    | nil => simp [commaSeparated]
    | cons text' rest =>
      rw [List.intercalate_cons_cons, CNumber.widen_append, CNumber.widen_append, ih, CNumber.widen_cons,
        CNumber.widen_nil, hcomma, List.append_assoc]
      rfl

/-- On one line there is nothing between the items but commas. -/
theorem widen_writeList (depth : ℕ) (opening closing : UInt8) (texts : List Bytes) :
    widen (writeList (-1) depth opening closing texts) =
      opening.toUInt16 :: commaSeparated (texts.map widen) ++ [closing.toUInt16] := by
  have hline : ∀ depth, Daemon.Json.lineStart (-1) depth = [] := fun depth => rfl
  unfold writeList
  split_ifs with hnone
  · subst hnone
    rfl
  · simp only [hline, List.nil_append, List.map_id', List.append_nil, CNumber.widen_append, CNumber.widen_cons,
      CNumber.widen_nil, widen_intercalate]

variable (depth : ℕ)

theorem widen_array (items : List Json) : widen (write (-1) true depth (.array items)) =
    unit '[' :: commaSeparated (items.map fun item => widen (write (-1) true (depth + 1) item)) ++ [unit ']'] := by
  rw [write, Daemon.Json.writeItems_eq_map, widen_writeList, List.map_map]
  rfl

theorem widen_object (members : List (Bytes × Json)) : widen (write (-1) true depth (.object members)) =
    openBrace :: commaSeparated (members.map fun m =>
      widen (writeString true m.1) ++ unit ':' :: widen (write (-1) true (depth + 1) m.2)) ++ [closeBrace] := by
  have hcolon : (byte ':').toUInt16 = unit ':' := by decide
  have hmember : ∀ m : Bytes × Json, widen (writeString true m.1 ++ byte ':' :: (if 0 ≤ (-1 : ℤ) then [byte ' '] else []) ++
      write (-1) true (depth + 1) m.2) =
      widen (writeString true m.1) ++ unit ':' :: widen (write (-1) true (depth + 1) m.2) := by
    intro m
    rw [if_neg (by decide), List.append_assoc, CNumber.widen_append, List.cons_append, List.nil_append,
      CNumber.widen_cons, hcolon]
  rw [write, Daemon.Json.writeMembers_eq_map, widen_writeList, List.map_map]
  simp only [Function.comp_def, hmember]
  rfl

theorem starts_write (v : Json) : Starts (widen (write (-1) true depth v)) := by
  cases v with
  | null | infinite => exact ⟨unit 'n', units "ull", rfl, by decide, by decide⟩
  | bool value =>
    cases value
    · exact ⟨unit 'f', units "alse", rfl, by decide, by decide⟩
    · exact ⟨unit 't', units "rue", rfl, by decide, by decide⟩
  | number value => exact starts_number (jsonNumber_writeNumber value)
  | string value => exact (stringReadsAs_writeString value).starts
  | array items => exact ⟨unit '[', _, widen_array depth items, by decide, by decide⟩
  | object members => exact ⟨openBrace, _, widen_object depth members, by decide, by decide⟩

/-- The text of a value is read as the value that is seen, with its own length as fuel or more. -/
theorem readsAs_write {fuel : ℕ} {v : Json} (hfuel : (widen (write (-1) true depth v)).length ≤ fuel) :
    ReadsAs fuel (widen (write (-1) true depth v)) (seen v) := by
  induction fuel generalizing v depth with
  | zero =>
    obtain ⟨c, tail, htext, -⟩ := starts_write depth v
    simp [htext] at hfuel
  | succ fuel ih =>
    cases v with
    | null | infinite => exact readsAs_null fuel
    | bool value =>
      have htext : widen (write (-1) true depth (.bool value)) = if value then units "true" else units "false" := by
        cases value <;> rfl
      rw [htext]
      exact readsAs_bool fuel value
    | number value => exact readsAs_number (jsonNumber_writeNumber value) fuel
    | string value => exact (stringReadsAs_writeString value).readsAs fuel
    | array items =>
      rw [widen_array, List.length_append, List.length_cons, List.length_singleton] at hfuel
      rw [widen_array, seen, seenItems_eq_map]
      have hcount := count_le_commaSeparated (items.map fun item => widen (write (-1) true (depth + 1) item))
      rw [List.length_map] at hcount
      refine readsAs_array (fun item hitem => ih (depth + 1) ?_) (fun item _ => starts_write (depth + 1) item) (by omega)
      have hle := length_le_commaSeparated
        (List.mem_map_of_mem (f := fun item => widen (write (-1) true (depth + 1) item)) hitem)
      omega
    | object members =>
      rw [widen_object, List.length_append, List.length_cons, List.length_singleton] at hfuel
      rw [widen_object, seen, seenMembers_eq_map]
      have hcount := count_le_commaSeparated (members.map fun m =>
        widen (writeString true m.1) ++ unit ':' :: widen (write (-1) true (depth + 1) m.2))
      rw [List.length_map] at hcount
      refine readsAs_object (fun m _ => stringReadsAs_writeString m.1) (fun m hm => ih (depth + 1) ?_) (by omega)
      have hle := length_le_commaSeparated (List.mem_map_of_mem (f := fun m : Bytes × Json =>
        widen (writeString true m.1) ++ unit ':' :: widen (write (-1) true (depth + 1) m.2)) hm)
      simp only [List.length_append, List.length_cons] at hle
      omega

/-- `JSON.parse` never throws on what the daemon writes. -/
theorem parse_widen_dump (v : Json) : JsonValue.parse (widen (dump v (-1) true)) = some (seen v) :=
  parse_of_readsAs (readsAs_write 0 (Nat.le_succ _))

end Dump

end NetworkHealth.Joint
