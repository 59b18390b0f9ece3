import NetworkHealth.Daemon.Language
import NetworkHealth.Joint.Polled

/-! What `JSON.stringify` writes, as the daemon reads it: UTF-16 on one side and UTF-8 on the
other. The numbers are any text of a number that the engine itself would read. -/
namespace NetworkHealth.Joint
open Daemon (Bytes Json ascii)
open Daemon.Json.Grammar (Exponent Hex4 Blank escapes)
open Daemon.Json.Grammar.Dialect
open CNumber (byte widen isDigit_toUInt16 natOfDigits_widen)

section Spelling

/-- A text in both encodings. -/
def Spelled (cs : CodeUnits) (bytes : Bytes) : Prop :=
  ∃ text : List Char, cs = text.flatMap utf16Char ∧ bytes = text.flatMap String.utf8EncodeChar

variable {cs ds : CodeUnits} {a b : Bytes}

theorem spelled_nil : Spelled [] [] := ⟨[], rfl, rfl⟩

theorem Spelled.append (h : Spelled cs a) (h' : Spelled ds b) : Spelled (cs ++ ds) (a ++ b) := by
  obtain ⟨text, rfl, rfl⟩ := h
  obtain ⟨text', rfl, rfl⟩ := h'
  exact ⟨text ++ text', List.flatMap_append.symm, List.flatMap_append.symm⟩

theorem spelled_char (c : Char) : Spelled (utf16Char c) (String.utf8EncodeChar c) := ⟨[c], by simp, by simp⟩

theorem spelled_text (text : String) : Spelled (utf16 text) (utf8 text) := ⟨text.toList, rfl, rfl⟩

theorem spelled_byte {b : UInt8} (h : b < 0x80) : Spelled [b.toUInt16] [b] := by
  have hlt : b.toNat < 0x80 := UInt8.lt_iff_toNat_lt.mp h
  have hvalid : b.toNat.isValidChar := Or.inl (by omega)
  have hchar : (Char.ofNat b.toNat).toNat = b.toNat := Daemon.Json.Grammar.toNat_ofNat hvalid
  refine ⟨[Char.ofNat b.toNat], ?_, ?_⟩
  · rw [List.flatMap_singleton, utf16Char, hchar, if_pos (by omega)]
    congr 1
    rw [← UInt16.toNat_inj, UInt8.toNat_toUInt16, UInt16.toNat_ofNat', Nat.mod_eq_of_lt (by omega)]
  · rw [List.flatMap_singleton, ← Daemon.Json.appendUtf8_char, hchar, Daemon.Json.appendUtf8_one hlt, UInt8.ofNat_toNat]

theorem spelled_widen {bytes : Bytes} (h : ∀ b ∈ bytes, b < 0x80) : Spelled (widen bytes) bytes := by
  induction bytes with
  | nil => exact spelled_nil
  | cons b rest ih =>
    exact (spelled_byte (h b List.mem_cons_self)).append (ih fun c hc => h c (List.mem_cons_of_mem _ hc))

theorem spelled_ascii {key : String} (hkey : isAscii key = true) : Spelled (units key) (ascii key) := by
  rw [units_eq_utf16 hkey, ascii_eq_utf8 hkey]
  exact spelled_text key

/-- The bytes of the text that the code units stand for. -/
theorem Spelled.bytes (h : Spelled cs a) : utf8 (unicode cs) = a := by
  obtain ⟨text, rfl, rfl⟩ := h
  have hunits : text.flatMap utf16Char = utf16 (String.ofList text) := by rw [utf16, String.toList_ofList]
  rw [hunits, unicode_utf16, utf8, String.toList_ofList]

theorem spelled_commaSeparated {α : Type} {items : List α} {text : α → CodeUnits} {bytes : α → Bytes}
    (h : ∀ item ∈ items, Spelled (text item) (bytes item)) :
    Spelled (commaSeparated (items.map text)) ([byte ','].intercalate (items.map bytes)) := by
  have hcomma : Spelled [unit ','] [byte ','] := spelled_byte (b := byte ',') (by decide)
  induction items with
  | nil => exact spelled_nil
  | cons item rest ih =>
    have hfirst := h item List.mem_cons_self
    cases rest with
    | nil => simpa [commaSeparated] using hfirst
    | cons next rest =>
      have hrest := ih fun i hi => h i (List.mem_cons_of_mem _ hi)
      rw [List.map_cons, List.map_cons, List.map_cons, List.map_cons, List.intercalate_cons_cons, List.append_assoc]
      exact hfirst.append (hcomma.append hrest)

end Spelling

section Number

/-- Digits of the engine's, as bytes. -/
theorem exists_digits {cs : CodeUnits} (h : ∀ c ∈ cs, isDigit c = true) :
    ∃ ds : Bytes, widen ds = cs ∧ ∀ d ∈ ds, CNumber.isDigit d = true := by
  have hnarrow : widen (cs.map UInt16.toUInt8) = cs := by
    rw [widen, List.map_map]
    conv_rhs => rw [← List.map_id cs]
    refine List.map_congr_left fun c hc => ?_
    have hbounds : c.toNat ≤ 57 := by
      have hdigit := h c hc
      simp only [isDigit, Bool.and_eq_true, decide_eq_true_eq, UInt16.le_iff_toNat_le] at hdigit
      exact hdigit.2
    rw [Function.comp_apply, id, ← UInt16.toNat_inj, UInt8.toNat_toUInt16, UInt16.toNat_toUInt8]
    exact Nat.mod_eq_of_lt (by omega)
  refine ⟨cs.map UInt16.toUInt8, hnarrow, fun d hd => ?_⟩
  rw [← isDigit_toUInt16]
  exact h _ (hnarrow ▸ List.mem_map_of_mem hd)

theorem exists_digits_takeWhile (cs : CodeUnits) :
    ∃ ds : Bytes, widen ds = cs.takeWhile isDigit ∧ ∀ d ∈ ds, CNumber.isDigit d = true :=
  exists_digits fun _ hc => List.mem_takeWhile_imp hc

theorem exists_digitsOnly {cs : CodeUnits} {n : ℕ} (h : digitsOnly cs = some n) :
    ∃ ds : Daemon.Json.Grammar.Digits, widen ds.val = cs ∧ n = CNumber.natOfDigits ds.val := by
  unfold digitsOnly at h
  split_ifs at h with hdigits
  obtain ⟨ds, rfl, hall⟩ := exists_digits (List.all_eq_true.mp hdigits.2)
  refine ⟨⟨ds, fun hnil => hdigits.1 (by rw [hnil]; rfl), hall⟩, rfl, ?_⟩
  rw [natOfDigits_widen] at h
  exact (Option.some.inj h).symm

theorem exists_exponentToken {cs : CodeUnits} {e : ℤ} (h : scanExponent cs = some e) :
    ∃ exponent, widen (Daemon.Json.Grammar.exponentText exponent) = cs ∧
      Daemon.Json.Grammar.exponentValue exponent = e := by
  cases cs with
  | nil =>
    cases h
    exact ⟨none, rfl, rfl⟩
  | cons mark rest =>
    simp only [scanExponent] at h
    split_ifs at h with hmark
    have hcapital : (if decide (mark = unit 'E') = true then byte 'E' else byte 'e').toUInt16 = mark := by
      rcases hmark with rfl | rfl <;> decide
    have hsigns : (byte '-').toUInt16 = unit '-' ∧ (byte '+').toUInt16 = unit '+' := by decide
    cases rest with
    | nil => cases h
    | cons c rest =>
      simp only [scanSigned] at h
      split_ifs at h with hminus hplus
      · obtain ⟨n, hn, rfl⟩ := Option.map_eq_some_iff.mp h
        obtain ⟨ds, rfl, rfl⟩ := exists_digitsOnly hn
        refine ⟨some ⟨decide (mark = unit 'E'), some true, ds⟩, ?_, rfl⟩
        simp only [Daemon.Json.Grammar.exponentText, Exponent.text, Exponent.sign, List.cons_append, List.nil_append,
          CNumber.widen_cons, hcapital, hsigns, hminus]
      · obtain ⟨n, hn, rfl⟩ := Option.map_eq_some_iff.mp h
        obtain ⟨ds, rfl, rfl⟩ := exists_digitsOnly hn
        refine ⟨some ⟨decide (mark = unit 'E'), some false, ds⟩, ?_, rfl⟩
        simp only [Daemon.Json.Grammar.exponentText, Exponent.text, Exponent.sign, List.cons_append, List.nil_append,
          CNumber.widen_cons, hcapital, hsigns, hplus]
      · obtain ⟨n, hn, rfl⟩ := Option.map_eq_some_iff.mp h
        obtain ⟨ds, hds, rfl⟩ := exists_digitsOnly hn
        refine ⟨some ⟨decide (mark = unit 'E'), none, ds⟩, ?_, rfl⟩
        simp only [Daemon.Json.Grammar.exponentText, Exponent.text, Exponent.sign, List.cons_append, List.nil_append,
          CNumber.widen_cons, hcapital, hds]

/-- What stands behind the whole part of a decimal. -/
theorem exists_fractionToken {cs : CodeUnits} {d : Decimal} (h : scanDecimal cs = some d) :
    ∃ fraction tail, cs.dropWhile isDigit = widen (fractionText fraction) ++ tail ∧
      widen (fraction.getD []) = d.fractionDigits ∧ (∀ c ∈ fraction.getD [], CNumber.isDigit c = true) ∧
      scanExponent tail = some d.exponent := by
  simp only [scanDecimal] at h
  cases hrest : cs.dropWhile isDigit with
  | nil =>
    rw [hrest] at h
    cases h
    exact ⟨none, [], rfl, rfl, by simp, rfl⟩
  | cons c rest =>
    simp only [hrest] at h
    split_ifs at h with hpoint
    · obtain ⟨e, he, rfl⟩ := Option.map_eq_some_iff.mp h
      obtain ⟨ds, hds, hall⟩ := exists_digits_takeWhile rest
      have hbyte : (byte '.').toUInt16 = unit '.' := by decide
      refine ⟨some ds, rest.dropWhile isDigit, ?_, hds, hall, he⟩
      rw [fractionText, CNumber.widen_cons, hds, hbyte, List.cons_append, List.takeWhile_append_dropWhile, hpoint]
    · obtain ⟨e, he, rfl⟩ := Option.map_eq_some_iff.mp h
      exact ⟨none, c :: rest, rfl, rfl, by simp, he⟩

/-- A decimal of JSON, whatever sign it is to have. -/
theorem exists_decimalToken {cs : CodeUnits} {q : ℚ} (h : jsonDecimal cs = some q) (minus : Option Bool) :
    ∃ n : NumberToken, n.minus = minus ∧ widen n.unsigned = cs ∧ n.magnitude = q := by
  obtain ⟨d, hscan, hjson⟩ := Option.bind_eq_some_iff.mp h
  split_ifs at hjson with hisJson
  obtain ⟨whole, hwhole, hdigits⟩ := exists_digits_takeWhile cs
  obtain ⟨fraction, tail, hrest, hfraction, hall, htail⟩ := exists_fractionToken hscan
  obtain ⟨exponent, rfl, hexponent⟩ := exists_exponentToken htail
  have hwholeDigits : d.whole = widen whole := (whole_of_scanDecimal hscan).trans hwhole.symm
  have hne : whole ≠ [] := by
    rintro rfl
    simp [Decimal.isJson, hwholeDigits] at hisJson
  refine ⟨⟨minus, whole, fraction, exponent, hdigits, hall, Or.inl hne⟩, rfl, ?_, ?_⟩
  · rw [NumberToken.unsigned, CNumber.widen_append, CNumber.widen_append, ← hrest, hwhole,
      List.takeWhile_append_dropWhile]
  · have hvalue := Option.some.inj hjson
    rw [Decimal.value, hwholeDigits, ← hfraction, ← CNumber.widen_append, natOfDigits_widen, widen, List.length_map,
      ← hexponent] at hvalue
    exact hvalue

/-- Every number that the engine reads is one of the dialect. -/
theorem exists_numberToken {cs : CodeUnits} {q : ℚ} (h : jsonNumber cs = some q) :
    ∃ n : NumberToken, widen n.text = cs ∧ n.exact = q := by
  cases cs with
  | nil => cases h
  | cons c rest =>
    simp only [jsonNumber] at h
    split_ifs at h with hminus
    · obtain ⟨r, hr, rfl⟩ := Option.map_eq_some_iff.mp h
      obtain ⟨n, hsign, rfl, rfl⟩ := exists_decimalToken hr (some true)
      refine ⟨n, ?_, ?_⟩
      · have hbyte : (byte '-').toUInt16 = unit '-' := by decide
        rw [NumberToken.text, hsign, hminus, ← hbyte]
        rfl
      · rw [NumberToken.exact, if_pos hsign]
    · obtain ⟨n, hsign, hunsigned, rfl⟩ := exists_decimalToken h none
      refine ⟨n, ?_, ?_⟩
      · rw [NumberToken.text, hsign, ← hunsigned]
        rfl
      · rw [NumberToken.exact, if_neg (by simp [hsign])]

/-- The text of an integer is read as the integer, not as one that a double cannot hold. -/
theorem exists_token {x : Binary64} {z : ℤ} (h : x.val = z) :
    ∃ n : NumberToken, widen n.text = NumberFormat.text x ∧ n.InRange ∧ n.value = z := by
  obtain ⟨q, hq, hround⟩ : ∃ q, jsonNumber (NumberFormat.text x) = some q ∧ roundPlaces q = z ∧
      (z = 0 → roundPlaces q = q) := by
    by_cases hzero : x.val = 0
    · have htext : NumberFormat.text x = [unit '0'] := if_pos hzero
      have hz : (z : ℚ) = 0 := h.symm.trans hzero
      have hplaces : roundPlaces 0 = 0 := by simp [roundPlaces, roundEven]
      exact ⟨0, by rw [htext]; decide +kernel, hplaces.trans hz.symm, fun _ => hplaces⟩
    · obtain ⟨q, hq, hnearest⟩ := Binary64.nearest_text x
      have hplaces : roundPlaces q = x.val := by
        unfold Binary64.nearest at hnearest
        split_ifs at hnearest with hlt
        exact congrArg Subtype.val (Number.finite.inj hnearest)
      refine ⟨q, hq, hplaces.trans h, ?_⟩
      rintro rfl
      exact absurd (h.trans Int.cast_zero) hzero
  obtain ⟨n, htext, rfl⟩ := exists_numberToken hq
  refine ⟨n, htext, ⟨fun hover => ?_, ?_⟩, hround.1⟩
  · rw [CNumber.Overflows, hround.1, ← h] at hover
    exact absurd x.property.1 (not_lt.mpr hover)
  · by_cases hz : z = 0
    · exact fun hunder => hunder.2 (hround.2 hz)
    · refine CNumber.not_underflows ?_
      rw [hround.1, ← Int.cast_abs]
      exact_mod_cast Int.one_le_abs hz

theorem lt_of_mem_text (n : NumberToken) : ∀ b ∈ n.text, b < 0x80 := by
  intro b hb
  have hall : ∀ n : Fin 256, Daemon.Json.Parser.isNumberByte (UInt8.ofFin n) = true → UInt8.ofFin n < 0x80 := by
    decide +kernel
  exact hall b.toFin (n.isNumberByte_text b hb)

end Number

section Strings

/-- A character between the quotation marks. -/
def SpellsAs (cs : CodeUnits) (characters : List Character) (bytes : Bytes) : Prop :=
  Spelled cs (characters.flatMap Character.text) ∧
    ∀ rest, stringBytes (characters ++ rest) = bytes ++ stringBytes rest

theorem SpellsAs.append {cs ds : CodeUnits} {characters more : List Character} {a b : Bytes}
    (h : SpellsAs cs characters a) (h' : SpellsAs ds more b) : SpellsAs (cs ++ ds) (characters ++ more) (a ++ b) := by
  refine ⟨?_, fun rest => ?_⟩
  · rw [List.flatMap_append]
    exact h.1.append h'.1
  · rw [List.append_assoc, List.append_assoc, h.2, h'.2]

/-- Bytes that stand in a string as they are. -/
theorem exists_raw {bytes : Bytes} (h : ∀ b ∈ bytes, b ≠ 0x22 ∧ b ≠ 0x5c) : ∃ characters : List Character,
    characters.flatMap Character.text = bytes ∧ ∀ rest, stringBytes (characters ++ rest) = bytes ++ stringBytes rest := by
  induction bytes with
  | nil => exact ⟨[], rfl, fun rest => rfl⟩
  | cons b bytes ih =>
    obtain ⟨characters, htext, hbytes⟩ := ih fun c hc => h c (List.mem_cons_of_mem _ hc)
    refine ⟨.raw b (h b List.mem_cons_self) :: characters, congrArg (List.cons b) htext, fun rest => ?_⟩
    exact congrArg (List.cons b) (hbytes rest)

theorem spelled_raw {c : Char} (h : ∀ b ∈ String.utf8EncodeChar c, b ≠ 0x22 ∧ b ≠ 0x5c)
    (hunits : (utf16Char c).flatMap escapeUnit = utf16Char c) :
    ∃ characters, SpellsAs ((utf16Char c).flatMap escapeUnit) characters (String.utf8EncodeChar c) := by
  obtain ⟨characters, htext, hbytes⟩ := exists_raw h
  refine ⟨characters, ?_, hbytes⟩
  rw [hunits, htext]
  exact spelled_char c

theorem escapeUnit_of_le {u : UInt16} (h : 93 ≤ u.toNat) : escapeUnit u = [u] := by
  have hne : ∀ v : UInt16, v.toNat < 93 → u ≠ v := fun v hv hu => by
    rw [hu] at h
    omega
  have hlt : ¬ u < 32 := by
    rw [UInt16.lt_iff_toNat_lt, not_lt]
    exact le_trans (by decide) h
  unfold escapeUnit
  rw [if_neg (not_or.mpr ⟨hne _ (by decide), hne _ (by decide)⟩), if_neg (hne _ (by decide)),
    if_neg (hne _ (by decide)), if_neg (hne _ (by decide)), if_neg (hne _ (by decide)), if_neg (hne _ (by decide)),
    if_neg hlt]

/-- How a character of ASCII is written: a letter after a backslash, four hexadecimal digits, or as it is. -/
theorem escapeUnit_cases {n : ℕ} (h : n < 128) :
    (∃ letter : UInt8, (letter, UInt8.ofNat n) ∈ escapes ∧ escapeUnit (UInt16.ofNat n) = widen [0x5c, letter]) ∨
    (∃ hex : Hex4, hex.value = n ∧ n < 32 ∧ escapeUnit (UInt16.ofNat n) = widen (0x5c :: byte 'u' :: hex.text)) ∨
    escapeUnit (UInt16.ofNat n) = [UInt16.ofNat n] ∧ UInt8.ofNat n ≠ 0x22 ∧ UInt8.ofNat n ≠ 0x5c := by
  let hex (n : ℕ) : Hex4 := ⟨⟨0, false⟩, ⟨0, false⟩, ⟨Fin.ofNat 16 (n / 16), false⟩, ⟨Fin.ofNat 16 (n % 16), false⟩⟩
  have hall : ∀ n : Fin 128,
      (∃ e ∈ escapes, e.2 = UInt8.ofNat n.val ∧ escapeUnit (UInt16.ofNat n.val) = widen [0x5c, e.1]) ∨
      ((hex n.val).value = n.val ∧ n.val < 32 ∧
        escapeUnit (UInt16.ofNat n.val) = widen (0x5c :: byte 'u' :: (hex n.val).text)) ∨
      escapeUnit (UInt16.ofNat n.val) = [UInt16.ofNat n.val] ∧ UInt8.ofNat n.val ≠ 0x22 ∧ UInt8.ofNat n.val ≠ 0x5c := by
    decide +kernel
  obtain ⟨e, he, hvalue, htext⟩ | ⟨hvalue, hlt, htext⟩ | hraw := hall ⟨n, h⟩
  · exact Or.inl ⟨e.1, by rwa [← hvalue], htext⟩
  · exact Or.inr (Or.inl ⟨hex n, hvalue, hlt, htext⟩)
  · exact Or.inr (Or.inr hraw)

/-- A character as the engine writes it down. -/
theorem exists_spellsAs (c : Char) :
    ∃ characters, SpellsAs ((utf16Char c).flatMap escapeUnit) characters (String.utf8EncodeChar c) := by
  by_cases hascii : c.toNat < 128
  · have hunits : utf16Char c = [UInt16.ofNat c.toNat] := if_pos (by omega)
    have hbytes : String.utf8EncodeChar c = [UInt8.ofNat c.toNat] := by
      rw [← Daemon.Json.appendUtf8_char, Daemon.Json.appendUtf8_one hascii]
    obtain ⟨letter, hmem, htext⟩ | ⟨hex, hvalue, hlt, htext⟩ | ⟨htext, hraw⟩ := escapeUnit_cases hascii
    · refine ⟨[.escape letter _ hmem], ?_, fun rest => by rw [hbytes]; rfl⟩
      have hletter : escapes.all (fun e => e.1 < 0x80) = true := rfl
      rw [hunits, List.flatMap_singleton, htext, List.flatMap_singleton, Character.text]
      refine spelled_widen fun b hb => ?_
      rcases List.mem_cons.mp hb with rfl | hb
      · decide
      · rw [List.mem_singleton.mp hb]
        exact of_decide_eq_true (List.all_eq_true.mp hletter _ hmem)
    · refine ⟨[.unit hex], ?_, fun rest => ?_⟩
      · have hdigit : ∀ digit : Daemon.Json.Grammar.HexDigit, digit.byte < 0x80 := by
          rintro ⟨value, capital⟩
          revert value capital
          decide
        rw [hunits, List.flatMap_singleton, htext, List.flatMap_singleton, Character.text]
        refine spelled_widen fun b hb => ?_
        simp only [Hex4.text, List.mem_cons, List.not_mem_nil, or_false] at hb
        rcases hb with rfl | rfl | rfl | rfl | rfl | rfl
        · decide
        · decide
        all_goals exact hdigit _
      · have hunit : unitBytes hex.value = String.utf8EncodeChar c := by
          have hvalid : c.toNat.isValidChar := c.valid
          rw [unitBytes, hvalue, if_pos hvalid, Char.ofNat_toNat]
        rw [List.singleton_append, stringBytes_unit (Or.inl (by omega)), hunit]
    · refine spelled_raw ?_ ?_
      · rw [hbytes, List.forall_mem_singleton]
        exact hraw
      · rw [hunits, List.flatMap_singleton, htext]
  · rw [not_lt] at hascii
    refine spelled_raw (fun b hb => ?_) ?_
    · rw [← Daemon.Json.appendUtf8_char] at hb
      have hhigh := Daemon.Json.le_of_mem_appendUtf8 hascii ((Daemon.Json.toNat_lt c).trans (by decide)) hb
      constructor <;> rintro rfl <;> exact absurd hhigh (by decide)
    · have hself : ∀ u ∈ utf16Char c, escapeUnit u = [u] := by
        intro u hu
        refine escapeUnit_of_le ?_
        have hlt := Daemon.Json.toNat_lt c
        simp only [utf16Char] at hu
        split_ifs at hu with hbasic
        · rw [List.mem_singleton.mp hu, UInt16.toNat_ofNat', Nat.mod_eq_of_lt hbasic]
          omega
        · simp only [List.mem_cons, List.not_mem_nil, or_false] at hu
          rcases hu with rfl | rfl <;> rw [UInt16.toNat_ofNat', Nat.mod_eq_of_lt (by omega)] <;> omega
      rw [List.flatMap_congr hself, List.flatMap_singleton']

theorem exists_quoted (text : String) : ∃ characters,
    Spelled (quote (utf16 text)) (stringText characters) ∧ stringBytes characters = utf8 text := by
  have hall : ∀ cs : List Char, ∃ characters,
      SpellsAs ((cs.flatMap utf16Char).flatMap escapeUnit) characters (cs.flatMap String.utf8EncodeChar) := by
    intro cs
    induction cs with
    | nil => exact ⟨[], spelled_nil, fun rest => rfl⟩
    | cons c cs ih =>
      obtain ⟨characters, hfirst⟩ := exists_spellsAs c
      obtain ⟨more, hrest⟩ := ih
      refine ⟨characters ++ more, ?_⟩
      rw [List.flatMap_cons, List.flatMap_append, List.flatMap_cons]
      exact hfirst.append hrest
  obtain ⟨characters, hspelled, hbytes⟩ := hall text.toList
  have hmark : Spelled [quotationMark] [0x22] := spelled_byte (b := 0x22) (by decide)
  have hall := hbytes []
  rw [List.append_nil, stringBytes, List.append_nil] at hall
  exact ⟨characters, hmark.append (hspelled.append hmark), hall⟩

end Strings

section Values

/-- A value of the engine's and the value that is meant by it, nested so many levels deep at most. The
strings are text, the numbers integers, and no property is named twice. -/
inductive Sends : ℕ → JsonValue Binary64 → Json → Prop
  | null (levels : ℕ) : Sends (levels + 1) .null .null
  | bool (levels : ℕ) (value : Bool) : Sends (levels + 1) (.bool value) (.bool value)
  | number (levels : ℕ) {x : Binary64} {z : ℤ} (h : x.val = z) : Sends (levels + 1) (.number (.finite x)) (.number z)
  | string (levels : ℕ) (text : String) : Sends (levels + 1) (.string (utf16 text)) (.string (utf8 text))
  | array (levels : ℕ) (items : List (JsonValue Binary64 × Json)) (h : ∀ item ∈ items, Sends levels item.1 item.2) :
      Sends (levels + 1) (.array (items.map Prod.fst)) (.array (items.map Prod.snd))
  | object (levels : ℕ) (members : List (String × JsonValue Binary64 × Json)) (hnodup : (members.map Prod.fst).Nodup)
      (h : ∀ m ∈ members, Sends levels m.2.1 m.2.2) :
      Sends (levels + 1) (.object (members.map fun m => (utf16 m.1, m.2.1)))
        (.object (members.map fun m => (utf8 m.1, m.2.2)))

def noBlank : Blank := ⟨[], fun _ h => absurd h List.not_mem_nil⟩

/-- The bytes of what the engine writes are a text of the value that is meant. -/
theorem Sends.exists_bytes {levels : ℕ} {v : JsonValue Binary64} {w : Json} (h : Sends levels v w) :
    ∃ bytes, Spelled v.stringify bytes ∧ Denotes levels bytes w := by
  induction h with
  | null levels =>
    have hnull : Spelled (units "null") (ascii "null") := spelled_ascii rfl
    exact ⟨ascii "null", hnull, .null levels⟩
  | bool levels value =>
    refine ⟨_, ?_, .bool levels value⟩
    cases value
    · have hfalse : Spelled (units "false") (ascii "false") := spelled_ascii rfl
      exact hfalse
    · have htrue : Spelled (units "true") (ascii "true") := spelled_ascii rfl
      exact htrue
  | number levels hx =>
    obtain ⟨n, htext, hrange, hvalue⟩ := exists_token hx
    rw [← hvalue]
    refine ⟨_, ?_, .number levels n hrange⟩
    rw [JsonValue.stringify, ← htext]
    exact spelled_widen (lt_of_mem_text n)
  | string levels text =>
    obtain ⟨characters, hspelled, hbytes⟩ := exists_quoted text
    rw [← hbytes]
    exact ⟨_, hspelled, .string levels characters⟩
  | array levels items h ih =>
    choose! bytes hspelled hdenotes using ih
    have hbytes := Denotes.array levels (items.map fun item => ⟨noBlank, (bytes item, item.2), noBlank⟩) noBlank
      fun e he => by
        obtain ⟨item, hitem, rfl⟩ := List.mem_map.mp he
        exact hdenotes item hitem
    rw [List.map_map, List.map_map] at hbytes
    refine ⟨_, ?_, hbytes⟩
    rw [JsonValue.stringify, JsonValue.stringifyItems_eq_map, List.map_map]
    have hopening : Spelled [unit '['] [byte '['] := spelled_byte (b := byte '[') (by decide)
    have hclosing : Spelled [unit ']'] [byte ']'] := spelled_byte (b := byte ']') (by decide)
    have hitems := (hopening.append (spelled_commaSeparated hspelled)).append hclosing
    simpa [Function.comp_def, Daemon.Json.Grammar.Padded.wrap, noBlank] using hitems
  | object levels members hnodup h ih =>
    choose! bytes hspelled hdenotes using ih
    choose characters hquoted hname using exists_quoted
    have hbytes := Denotes.object levels (members.map fun m =>
      (⟨noBlank, characters m.1, noBlank⟩, ⟨noBlank, (bytes m, m.2.2), noBlank⟩)) noBlank fun e he => by
        obtain ⟨m, hm, rfl⟩ := List.mem_map.mp he
        exact hdenotes m hm
    have hnames : ((members.map fun m => (utf8 m.1, m.2.2)).map Prod.fst).Nodup := by
      rw [List.map_map]
      have hmap : members.map (Prod.fst ∘ fun m => (utf8 m.1, m.2.2)) = (members.map Prod.fst).map utf8 := by
        rw [List.map_map]
        rfl
      rw [hmap]
      exact hnodup.map utf8_injective
    simp only [List.map_map, Function.comp_def, hname] at hbytes
    rw [Daemon.Json.Grammar.lastWins_eq_self hnames] at hbytes
    refine ⟨_, ?_, hbytes⟩
    rw [JsonValue.stringify, JsonValue.stringifyMembers_eq_map, List.map_map]
    have hopening : Spelled [openBrace] [Daemon.Json.openBrace] := spelled_byte (b := Daemon.Json.openBrace) (by decide)
    have hclosing : Spelled [closeBrace] [Daemon.Json.closeBrace] :=
      spelled_byte (b := Daemon.Json.closeBrace) (by decide)
    have hcolon : Spelled [unit ':'] [byte ':'] := spelled_byte (b := byte ':') (by decide)
    have hmembers := (hopening.append (spelled_commaSeparated fun m hm =>
      (hquoted m.1).append (hcolon.append (hspelled m hm)))).append hclosing
    simpa [Function.comp_def, Daemon.Json.Grammar.Padded.wrap, noBlank] using hmembers

/-- The base64 of a text is that of its bytes, and a value of the engine's is a text. -/
theorem Sends.parse_file {levels : ℕ} {v : JsonValue Binary64} {w : Json} (h : Sends levels v w) (hlevels : levels = 64)
    {btoa : CodeUnits → Bytes} (hbtoa : ∀ text : String, btoa (utf16 text) = Daemon.base64Encode (utf8 text)) :
    ∃ file, Base64.decode (btoa v.stringify) = some file ∧ Json.parse file = (w, []) := by
  subst hlevels
  obtain ⟨bytes, ⟨text, hunits, hbytes⟩, hdenotes⟩ := h.exists_bytes
  have hunits : v.stringify = utf16 (String.ofList text) := by rw [hunits, utf16, String.toList_ofList]
  have hbytes : bytes = utf8 (String.ofList text) := by rw [hbytes, utf8, String.toList_ofList]
  refine ⟨bytes, ?_, parse_of_isDocument ⟨noBlank, bytes, noBlank, by simp [noBlank], hdenotes⟩⟩
  rw [hunits, hbtoa, ← hbytes, Daemon.decode_base64Encode]

end Values

section Configuration

def integer (z : ℤ) : JsonValue Binary64 := .number (NumberFormat.nearest (z : ℚ))

def destinationValue (d : Widget.Destination) : JsonValue Binary64 :=
  .object [
    (units "id", .string (utf16 d.id)),
    (units "name", .string (utf16 d.name)),
    (units "address", .string (utf16 d.address)),
    (units "order", integer d.order),
    (units "threshold_us", integer d.thresholdUs),
    (units "sensitivity", integer d.sensitivity),
    (units "enabled", .bool d.enabled),
    (units "part_time", .bool d.partTime)]

/-- The `payload` of `daemonConfig`. -/
def configValue (config : Widget.DaemonConfig) : JsonValue Binary64 :=
  .object [
    (units "version", integer 1),
    (units "client", .string (utf16 config.client)),
    (units "interval_ms", integer config.intervalMs),
    (units "timeout_ms", integer config.timeoutMs),
    (units "destinations", .array (config.destinations.map destinationValue))]

/-- What `base64 -d` leaves of the file that `writeConfig` makes. -/
def configFile (btoa : CodeUnits → Bytes) (config : Widget.DaemonConfig) : Option Bytes :=
  Base64.decode (btoa (configValue config).stringify)

/-- A number that a double holds as it is, and its sum with a half too. -/
def Exact (z : ℤ) : Prop := |z| < 2 ^ 52

instance (z : ℤ) : Decidable (Exact z) := inferInstanceAs (Decidable (_ < _))

structure ExactNumbers (config : Widget.DaemonConfig) : Prop where
  interval : Exact config.intervalMs
  timeout : Exact config.timeoutMs
  destinations : ∀ d ∈ config.destinations, Exact d.order ∧ Exact d.thresholdUs ∧ Exact d.sensitivity

/-- The names of the source are the same in both encodings. -/
theorem sends_object (levels : ℕ) (members : List (String × JsonValue Binary64 × Json))
    (hascii : (members.map Prod.fst).all isAscii = true) (hnodup : (members.map Prod.fst).Nodup)
    (h : ∀ m ∈ members, Sends levels m.2.1 m.2.2) :
    Sends (levels + 1) (.object (members.map fun m => (units m.1, m.2.1)))
      (.object (members.map fun m => (ascii m.1, m.2.2))) := by
  have hname : ∀ m ∈ members, units m.1 = utf16 m.1 ∧ ascii m.1 = utf8 m.1 := fun m hm => by
    have hkey := List.all_eq_true.mp hascii m.1 (List.mem_map_of_mem hm)
    exact ⟨units_eq_utf16 hkey, ascii_eq_utf8 hkey⟩
  have hunits : members.map (fun m => (units m.1, m.2.1)) = members.map fun m => (utf16 m.1, m.2.1) :=
    List.map_congr_left fun m hm => by rw [(hname m hm).1]
  have hbytes : members.map (fun m => (ascii m.1, m.2.2)) = members.map fun m => (utf8 m.1, m.2.2) :=
    List.map_congr_left fun m hm => by rw [(hname m hm).2]
  rw [hunits, hbytes]
  exact .object levels members hnodup h

theorem sends_integer (levels : ℕ) {z : ℤ} (h : Exact z) : Sends (levels + 1) (integer z) (.number z) := by
  have hz : Representable (z : ℚ) := CNumber.representable_intCast (h.le.trans (by norm_num))
  have hnearest : (NumberFormat.nearest (z : ℚ) : Number Binary64) = .finite ⟨z, hz⟩ :=
    Binary64.nearest_val ⟨z, hz⟩
  rw [integer, hnearest]
  exact .number levels rfl

theorem sends_destination (levels : ℕ) {d : Widget.Destination}
    (h : Exact d.order ∧ Exact d.thresholdUs ∧ Exact d.sensitivity) :
    Sends (levels + 2) (destinationValue d) (destinationJson d) := by
  refine sends_object (levels + 1) [
    ("id", .string (utf16 d.id), .string (utf8 d.id)),
    ("name", .string (utf16 d.name), .string (utf8 d.name)),
    ("address", .string (utf16 d.address), .string (utf8 d.address)),
    ("order", integer d.order, .number d.order),
    ("threshold_us", integer d.thresholdUs, .number d.thresholdUs),
    ("sensitivity", integer d.sensitivity, .number d.sensitivity),
    ("enabled", .bool d.enabled, .bool d.enabled),
    ("part_time", .bool d.partTime, .bool d.partTime)] (by simp only [List.map_cons, List.map_nil]; decide +kernel)
    (by simp only [List.map_cons, List.map_nil]; decide) ?_
  simp only [List.forall_mem_cons]
  exact ⟨.string levels _, .string levels _, .string levels _, sends_integer levels h.1, sends_integer levels h.2.1,
    sends_integer levels h.2.2, .bool levels _, .bool levels _, by simp⟩

theorem sends_config (levels : ℕ) {config : Widget.DaemonConfig} (h : ExactNumbers config) :
    Sends (levels + 4) (configValue config) (configJson config) := by
  have hlist := Sends.array (levels + 2) (config.destinations.map fun d => (destinationValue d, destinationJson d))
    fun item hitem => by
      obtain ⟨d, hd, rfl⟩ := List.mem_map.mp hitem
      exact sends_destination levels (h.destinations d hd)
  rw [List.map_map, List.map_map] at hlist
  refine sends_object (levels + 3) [
    ("version", integer 1, .number 1),
    ("client", .string (utf16 config.client), .string (utf8 config.client)),
    ("interval_ms", integer config.intervalMs, .number config.intervalMs),
    ("timeout_ms", integer config.timeoutMs, .number config.timeoutMs),
    ("destinations", .array (config.destinations.map destinationValue),
      .array (config.destinations.map destinationJson))] (by simp only [List.map_cons, List.map_nil]; decide +kernel)
    (by simp only [List.map_cons, List.map_nil]; decide) ?_
  simp only [List.forall_mem_cons]
  have hone : Exact 1 := by decide
  have hversion := sends_integer (levels + 2) hone
  rw [Int.cast_one] at hversion
  exact ⟨hversion, .string _ _, sends_integer _ h.interval, sends_integer _ h.timeout, hlist, by simp⟩

end Configuration

section Loaded

/-- `toInt` adds the half in double, and nothing of such a sum is lost. -/
theorem Exact.roundPlaces_half {z : ℤ} (h : Exact z) :
    roundPlaces ((z : ℚ) + 1 / 2) = z + 1 / 2 ∧ roundPlaces ((z : ℚ) - 1 / 2) = z - 1 / 2 := by
  have hodd : ∀ n : ℤ, |n| ≤ 2 ^ 53 → Representable ((n : ℚ) / 2) := by
    intro n hn
    have hle : |(n : ℚ)| ≤ 2 ^ 53 := by exact_mod_cast hn
    refine ⟨?_, n, -1, hn, by norm_num, by rw [zpow_neg_one, div_eq_mul_inv]⟩
    rw [abs_div, abs_two]
    exact ((half_le_self (abs_nonneg _)).trans hle).trans_lt (pow_lt_pow_right₀ (by norm_num) (by norm_num))
  obtain ⟨hlow, hhigh⟩ := abs_lt.mp h
  have habove := (hodd (2 * z + 1) (abs_le.mpr (by omega))).roundPlaces_eq
  have hbelow := (hodd (2 * z - 1) (abs_le.mpr (by omega))).roundPlaces_eq
  push_cast at habove hbelow
  rw [add_div, mul_div_cancel_left₀ _ two_ne_zero] at habove
  rw [sub_div, mul_div_cancel_left₀ _ two_ne_zero] at hbelow
  exact ⟨habove, hbelow⟩

theorem toInt_integer {z : ℤ} (h : Exact z) (default : ℤ) : (Json.number z).toInt default = z := by
  have hbounds := abs_lt.mp h
  have hfloor : ∀ n : ℤ, ((n : ℚ) + 1 / 2).floor = n := by
    intro n
    refine le_antisymm (Int.lt_add_one_iff.mp (Rat.floor_lt_iff.mpr ?_)) (Rat.le_floor_iff.mpr (by linarith))
    push_cast
    linarith
  have hin : -(2 ^ 63) ≤ z ∧ z < 2 ^ 63 := by omega
  by_cases hneg : (z : ℚ) < 0
  · have hhalf : -((z : ℚ) - 1 / 2) = (-z : ℤ) + 1 / 2 := by
      push_cast
      ring
    have hbelow : (z : ℚ) - 1 / 2 < 0 := by linarith
    rw [Json.toInt, if_pos hneg, Daemon.toLongLong, if_pos hbelow, hhalf, hfloor, neg_neg]
    exact if_pos hin
  · have habove : ¬ (z : ℚ) + 1 / 2 < 0 := by linarith
    rw [Json.toInt, if_neg hneg, Daemon.toLongLong, if_neg habove, hfloor]
    exact if_pos hin

/-- A destination of the widget's as the daemon starts with it, in its place of the list. What has no
address is left out. -/
def takenOver (d : Widget.Destination) (i : ℕ) : Option Daemon.Destination :=
  let address := Daemon.trimmed (utf8 d.address)
  if address = [] then none
  else some {
    id := if d.id = "" then ascii "d" ++ Daemon.decimal i else utf8 d.id
    name := utf8 d.name
    address := address
    order := Daemon.toInt32 d.order
    thresholdUs := (Daemon.clampValue d.thresholdUs 1 60000000).toNat
    sensitivity := (Daemon.clampValue d.sensitivity 0 1000).toNat
    enabled := d.enabled
    partTime := d.partTime
    prober := none
    state := .unknown
    candidate := .unknown
    candidateStreak := 0
    haveRtt := false
    rttUs := 0
    sent := 0
    received := 0
    lastReplyRealUs := 0
    lastChangeRealUs := 0
    samples := [] }

theorem loadDestination_eq {d : Widget.Destination} (h : Exact d.order ∧ Exact d.thresholdUs ∧ Exact d.sensitivity)
    (i : ℕ) : Daemon.loadDestination (destinationJson d) i = takenOver d i := by
  have hfields : (destinationJson d).field (ascii "id") = .string (utf8 d.id) ∧
      (destinationJson d).field (ascii "name") = .string (utf8 d.name) ∧
      (destinationJson d).field (ascii "address") = .string (utf8 d.address) ∧
      (destinationJson d).field (ascii "order") = .number d.order ∧
      (destinationJson d).field (ascii "threshold_us") = .number d.thresholdUs ∧
      (destinationJson d).field (ascii "sensitivity") = .number d.sensitivity ∧
      (destinationJson d).field (ascii "enabled") = .bool d.enabled ∧
      (destinationJson d).field (ascii "part_time") = .bool d.partTime := ⟨rfl, rfl, rfl, rfl, rfl, rfl, rfl, rfl⟩
  obtain ⟨hid, hname, haddress, horder, hthreshold, hsensitivity, henabled, hpartTime⟩ := hfields
  have hempty : utf8 d.id = [] ↔ d.id = "" := ⟨fun hnil => utf8_injective hnil, fun he => by rw [he]; rfl⟩
  unfold destinationJson at *
  unfold Daemon.loadDestination takenOver
  simp only [hid, hname, haddress, horder, hthreshold, hsensitivity, henabled, hpartTime, Json.toString, Json.toBool,
    Json.isNull, toInt_integer h.1, toInt_integer h.2.1, toInt_integer h.2.2, hempty]
  rfl

/-- The client that the daemon makes of a configuration. -/
def clientOf (options : Daemon.Options) (path id : Bytes) (config : Widget.DaemonConfig) : Daemon.Client where
  id := id
  path := path
  intervalUs := (Daemon.clampValue config.intervalMs 100 3600000).toNat * 1000
  timeoutUs := (Daemon.clampValue config.timeoutMs 50 60000).toNat * 1000
  destinations := (config.destinations.zipIdx.filterMap fun (d, i) => takenOver d i).take options.maxDestinations

theorem loadClientFile_eq (options : Daemon.Options) (path id : Bytes) {config : Widget.DaemonConfig}
    (h : ExactNumbers config) :
    Daemon.loadClientFile options path id (configJson config) = some (clientOf options path id config) := by
  have hlist : ((config.destinations.map destinationJson).zipIdx.filterMap fun slot =>
      Daemon.loadDestination slot.1 slot.2) = config.destinations.zipIdx.filterMap fun (d, i) => takenOver d i := by
    rw [List.zipIdx_map, List.filterMap_map]
    refine List.filterMap_congr fun slot hslot => ?_
    exact loadDestination_eq (h.destinations _ (List.fst_mem_of_mem_zipIdx hslot)) slot.2
  have hfields : (configJson config).field (ascii "interval_ms") = .number config.intervalMs ∧
      (configJson config).field (ascii "timeout_ms") = .number config.timeoutMs ∧
      (configJson config).field (ascii "destinations") = .array (config.destinations.map destinationJson) :=
    ⟨rfl, rfl, rfl⟩
  obtain ⟨hinterval, htimeout, hdestinations⟩ := hfields
  unfold configJson at *
  rw [Daemon.loadClientFile, hinterval, htimeout, hdestinations, toInt_integer h.interval, toInt_integer h.timeout,
    Json.entries, clientOf, ← hlist]

/-- The daemon reads the file that the widget writes: the text is taken for the configuration that was
meant, whatever characters are in its strings, and a reload makes of it the client that was configured,
up to the bounds of the daemon's. -/
theorem loadClientFile_configFile {btoa : CodeUnits → Bytes}
    (hbtoa : ∀ text : String, btoa (utf16 text) = Daemon.base64Encode (utf8 text)) {config : Widget.DaemonConfig}
    (h : ExactNumbers config) (options : Daemon.Options) (path id : Bytes) :
    ∃ file, configFile btoa config = some file ∧ Json.parse file = (configJson config, []) ∧
      Daemon.loadClientFile options path id (Json.parse file).1 = some (clientOf options path id config) := by
  obtain ⟨file, hfile, hparse⟩ := (sends_config 60 h).parse_file rfl hbtoa
  refine ⟨file, hfile, hparse, ?_⟩
  rw [hparse]
  exact loadClientFile_eq options path id h

/-- A name with a quotation mark, a line feed and a character beyond the basic plane, and an address that is
blank. -/
theorem loadClientFile_configFile_quoted :
    let config : Widget.DaemonConfig := ⟨"w", 1000, 20, [⟨"r", "\"é\n😀", " 192.0.2.1 ", 0, 1500, 3, true, false⟩,
      ⟨"s", "", "  ", 1, 1000, 3, true, false⟩]⟩
    let options : Daemon.Options := ⟨[], 1000000, 0, 0, 50, by decide, by decide⟩
    let btoa := fun cs => Daemon.base64Encode (utf8 (unicode cs))
    ∃ file, configFile btoa config = some file ∧
      ∃ client, Daemon.loadClientFile options [] (ascii "w") (Json.parse file).1 = some client ∧
        client.timeoutUs = 50000 ∧ client.destinations.map (fun d => (d.name, d.address, d.thresholdUs)) =
          [([0x22, 0xc3, 0xa9, 0x0a, 0xf0, 0x9f, 0x98, 0x80], ascii "192.0.2.1", 1500)] := by
  intro config options btoa
  have hexact : ExactNumbers config := ⟨by decide, by decide, by simp only [config]; decide⟩
  have hbtoa : ∀ text : String, btoa (utf16 text) = Daemon.base64Encode (utf8 text) := fun text =>
    congrArg (fun t => Daemon.base64Encode (utf8 t)) (unicode_utf16 text)
  obtain ⟨file, hfile, -, hloaded⟩ := loadClientFile_configFile hbtoa hexact options [] (ascii "w")
  exact ⟨file, hfile, _, hloaded, by decide, by decide +kernel⟩

end Loaded

end NetworkHealth.Joint
