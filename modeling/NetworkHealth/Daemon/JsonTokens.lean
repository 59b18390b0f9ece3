import NetworkHealth.Daemon.Grammar
import NetworkHealth.Daemon.JsonReading
import NetworkHealth.Daemon.Utf8

/-! The parser reads every token of the grammar: blanks are skipped, numbers converted as a
whole, and every character and escape of a string adds the bytes it denotes. -/
namespace NetworkHealth.Daemon.Json.Grammar
open NetworkHealth.Daemon.Json.Parser
open CNumber (byte Stops takeWhile_run stod scanFraction)

section Blank

theorem isWhitespace_iff {c : UInt8} : isWhitespace c = true ↔ IsBlank c := by
  have hbytes : byte ' ' = 0x20 ∧ byte '\t' = 0x09 ∧ byte '\n' = 0x0a ∧ byte '\r' = 0x0d := by decide
  simp [isWhitespace, IsBlank, hbytes, or_assoc]

theorem isWhitespace_of_blank (blank : Blank) : ∀ c ∈ blank.val, isWhitespace c = true := fun c hc =>
  isWhitespace_iff.mpr (blank.property c hc)

theorem skipWhitespace_blank (blank : Blank) (text : Bytes) :
    skipWhitespace (blank.val ++ text) = skipWhitespace text :=
  List.dropWhile_append_of_pos (isWhitespace_of_blank blank)

theorem skipWhitespace_cons {c : UInt8} (hc : isWhitespace c = false) (rest : Bytes) :
    skipWhitespace (c :: rest) = c :: rest :=
  List.dropWhile_cons_of_neg (by simp [hc])

/-- A blank and what follows end a number if what follows does. -/
theorem stops_blank {c : UInt8} (hc : isNumberByte c = false) (blank : Blank) (rest : Bytes) :
    Stops isNumberByte (blank.val ++ c :: rest) := by
  intro d hd
  cases hblank : blank.val with
  | nil =>
    rw [hblank] at hd
    cases hd
    exact hc
  | cons b tail =>
    rw [hblank] at hd
    cases hd
    have hb := blank.property d (by rw [hblank]; exact List.mem_cons_self)
    rcases hb with rfl | rfl | rfl | rfl <;> decide

end Blank

section Number

theorem isNumberByte_of_digit {d : UInt8} (h : CNumber.isDigit d = true) : isNumberByte d = true := by
  have hd : byte '0' ≤ d ∧ d ≤ byte '9' := by simpa [CNumber.isDigit] using h
  simp [isNumberByte, hd]

theorem ne_of_digit {d c : UInt8} (h : CNumber.isDigit d = true) (hc : CNumber.isDigit c = false) : d ≠ c := by
  rintro rfl
  rw [h] at hc
  cases hc

theorem Digits.exists_cons (digits : Digits) : ∃ d rest, digits.val = d :: rest ∧ CNumber.isDigit d = true := by
  obtain ⟨d, rest, hcons⟩ := List.exists_cons_of_ne_nil digits.property.1
  exact ⟨d, rest, hcons, digits.property.2 d (by rw [hcons]; exact List.mem_cons_self)⟩

theorem stops_exponentText (e : Option Exponent) : Stops CNumber.isDigit (exponentText e) := by
  intro c hc
  cases e with
  | none => cases hc
  | some e =>
    cases hc
    cases e.capital <;> decide

theorem scanExponent_text (e : Option Exponent) : CNumber.scanExponent (exponentText e) = (exponentValue e, []) := by
  cases e with
  | none => rfl
  | some e =>
    have hstop : Stops CNumber.isDigit ([] : Bytes) := by simp [Stops]
    obtain ⟨htake, hdrop⟩ := takeWhile_run e.digits.property.2 hstop
    rw [List.append_nil] at htake hdrop
    obtain ⟨d, rest, hcons, hd⟩ := e.digits.exists_cons
    have hminus : d ≠ byte '-' := ne_of_digit hd (by decide)
    have hplus : d ≠ byte '+' := ne_of_digit hd (by decide)
    have hne : e.digits.val ≠ [] := e.digits.property.1
    have hmark : (if e.capital then byte 'E' else byte 'e') = byte 'e' ∨
        (if e.capital then byte 'E' else byte 'e') = byte 'E' := by
      cases e.capital <;> simp
    simp only [exponentText, Exponent.text, List.cons_append, CNumber.scanExponent, if_pos hmark, exponentValue,
      Exponent.value]
    cases hsign : e.minus with
    | none =>
      have hhead : e.digits.val.head? = some d := by rw [hcons, List.head?_cons]
      simp [Exponent.sign, hsign, hhead, hminus, hplus, htake, hdrop, hne]
    | some minus =>
      cases minus
      · simp [Exponent.sign, hsign, htake, hdrop, hne, byte]
      · simp [Exponent.sign, hsign, htake, hdrop, hne]

theorem scanFraction_text (fraction : Option Digits) (e : Option Exponent) :
    ∃ digits, scanFraction (fractionText fraction ++ exponentText e) = (digits, exponentText e) ∧
      (CNumber.natOfDigits digits : ℚ) = fractionValue fraction * 10 ^ digits.length := by
  have hstop := stops_exponentText e
  cases fraction with
  | none =>
    refine ⟨[], ?_, by simp [CNumber.natOfDigits, fractionValue]⟩
    have hpoint : (exponentText e).head? ≠ some (byte '.') := by
      cases e with
      | none => simp [exponentText]
      | some e =>
        simp only [exponentText, Exponent.text, List.cons_append, List.head?_cons, ne_eq, Option.some.injEq]
        cases e.capital <;> decide
    rw [fractionText, List.nil_append, scanFraction, if_neg hpoint]
  | some digits =>
    obtain ⟨htake, hdrop⟩ := takeWhile_run digits.property.2 hstop
    refine ⟨digits.val, ?_, ?_⟩
    · simp [fractionText, scanFraction, htake, hdrop]
    · rw [fractionValue, div_mul_cancel₀ _ (by positivity)]

theorem stops_fractionText (fraction : Option Digits) (e : Option Exponent) :
    Stops CNumber.isDigit (fractionText fraction ++ exponentText e) := by
  cases fraction with
  | none => exact stops_exponentText e
  | some digits =>
    intro c hc
    cases hc
    decide

namespace NumberToken
variable (n : NumberToken)

/-- The text after the sign. -/
def unsigned : Bytes := n.whole.val ++ (fractionText n.fraction ++ exponentText n.exponent)

theorem text_eq : n.text = (if n.minus then [byte '-'] else []) ++ n.unsigned := by
  simp only [text, unsigned, List.append_assoc]

theorem scanDecimal_unsigned : CNumber.scanDecimal n.unsigned = some (n.magnitude, []) := by
  obtain ⟨htake, hdrop⟩ := takeWhile_run n.whole.property.2 (stops_fractionText n.fraction n.exponent)
  obtain ⟨digits, hfraction, hvalue⟩ := scanFraction_text n.fraction n.exponent
  have hne : n.whole.val ≠ [] := n.whole.property.1
  have hten : (10 : ℚ) ≠ 0 := by norm_num
  simp only [CNumber.scanDecimal, unsigned, htake, hdrop, hfraction, hne, false_and, if_false, scanExponent_text,
    CNumber.natOfDigits_append, magnitude, Option.some.injEq, Prod.mk.injEq, and_true]
  push_cast
  rw [hvalue, zpow_sub₀ hten, zpow_natCast]
  field_simp

theorem exists_cons_unsigned : ∃ d rest, n.unsigned = d :: rest ∧ CNumber.isDigit d = true := by
  obtain ⟨d, rest, hcons, hd⟩ := n.whole.exists_cons
  exact ⟨d, _, by rw [unsigned, hcons, List.cons_append], hd⟩

/-- The whole token is converted. -/
theorem stod_text (h : n.InRange) : stod n.text = some (n.value, n.text.length) := by
  obtain ⟨d, rest, hcons, hd⟩ := n.exists_cons_unsigned
  have hminus : d ≠ byte '-' := ne_of_digit hd (by decide)
  have hplus : d ≠ byte '+' := ne_of_digit hd (by decide)
  have hscan := n.scanDecimal_unsigned
  obtain ⟨hover, hunder⟩ := h
  rw [text_eq]
  cases hneg : n.minus with
  | true =>
    simp only [exact, hneg, if_true] at hover hunder
    simp [stod, hscan, hover, hunder, value, exact, hneg]
  | false =>
    simp only [exact, hneg, Bool.false_eq_true, if_false] at hover hunder
    have hhead : n.unsigned.head? = some d := by rw [hcons, List.head?_cons]
    simp [stod, hhead, hminus, hplus, hscan, hover, hunder, value, exact, hneg]

theorem isNumberByte_unsigned : ∀ c ∈ n.unsigned, isNumberByte c = true := by
  intro c hc
  simp only [unsigned, List.mem_append] at hc
  rcases hc with hc | hc | hc
  · exact isNumberByte_of_digit (n.whole.property.2 c hc)
  · cases hf : n.fraction with
    | none =>
      rw [hf] at hc
      cases hc
    | some digits =>
      rw [hf, fractionText] at hc
      rcases List.mem_cons.mp hc with rfl | hc
      · decide
      · exact isNumberByte_of_digit (digits.property.2 c hc)
  · cases he : n.exponent with
    | none =>
      rw [he] at hc
      cases hc
    | some e =>
      rw [he] at hc
      simp only [exponentText, Exponent.text, List.mem_append, List.mem_cons] at hc
      rcases hc with (rfl | hc) | hc
      · cases e.capital <;> decide
      · cases hsign : e.minus with
        | none => simp [Exponent.sign, hsign] at hc
        | some minus =>
          cases minus <;> simp [Exponent.sign, hsign] at hc <;> rw [hc] <;> decide
      · exact isNumberByte_of_digit (e.digits.property.2 c hc)

theorem isNumberByte_text : ∀ c ∈ n.text, isNumberByte c = true := by
  intro c hc
  rw [text_eq] at hc
  rcases List.mem_append.mp hc with hc | hc
  · cases hneg : n.minus with
    | true =>
      rw [hneg] at hc
      rw [List.mem_singleton.mp hc]
      decide
    | false =>
      rw [hneg] at hc
      cases hc
  · exact n.isNumberByte_unsigned c hc

/-- A token starts with a digit or a minus. -/
theorem exists_cons_text : ∃ c rest, n.text = c :: rest ∧ (CNumber.isDigit c = true ∨ c = byte '-') := by
  obtain ⟨d, rest, hcons, hd⟩ := n.exists_cons_unsigned
  rw [text_eq, hcons]
  cases n.minus with
  | true => exact ⟨byte '-', d :: rest, rfl, Or.inr rfl⟩
  | false => exact ⟨d, rest, rfl, Or.inl hd⟩

end NumberToken

/-- A sign is among the bytes that a number may have. -/
theorem afterNumber_eq (text : Bytes) : afterNumber text = text.dropWhile isNumberByte := by
  unfold afterNumber
  split_ifs with hsign
  · cases text with
    | nil => rfl
    | cons c rest =>
      have hc : isNumberByte c = true := by
        rcases hsign with hsign | hsign <;> cases hsign <;> decide
      rw [List.tail_cons, List.dropWhile_cons_of_pos hc]
  · rfl

theorem parseNumber_text {n : NumberToken} (h : n.InRange) {rest : Bytes} (hstop : Stops isNumberByte rest) :
    Parser.parseNumber (n.text ++ rest) = .ok (.number n.value, rest) := by
  obtain ⟨-, hdrop⟩ := takeWhile_run n.isNumberByte_text hstop
  have htoken : (n.text ++ rest).take ((n.text ++ rest).length - rest.length) = n.text := by
    rw [List.length_append, Nat.add_sub_cancel, List.take_left]
  obtain ⟨c, tail, hcons, -⟩ := n.exists_cons_text
  have hne : n.text ≠ [] := by simp [hcons]
  simp only [Parser.parseNumber, afterNumber_eq, hdrop, htoken, if_neg hne, n.stod_text h, ne_eq, not_true_eq_false,
    if_false]

end Number

section Strings

theorem hexValue_byte (d : HexDigit) : Parser.hexValue d.byte = some d.value.val := by
  have hall : ∀ (n : Fin 16) (capital : Bool), Parser.hexValue (HexDigit.byte ⟨n, capital⟩) = some n.val := by decide
  exact hall d.value d.capital

theorem hexDigits_cons (n out : ℕ) (d : HexDigit) (rest : Bytes) :
    hexDigits (n + 1) out (d.byte :: rest) = hexDigits n (16 * out + d.value.val) rest := by
  have hor : out <<< 4 ||| d.value.val = 16 * out + d.value.val := by
    rw [shift_or out d.value.val (k := 4) d.value.isLt, mul_comm]
    rfl
  simp only [hexDigits, hexValue_byte, hor]

theorem parseHex4_text (hex : Hex4) (rest : Bytes) : parseHex4 (hex.text ++ rest) = .ok (hex.value, rest) := by
  have hlen : ¬ (hex.text ++ rest).length < 4 := by simp [Hex4.text]
  rw [parseHex4, if_neg hlen]
  refine (hexDigits_cons 3 _ _ _).trans ((hexDigits_cons 2 _ _ _).trans
    ((hexDigits_cons 1 _ _ _).trans ((hexDigits_cons 0 _ _ _).trans ?_)))
  have hvalue : 16 * (16 * (16 * (16 * 0 + hex.first.value.val) + hex.second.value.val) + hex.third.value.val) +
      hex.fourth.value.val = hex.value := by
    unfold Hex4.value
    omega
  rw [hvalue, hexDigits]
  rfl

theorem toNat_ofNat {n : ℕ} (h : n.isValidChar) : (Char.ofNat n).toNat = n := by
  rw [Char.ofNat, dif_pos h]
  rfl

/-- A code unit that is no high surrogate is read on its own. -/
theorem unicodeEscape_single {hex : Hex4} (h : isHighSurrogate hex.value = false) (rest : Bytes) :
    unicodeEscape (hex.text ++ rest) = .ok (appendUtf8 hex.value, rest) := by
  simp [unicodeEscape, parseHex4_text, Except.bind, h]

theorem unicodeEscape_alone (hex : Hex4) {rest : Bytes} (h : rest.take 2 ≠ [backslash, byte 'u']) :
    unicodeEscape (hex.text ++ rest) = .ok (appendUtf8 hex.value, rest) := by
  simp [unicodeEscape, parseHex4_text, Except.bind, h]

/-- A high surrogate is read with the code unit that follows it. -/
theorem unicodeEscape_high {high : Hex4} (h : isHighSurrogate high.value = true) (low : Hex4) (rest : Bytes) :
    unicodeEscape (high.text ++ backslash :: byte 'u' :: low.text ++ rest) =
      .ok (afterHigh high.value low.value, rest) := by
  simp [unicodeEscape, parseHex4_text, Except.bind, Except.map, h, List.append_assoc]

theorem codePoint_eq (high low : ℕ) :
    0x10000 + (high - 0xD800) <<< 10 + (low - 0xDC00) = codePointOfPair high low := by
  have hshift : (high - 0xD800) <<< 10 = 0x400 * (high - 0xD800) := by
    rw [Nat.shiftLeft_eq, mul_comm]
  rw [hshift]
  rfl

theorem reads_character (c : Character) : Reads c.text c.bytes := by
  cases c with
  | unescaped b h => exact reads_plain h.2.1 h.2.2
  | escape letter value h =>
    have hall : escapes.all (fun e => simpleEscape e.1 = some e.2) = true := by decide
    exact reads_simple (of_decide_eq_true (List.all_eq_true.mp hall _ h))
  | scalar hex h =>
    have hnot : isHighSurrogate hex.value = false := by
      rcases h with h | h <;> simp [isHighSurrogate] <;> omega
    intro out rest
    have happ : appendUtf8 hex.value = String.utf8EncodeChar (Char.ofNat hex.value) := by
      rw [← appendUtf8_char, toNat_ofNat h]
    refine (parseCharacters_unicode (unicodeEscape_single hnot rest) out).trans ?_
    rw [happ]
    rfl
  | pair high low hhigh hlow =>
    have hhighTest : isHighSurrogate high.value = true := by simp [isHighSurrogate, hhigh]
    have hlowTest : isLowSurrogate low.value = true := by simp [isLowSurrogate, hlow]
    have hvalid : (codePointOfPair high.value low.value).isValidChar := by
      right
      unfold codePointOfPair
      omega
    intro out rest
    refine (parseCharacters_unicode (unicodeEscape_high hhighTest low rest) out).trans ?_
    rw [afterHigh, if_pos hlowTest, codePoint_eq]
    conv_lhs => rw [← toNat_ofNat hvalid, appendUtf8_char]
    rfl

theorem parseString_text (characters : List Character) (rest : Bytes) :
    Parser.parseString (stringText characters ++ rest) = .ok (stringBytes characters, rest) := by
  have hreads : Reads (characters.flatMap Character.text) (characters.flatMap Character.bytes) :=
    Reads.flatMap fun c _ => reads_character c
  have htext : stringText characters ++ rest = quote :: characters.flatMap Character.text ++ quote :: rest := by
    simp [stringText, quote]
  rw [htext]
  exact parseString_of_reads hreads rest

end Strings

end NetworkHealth.Daemon.Json.Grammar
