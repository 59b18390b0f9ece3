import NetworkHealth.Daemon.JsonTokens

/-! The texts that the parser takes for JSON, which are more than those of RFC 8259: a number may
have a plus, leading zeros or no digits on one side of its point, a string any byte but a quotation
mark and a backslash, and its `\u` escapes are code units that need not pair up. -/
namespace NetworkHealth.Daemon.Json.Grammar.Dialect
open NetworkHealth.Daemon.Json.Parser
open CNumber (byte Stops takeWhile_run stod scanFraction)

section Number

/-- A decimal with a digit somewhere before its exponent. -/
structure NumberToken where
  /-- Whether it is a minus, if there is a sign. -/
  minus : Option Bool
  whole : Bytes
  fraction : Option Bytes
  exponent : Option Exponent
  whole_digits : ∀ d ∈ whole, CNumber.isDigit d = true
  fraction_digits : ∀ d ∈ fraction.getD [], CNumber.isDigit d = true
  some_digit : whole ≠ [] ∨ fraction.getD [] ≠ []

def signText : Option Bool → Bytes
  | none => []
  | some true => [byte '-']
  | some false => [byte '+']

def fractionText : Option Bytes → Bytes
  | none => []
  | some digits => byte '.' :: digits

namespace NumberToken
variable (n : NumberToken)

/-- The text after the sign. -/
def unsigned : Bytes := n.whole ++ (fractionText n.fraction ++ exponentText n.exponent)

def text : Bytes := signText n.minus ++ n.unsigned

def magnitude : ℚ :=
  CNumber.natOfDigits (n.whole ++ n.fraction.getD []) * 10 ^ (exponentValue n.exponent - (n.fraction.getD []).length)

def exact : ℚ := if n.minus = some true then -n.magnitude else n.magnitude

def value : ℚ := roundPlaces n.exact

/-- In the range of a double, and not too small for one. -/
def InRange : Prop := ¬ CNumber.Overflows n.exact ∧ ¬ CNumber.Underflows n.exact

end NumberToken

end Number

section String

inductive Character
  | raw (b : UInt8) (h : b ≠ 0x22 ∧ b ≠ 0x5c)
  | escape (letter value : UInt8) (h : (letter, value) ∈ escapes)
  /-- A code unit of UTF-16. -/
  | unit (hex : Hex4)

def Character.text : Character → Bytes
  | raw b _ => [b]
  | escape letter _ _ => [0x5c, letter]
  | unit hex => 0x5c :: byte 'u' :: hex.text

/-- The UTF-8 of a code unit, a surrogate encoded in three bytes as if it were a character. -/
def unitBytes (n : ℕ) : Bytes :=
  if n.isValidChar then String.utf8EncodeChar (Char.ofNat n)
  else [0xED, UInt8.ofNat (0x80 + n / 64 % 64), UInt8.ofNat (0x80 + n % 64)]

def Character.bytes : Character → Bytes
  | raw b _ => [b]
  | escape _ value _ => [value]
  | unit hex => unitBytes hex.value

/-- A high surrogate and the code unit after it, which need not be a low one. -/
def pairBytes (high low : ℕ) : Bytes :=
  if 0xDC00 ≤ low ∧ low ≤ 0xDFFF then String.utf8EncodeChar (Char.ofNat (codePointOfPair high low))
  else unitBytes high ++ unitBytes low

/-- Code units are paired from the left: a high surrogate takes the one that follows it. -/
def stringBytes : List Character → Bytes
  | .unit high :: .unit low :: rest =>
    if 0xD800 ≤ high.value ∧ high.value ≤ 0xDBFF then pairBytes high.value low.value ++ stringBytes rest
    else unitBytes high.value ++ stringBytes (.unit low :: rest)
  | c :: rest => c.bytes ++ stringBytes rest
  | [] => []

def stringText (characters : List Character) : Bytes :=
  0x22 :: characters.flatMap Character.text ++ [0x22]

end String

/-- A text denotes a value that nests so many levels deep at most. Of the members of one name the
last counts, in the place of the first. -/
inductive Denotes : ℕ → Bytes → Json → Prop
  | null (levels : ℕ) : Denotes (levels + 1) (ascii "null") .null
  | bool (levels : ℕ) (value : Bool) :
      Denotes (levels + 1) (if value then ascii "true" else ascii "false") (.bool value)
  | number (levels : ℕ) (token : NumberToken) (h : token.InRange) :
      Denotes (levels + 1) token.text (.number token.value)
  | string (levels : ℕ) (characters : List Character) :
      Denotes (levels + 1) (stringText characters) (.string (stringBytes characters))
  | array (levels : ℕ) (elements : List (Padded (Bytes × Json))) (blank : Blank)
      (h : ∀ e ∈ elements, Denotes levels e.inner.1 e.inner.2) :
      Denotes (levels + 1)
        (byte '[' :: [byte ','].intercalate (elements.map fun e => e.wrap e.inner.1) ++ blank.val ++ [byte ']'])
        (.array (elements.map fun e => e.inner.2))
  | object (levels : ℕ) (members : List (Padded (List Character) × Padded (Bytes × Json))) (blank : Blank)
      (h : ∀ m ∈ members, Denotes levels m.2.inner.1 m.2.inner.2) :
      Denotes (levels + 1)
        (openBrace :: [byte ','].intercalate (members.map fun m =>
          m.1.wrap (stringText m.1.inner) ++ byte ':' :: m.2.wrap m.2.inner.1) ++ blank.val ++ [closeBrace])
        (.object (Tree.lastWins (members.map fun m => (stringBytes m.1.inner, m.2.inner.2))))

section Number

/-- The exponent that takes up a text as a whole. -/
theorem exists_exponent {text : Bytes} {e : ℤ} (h : CNumber.scanExponent text = (e, [])) :
    ∃ exponent, text = exponentText exponent ∧ e = exponentValue exponent := by
  cases text with
  | nil =>
    cases h
    exact ⟨none, rfl, rfl⟩
  | cons mark rest =>
    simp only [CNumber.scanExponent] at h
    by_cases hmark : mark = byte 'e' ∨ mark = byte 'E'
    · rw [if_pos hmark] at h
      generalize hdigits : (if rest.head? = some (byte '-') ∨ rest.head? = some (byte '+') then rest.tail else rest) =
        digits at h
      by_cases hnone : digits.takeWhile CNumber.isDigit = []
      · rw [if_pos hnone] at h
        cases h
      rw [if_neg hnone] at h
      have hall : ∀ d ∈ digits, CNumber.isDigit d = true := List.dropWhile_eq_nil_iff.mp (congrArg Prod.snd h)
      have htake : digits.takeWhile CNumber.isDigit = digits := List.takeWhile_eq_self_iff.mpr hall
      have hvalue : e = if rest.head? = some (byte '-') then -(CNumber.natOfDigits digits : ℤ)
          else CNumber.natOfDigits digits := by
        rw [htake] at h
        exact (congrArg Prod.fst h).symm
      rw [htake] at hnone
      have hcapital : (if decide (mark = byte 'E') = true then byte 'E' else byte 'e') = mark := by
        rcases hmark with rfl | rfl <;> decide
      have hexists : ∀ minus : Option Bool, rest = signText minus ++ digits →
          (minus = some true ↔ rest.head? = some (byte '-')) →
          ∃ exponent, mark :: rest = exponentText exponent ∧ e = exponentValue exponent := by
        intro minus hrest hminus
        refine ⟨some ⟨decide (mark = byte 'E'), minus, ⟨digits, hnone, hall⟩⟩, ?_, ?_⟩
        · rw [exponentText, Exponent.text, hcapital, hrest]
          cases minus with
          | none => rfl
          | some minus => cases minus <;> rfl
        · exact hvalue.trans (if_congr hminus.symm rfl rfl)
      by_cases hminus : rest.head? = some (byte '-')
      · obtain ⟨tail, rfl⟩ := List.head?_eq_some_iff.mp hminus
        rw [if_pos (Or.inl hminus)] at hdigits
        exact hexists (some true) (congrArg (List.cons _) hdigits) (iff_of_true rfl hminus)
      by_cases hplus : rest.head? = some (byte '+')
      · obtain ⟨tail, rfl⟩ := List.head?_eq_some_iff.mp hplus
        rw [if_pos (Or.inr hplus)] at hdigits
        exact hexists (some false) (congrArg (List.cons _) hdigits) (iff_of_false (by decide) hminus)
      · rw [if_neg (not_or.mpr ⟨hminus, hplus⟩)] at hdigits
        exact hexists none hdigits (iff_of_false (by decide) hminus)
    · rw [if_neg hmark] at h
      cases h

theorem exists_fraction {text digits rest : Bytes} (h : scanFraction text = (digits, rest)) :
    ∃ fraction, text = fractionText fraction ++ rest ∧ fraction.getD [] = digits ∧
      ∀ d ∈ digits, CNumber.isDigit d = true := by
  unfold scanFraction at h
  split_ifs at h with hpoint
  · obtain ⟨tail, rfl⟩ := List.head?_eq_some_iff.mp hpoint
    cases h
    refine ⟨some (tail.takeWhile CNumber.isDigit), ?_, rfl, fun d hd => List.mem_takeWhile_imp hd⟩
    rw [fractionText, List.cons_append, List.tail_cons, List.takeWhile_append_dropWhile]
  · cases h
    exact ⟨none, rfl, rfl, by simp⟩

/-- A decimal that takes up a text as a whole, whatever sign it is to have. -/
theorem exists_unsigned {text : Bytes} {magnitude : ℚ} (h : CNumber.scanDecimal text = some (magnitude, []))
    (minus : Option Bool) : ∃ n : NumberToken, n.minus = minus ∧ n.unsigned = text ∧ n.magnitude = magnitude := by
  simp only [CNumber.scanDecimal] at h
  obtain ⟨digits, after, hscan⟩ : ∃ digits after, scanFraction (text.dropWhile CNumber.isDigit) = (digits, after) :=
    ⟨_, _, rfl⟩
  rw [hscan] at h
  split_ifs at h with hnone
  obtain ⟨fraction, hfraction, hgetD, hdigits⟩ := exists_fraction hscan
  subst hgetD
  simp only [Option.some.injEq, Prod.mk.injEq] at h
  obtain ⟨exponent, rfl, hexponent⟩ := exists_exponent (Prod.ext rfl h.2)
  refine ⟨⟨minus, text.takeWhile CNumber.isDigit, fraction, exponent, fun d hd => List.mem_takeWhile_imp hd,
    hdigits, not_and_or.mp hnone⟩, rfl, ?_, ?_⟩
  · rw [NumberToken.unsigned, ← hfraction, List.takeWhile_append_dropWhile]
  · rw [NumberToken.magnitude, ← hexponent]
    exact h.1

/-- What `stod` converts as a whole is a number of the dialect. -/
theorem exists_token {text : Bytes} {q : ℚ} (hne : text ≠ []) (h : stod text = some (q, text.length)) :
    ∃ n : NumberToken, n.text = text ∧ n.InRange ∧ n.value = q := by
  -- the sign of the text
  obtain ⟨minus, tail, rfl, hminus, hsigned⟩ : ∃ minus tail, text = signText minus ++ tail ∧
      (minus = some true ↔ text.head? = some (byte '-')) ∧
      (if text.head? = some (byte '-') ∨ text.head? = some (byte '+') then text.tail else text) = tail := by
    obtain ⟨c, rest, rfl⟩ := List.exists_cons_of_ne_nil hne
    by_cases hminus : c = byte '-'
    · subst hminus
      exact ⟨some true, rest, rfl, by simp, by simp⟩
    by_cases hplus : c = byte '+'
    · subst hplus
      exact ⟨some false, rest, rfl, iff_of_false (by decide) (by simp [hminus]), by simp⟩
    · exact ⟨none, c :: rest, rfl, by simp [hminus], by simp [hminus, hplus]⟩
  simp only [stod, hsigned] at h
  cases hscan : CNumber.scanDecimal tail with
  | none =>
    rw [hscan] at h
    cases h
  | some read =>
    obtain ⟨magnitude, rest⟩ := read
    simp only [hscan] at h
    generalize hvalue : (if (signText minus ++ tail).head? = some (byte '-') then -magnitude else magnitude) = exact at h
    split_ifs at h with hrange
    simp only [Option.some.injEq, Prod.mk.injEq] at h
    have hpos := List.length_pos_of_ne_nil hne
    obtain rfl : rest = [] := List.length_eq_zero_iff.mp (by omega)
    obtain ⟨n, rfl, rfl, rfl⟩ := exists_unsigned hscan minus
    obtain rfl : n.exact = exact := (if_congr hminus rfl rfl).trans hvalue
    exact ⟨n, rfl, not_or.mp hrange, h.1⟩

namespace NumberToken
variable (n : NumberToken)

theorem stops_exponent : Stops CNumber.isDigit (fractionText n.fraction ++ exponentText n.exponent) := by
  cases n.fraction with
  | none => exact stops_exponentText n.exponent
  | some digits =>
    intro c hc
    cases hc
    decide

theorem scanFraction_text : scanFraction (fractionText n.fraction ++ exponentText n.exponent) =
    (n.fraction.getD [], exponentText n.exponent) := by
  have hdigits := n.fraction_digits
  cases hfraction : n.fraction with
  | none =>
    have hpoint : (exponentText n.exponent).head? ≠ some (byte '.') := by
      cases n.exponent with
      | none => simp [exponentText]
      | some e =>
        simp only [exponentText, Exponent.text, List.cons_append, List.head?_cons, ne_eq, Option.some.injEq]
        cases e.capital <;> decide
    rw [fractionText, List.nil_append, scanFraction, if_neg hpoint]
    rfl
  | some digits =>
    rw [hfraction] at hdigits
    obtain ⟨htake, hdrop⟩ := takeWhile_run hdigits (stops_exponentText n.exponent)
    simpa [fractionText, scanFraction] using And.intro htake hdrop

theorem scanDecimal_unsigned : CNumber.scanDecimal n.unsigned = some (n.magnitude, []) := by
  obtain ⟨htake, hdrop⟩ := takeWhile_run n.whole_digits n.stops_exponent
  simp only [CNumber.scanDecimal, unsigned, htake, hdrop, n.scanFraction_text, if_neg (not_and_or.mpr n.some_digit),
    scanExponent_text, magnitude]

/-- After the sign stands a digit or the point. -/
theorem exists_cons_unsigned : ∃ c rest, n.unsigned = c :: rest ∧ (CNumber.isDigit c = true ∨ c = byte '.') := by
  unfold unsigned
  cases hwhole : n.whole with
  | cons d rest => exact ⟨d, _, rfl, Or.inl (n.whole_digits d (hwhole ▸ List.mem_cons_self))⟩
  | nil =>
    have hsome := n.some_digit
    cases hfraction : n.fraction with
    | none => simp [hwhole, hfraction] at hsome
    | some digits => exact ⟨byte '.', _, rfl, Or.inr rfl⟩

/-- The whole token is converted. -/
theorem stod_text (h : n.InRange) : stod n.text = some (n.value, n.text.length) := by
  obtain ⟨c, rest, hcons, hc⟩ := n.exists_cons_unsigned
  have hne : c ≠ byte '-' ∧ c ≠ byte '+' := by
    rcases hc with hdigit | rfl
    · exact ⟨ne_of_digit hdigit (by decide), ne_of_digit hdigit (by decide)⟩
    · decide
  have hminus : n.text.head? = some (byte '-') ↔ n.minus = some true := by
    rw [text, hcons]
    cases n.minus with
    | none => simp [signText, hne]
    | some minus => cases minus <;> simp [signText, byte]
  have hsigned : (if n.text.head? = some (byte '-') ∨ n.text.head? = some (byte '+') then n.text.tail else n.text) =
      n.unsigned := by
    rw [text]
    cases n.minus with
    | none => simp [signText, hcons, hne]
    | some minus => cases minus <;> simp [signText]
  have hexact : (if n.text.head? = some (byte '-') then -n.magnitude else n.magnitude) = n.exact :=
    if_congr hminus rfl rfl
  simp only [stod, hsigned, n.scanDecimal_unsigned, hexact, if_neg (not_or.mpr h), value, List.length_nil, Nat.sub_zero]

theorem isNumberByte_text : ∀ c ∈ n.text, isNumberByte c = true := by
  intro c hc
  simp only [text, unsigned, List.mem_append] at hc
  rcases hc with hsign | hwhole | hfraction | hexponent
  · cases hminus : n.minus with
    | none => simp [hminus, signText] at hsign
    | some minus => cases minus <;> simp [hminus, signText] at hsign <;> rw [hsign] <;> decide
  · exact isNumberByte_of_digit (n.whole_digits c hwhole)
  · have hdigits := n.fraction_digits
    cases hf : n.fraction with
    | none => simp [hf, fractionText] at hfraction
    | some digits =>
      rw [hf] at hfraction hdigits
      rcases List.mem_cons.mp hfraction with rfl | hc
      · decide
      · exact isNumberByte_of_digit (hdigits c hc)
  · cases he : n.exponent with
    | none => simp [he, exponentText] at hexponent
    | some e =>
      rw [he] at hexponent
      simp only [exponentText, Exponent.text, List.mem_append, List.mem_cons] at hexponent
      rcases hexponent with (rfl | hsign) | hdigit
      · cases e.capital <;> decide
      · cases hminus : e.minus with
        | none => simp [Exponent.sign, hminus] at hsign
        | some minus => cases minus <;> simp [Exponent.sign, hminus] at hsign <;> rw [hsign] <;> decide
      · exact isNumberByte_of_digit (e.digits.property.2 c hdigit)

theorem exists_cons_text : ∃ c rest, n.text = c :: rest ∧
    (CNumber.isDigit c = true ∨ c = byte '.' ∨ c = byte '-' ∨ c = byte '+') := by
  obtain ⟨c, rest, hcons, hc⟩ := n.exists_cons_unsigned
  rw [text, hcons]
  cases n.minus with
  | none => exact ⟨c, rest, rfl, hc.imp_right Or.inl⟩
  | some minus =>
    cases minus with
    | true => exact ⟨byte '-', c :: rest, rfl, Or.inr (Or.inr (Or.inl rfl))⟩
    | false => exact ⟨byte '+', c :: rest, rfl, Or.inr (Or.inr (Or.inr rfl))⟩

end NumberToken

theorem parseNumber_text {n : NumberToken} (h : n.InRange) {rest : Bytes} (hstop : Stops isNumberByte rest) :
    Parser.parseNumber (n.text ++ rest) = .ok (.number n.value, rest) := by
  obtain ⟨-, hdrop⟩ := takeWhile_run n.isNumberByte_text hstop
  have htoken : (n.text ++ rest).take ((n.text ++ rest).length - rest.length) = n.text := by
    rw [List.length_append, Nat.add_sub_cancel, List.take_left]
  obtain ⟨c, tail, hcons, -⟩ := n.exists_cons_text
  have hne : n.text ≠ [] := by simp [hcons]
  simp only [Parser.parseNumber, afterNumber_eq, hdrop, htoken, if_neg hne, n.stod_text h, ne_eq, not_true_eq_false,
    if_false]

theorem exists_number {text rest : Bytes} {v : Json} (h : Parser.parseNumber text = .ok (v, rest)) :
    ∃ n : NumberToken, n.InRange ∧ v = .number n.value ∧ text = n.text ++ rest := by
  have htoken : text.take (text.length - (afterNumber text).length) = text.takeWhile isNumberByte := by
    have hsplit := List.takeWhile_append_dropWhile (p := isNumberByte) (l := text)
    generalize text.takeWhile isNumberByte = token at hsplit ⊢
    rw [afterNumber_eq]
    generalize text.dropWhile isNumberByte = rest at hsplit ⊢
    rw [← hsplit, List.length_append, Nat.add_sub_cancel, List.take_left]
  simp only [Parser.parseNumber, htoken] at h
  split_ifs at h with hnone
  · cases h
  cases hstod : stod (text.takeWhile isNumberByte) with
  | none =>
    rw [hstod] at h
    cases h
  | some read =>
    obtain ⟨q, consumed⟩ := read
    simp only [hstod] at h
    split_ifs at h with hconsumed
    · cases h
    rw [not_not] at hconsumed
    subst hconsumed
    obtain ⟨n, htext, hrange, rfl⟩ := exists_token hnone hstod
    obtain ⟨rfl, rfl⟩ : v = .number n.value ∧ rest = afterNumber text := by
      cases h
      exact ⟨rfl, rfl⟩
    refine ⟨n, hrange, rfl, ?_⟩
    rw [htext, afterNumber_eq, List.takeWhile_append_dropWhile]

end Number

section Strings

theorem exists_hexDigit {c : UInt8} {d : ℕ} (h : Parser.hexValue c = some d) : ∃ digit : HexDigit,
    digit.byte = c ∧ digit.value.val = d := by
  have hall : ∀ n : Fin 256, ∀ d ∈ Parser.hexValue (UInt8.ofFin n), ∃ (value : Fin 16) (capital : Bool),
      HexDigit.byte ⟨value, capital⟩ = UInt8.ofFin n ∧ value.val = d := by decide +kernel
  obtain ⟨value, capital, hbyte, hvalue⟩ := hall c.toFin d h
  exact ⟨⟨value, capital⟩, hbyte, hvalue⟩

theorem hexDigits_succ {n out x : ℕ} {text rest : Bytes} (h : hexDigits (n + 1) out text = .ok (x, rest)) :
    ∃ (digit : HexDigit) (tail : Bytes), text = digit.byte :: tail ∧
      hexDigits n (16 * out + digit.value.val) tail = .ok (x, rest) := by
  cases text with
  | nil => cases h
  | cons c tail =>
    cases hc : Parser.hexValue c with
    | none =>
      simp only [hexDigits, hc] at h
      cases h
    | some d =>
      obtain ⟨digit, rfl, -⟩ := exists_hexDigit hc
      rw [Grammar.hexDigits_cons] at h
      exact ⟨digit, tail, rfl, h⟩

theorem exists_hex4 {text rest : Bytes} {x : ℕ} (h : parseHex4 text = .ok (x, rest)) :
    ∃ hex : Hex4, text = hex.text ++ rest ∧ x = hex.value := by
  unfold parseHex4 at h
  split_ifs at h
  · cases h
  obtain ⟨first, text, rfl, hsecond⟩ := hexDigits_succ h
  obtain ⟨second, text, rfl, hthird⟩ := hexDigits_succ hsecond
  obtain ⟨third, text, rfl, hfourth⟩ := hexDigits_succ hthird
  obtain ⟨fourth, text, rfl, hend⟩ := hexDigits_succ hfourth
  cases hend
  refine ⟨⟨first, second, third, fourth⟩, rfl, ?_⟩
  simp only [Hex4.value]
  omega

theorem value_lt (hex : Hex4) : hex.value < 0x10000 := by
  unfold Hex4.value
  omega

theorem appendUtf8_unit {n : ℕ} (h : n < 0x10000) : appendUtf8 n = unitBytes n := by
  unfold unitBytes
  split_ifs with hvalid
  · rw [← appendUtf8_char, toNat_ofNat hvalid]
  · have hsurrogate : 0xD800 ≤ n ∧ n < 0xE000 := by
      simp only [Nat.isValidChar, not_or, not_and_or, not_lt] at hvalid
      omega
    have hlead : n / 4096 = 13 := by omega
    rw [appendUtf8_three (by omega) h, hlead]
    rfl

theorem afterHigh_eq {high low : ℕ} (hhigh : 0xD800 ≤ high ∧ high ≤ 0xDBFF) (hlow : low < 0x10000) :
    afterHigh high low = pairBytes high low := by
  unfold afterHigh pairBytes
  have htest : isLowSurrogate low = true ↔ 0xDC00 ≤ low ∧ low ≤ 0xDFFF := by simp [isLowSurrogate]
  simp only [htest]
  split_ifs with hpair
  · have hvalid : (codePointOfPair high low).isValidChar := by
      right
      unfold codePointOfPair
      omega
    rw [codePoint_eq, ← appendUtf8_char, toNat_ofNat hvalid]
  · rw [appendUtf8_unit (by omega), appendUtf8_unit hlow]

theorem isHighSurrogate_iff {n : ℕ} : isHighSurrogate n = true ↔ 0xD800 ≤ n ∧ n ≤ 0xDBFF := by
  simp [isHighSurrogate]

/-- What follows `\u`: a high surrogate with another code unit, or a code unit on its own. -/
theorem exists_units {text bytes rest : Bytes} (h : unicodeEscape text = .ok (bytes, rest)) :
    (∃ high low : Hex4, (0xD800 ≤ high.value ∧ high.value ≤ 0xDBFF) ∧ bytes = pairBytes high.value low.value ∧
      text = high.text ++ backslash :: byte 'u' :: low.text ++ rest) ∨
    ∃ hex : Hex4, (¬ (0xD800 ≤ hex.value ∧ hex.value ≤ 0xDBFF) ∨ rest.take 2 ≠ [backslash, byte 'u']) ∧
      bytes = unitBytes hex.value ∧ text = hex.text ++ rest := by
  obtain ⟨⟨x, after⟩, hfirst, h⟩ := bind_ok h
  obtain ⟨hex, rfl, rfl⟩ := exists_hex4 hfirst
  simp only [isHighSurrogate_iff] at h
  split_ifs at h with hpair
  · obtain ⟨⟨y, more⟩, hsecond, h⟩ := map_ok h
    obtain ⟨low, hafter, rfl⟩ := exists_hex4 hsecond
    cases h
    refine Or.inl ⟨hex, low, hpair.1, afterHigh_eq hpair.1 (value_lt low), ?_⟩
    have hsplit := List.take_append_drop 2 after
    rw [hpair.2, hafter] at hsplit
    rw [← hsplit]
    simp
  · cases h
    exact Or.inr ⟨hex, not_and_or.mp hpair, appendUtf8_unit (value_lt hex), rfl⟩

/-- A code unit on its own: it is no high surrogate, or none follows it. -/
theorem stringBytes_unit {hex : Hex4} {characters : List Character}
    (h : ¬ (0xD800 ≤ hex.value ∧ hex.value ≤ 0xDBFF) ∨ ∀ next rest, characters ≠ .unit next :: rest) :
    stringBytes (.unit hex :: characters) = unitBytes hex.value ++ stringBytes characters := by
  cases characters with
  | nil => rfl
  | cons c rest =>
    cases c with
    | raw b hb => rfl
    | escape letter value hletter => rfl
    | unit next => exact if_neg (h.resolve_right fun hne => hne next rest rfl)

/-- A string without a code unit that starts it does not start like one. -/
theorem take_ne_of_head {characters : List Character} (h : ∀ next rest, characters ≠ .unit next :: rest)
    (rest : Bytes) : (characters.flatMap Character.text ++ quote :: rest).take 2 ≠ [backslash, byte 'u'] := by
  cases characters with
  | nil =>
    intro htake
    cases htake
  | cons c tail =>
    cases c with
    | raw b hb =>
      intro htake
      exact hb.2 (List.cons.inj htake).1
    | escape letter value hletter =>
      have hall : escapes.all (fun e => e.1 ≠ byte 'u') = true := by decide
      have hne : letter ≠ byte 'u' := of_decide_eq_true (List.all_eq_true.mp hall _ hletter)
      intro htake
      exact hne (List.cons.inj (List.cons.inj htake).2).1
    | unit next => exact absurd rfl (h next tail)

theorem parseCharacters_text (characters : List Character) (out rest : Bytes) :
    parseCharacters (out, characters.flatMap Character.text ++ quote :: rest) =
      .ok (out ++ stringBytes characters, rest) := by
  induction characters using stringBytes.induct generalizing out with
  | case1 high low tail hhigh ih =>
    have hunits : unicodeEscape (high.text ++ backslash :: byte 'u' :: low.text ++
        (tail.flatMap Character.text ++ quote :: rest)) =
        .ok (pairBytes high.value low.value, tail.flatMap Character.text ++ quote :: rest) := by
      rw [unicodeEscape_high (isHighSurrogate_iff.mpr hhigh), afterHigh_eq hhigh (value_lt low)]
    have htext : (Character.unit high :: .unit low :: tail).flatMap Character.text ++ quote :: rest =
        backslash :: byte 'u' :: (high.text ++ backslash :: byte 'u' :: low.text ++
          (tail.flatMap Character.text ++ quote :: rest)) := by
      simp [Character.text, backslash]
    rw [htext, parseCharacters_unicode hunits, ih, stringBytes, if_pos hhigh, List.append_assoc]
  | case2 high low tail hhigh ih =>
    have hsingle : isHighSurrogate high.value = false := by
      rw [← Bool.not_eq_true, isHighSurrogate_iff]
      exact hhigh
    have htext : (Character.unit high :: .unit low :: tail).flatMap Character.text ++ quote :: rest =
        backslash :: byte 'u' :: (high.text ++ ((Character.unit low :: tail).flatMap Character.text ++ quote :: rest)) := by
      simp [Character.text, backslash]
    rw [htext, parseCharacters_unicode (unicodeEscape_single hsingle _), ih, stringBytes, if_neg hhigh,
      appendUtf8_unit (value_lt high), List.append_assoc]
  | case3 c tail hnext ih =>
    cases c with
    | raw b hb =>
      have hread := reads_plain (c := b) hb.1 hb.2 out (tail.flatMap Character.text ++ quote :: rest)
      have hbytes : stringBytes (.raw b hb :: tail) = b :: stringBytes tail := rfl
      rw [hbytes, ← List.singleton_append (l := stringBytes tail), ← List.append_assoc, ← ih]
      exact hread
    | escape letter value hletter =>
      have hread := reads_character (.escape letter value hletter) out (tail.flatMap Character.text ++ quote :: rest)
      have hbytes : stringBytes (.escape letter value hletter :: tail) = value :: stringBytes tail := rfl
      rw [hbytes, ← List.singleton_append (l := stringBytes tail), ← List.append_assoc, ← ih]
      exact hread
    | unit hex =>
      have hhead : ∀ next rest, tail ≠ .unit next :: rest := fun next rest htail => hnext hex next rest rfl htail
      have htext : (Character.unit hex :: tail).flatMap Character.text ++ quote :: rest =
          backslash :: byte 'u' :: (hex.text ++ (tail.flatMap Character.text ++ quote :: rest)) := by
        simp [Character.text, backslash]
      rw [htext, parseCharacters_unicode (unicodeEscape_alone hex (take_ne_of_head hhead rest)), ih,
        stringBytes_unit (Or.inr hhead), appendUtf8_unit (value_lt hex), List.append_assoc]
  | case4 =>
    rw [stringBytes, List.append_nil]
    exact loop_done rfl

theorem mem_escapes {letter value : UInt8} (h : simpleEscape letter = some value) : (letter, value) ∈ escapes := by
  have hall : ∀ n : Fin 256, ∀ value ∈ simpleEscape (UInt8.ofFin n), (UInt8.ofFin n, value) ∈ escapes := by
    decide +kernel
  exact hall letter.toFin value h

/-- What one turn of the string loop does. -/
theorem stringRound_cases {out text : Bytes} {r : Round (Bytes × Bytes)} (h : stringRound (out, text) = .ok r) :
    (∃ rest, text = quote :: rest ∧ r = .done (out, rest)) ∨
    (∃ c rest, c ≠ quote ∧ c ≠ backslash ∧ text = c :: rest ∧ r = .next (out ++ [c], rest)) ∨
    (∃ letter value rest, (letter, value) ∈ escapes ∧ text = backslash :: letter :: rest ∧
      r = .next (out ++ [value], rest)) ∨
    ∃ escape bytes rest, unicodeEscape escape = .ok (bytes, rest) ∧ text = backslash :: byte 'u' :: escape ∧
      r = .next (out ++ bytes, rest) := by
  cases text with
  | nil => cases h
  | cons c text =>
    simp only [stringRound] at h
    by_cases hquote : c = quote
    · rw [if_pos hquote] at h
      cases h
      exact Or.inl ⟨text, by rw [hquote], rfl⟩
    rw [if_neg hquote] at h
    by_cases hplain : c ≠ backslash
    · rw [if_pos hplain] at h
      cases h
      exact Or.inr (Or.inl ⟨c, text, hquote, hplain, rfl, rfl⟩)
    rw [if_neg hplain] at h
    obtain rfl := not_not.mp hplain
    cases text with
    | nil => cases h
    | cons letter text =>
      dsimp only at h
      by_cases hunit : letter = byte 'u'
      · rw [if_pos hunit] at h
        obtain ⟨⟨bytes, rest⟩, hread, rfl⟩ := map_ok h
        exact Or.inr (Or.inr (Or.inr ⟨text, bytes, rest, hread, by rw [hunit], rfl⟩))
      · rw [if_neg hunit] at h
        cases hescape : simpleEscape letter with
        | none =>
          rw [hescape] at h
          cases h
        | some value =>
          rw [hescape] at h
          cases h
          exact Or.inr (Or.inr (Or.inl ⟨letter, value, text, mem_escapes hescape, rfl, rfl⟩))

/-- What the string loop reads, from where it stands to the quotation mark. -/
theorem exists_characters {s last : Bytes × Bytes} (h : parseCharacters s = .ok last) :
    ∃ characters : List Character, s.2 = characters.flatMap Character.text ++ quote :: last.2 ∧
      last.1 = s.1 ++ stringBytes characters := by
  refine loop_relates (fun s last => ∃ characters : List Character,
    s.2 = characters.flatMap Character.text ++ quote :: last.2 ∧ last.1 = s.1 ++ stringBytes characters)
    shrinks_stringRound ?_ ?_ h
  · rintro ⟨out, text⟩ last hround
    obtain ⟨rest, rfl, hr⟩ | ⟨_, _, _, _, _, hr⟩ | ⟨_, _, _, _, _, hr⟩ | ⟨_, _, _, _, _, hr⟩ := stringRound_cases hround
    · cases hr
      exact ⟨[], rfl, (List.append_nil _).symm⟩
    all_goals cases hr
  · rintro ⟨out, text⟩ s' last hround ⟨characters, htext, hlast⟩
    obtain ⟨_, _, hr⟩ | ⟨c, rest, hquote, hplain, rfl, hr⟩ | ⟨letter, value, rest, hescape, rfl, hr⟩ |
      ⟨escape, bytes, rest, hread, rfl, hr⟩ := stringRound_cases hround
    · cases hr
    · cases hr
      refine ⟨.raw c ⟨hquote, hplain⟩ :: characters, congrArg (List.cons c) htext, ?_⟩
      rw [hlast, List.append_assoc]
      rfl
    · cases hr
      refine ⟨.escape letter value hescape :: characters,
        congrArg (fun text => backslash :: letter :: text) htext, ?_⟩
      rw [hlast, List.append_assoc]
      rfl
    · cases hr
      dsimp only at htext hlast ⊢
      obtain ⟨high, low, hhigh, rfl, rfl⟩ | ⟨hex, halone, rfl, rfl⟩ := exists_units hread
      · refine ⟨.unit high :: .unit low :: characters, ?_, ?_⟩
        · rw [htext]
          simp [Character.text, backslash]
        · rw [hlast, stringBytes, if_pos hhigh, List.append_assoc]
      · refine ⟨.unit hex :: characters, ?_, ?_⟩
        · rw [htext]
          simp [Character.text, backslash]
        · rw [hlast, stringBytes_unit (halone.imp_right fun htake next tail hunit => htake ?_), List.append_assoc]
          rw [htext, hunit]
          rfl

theorem parseString_text (characters : List Character) (rest : Bytes) :
    Parser.parseString (stringText characters ++ rest) = .ok (stringBytes characters, rest) := by
  have htext : stringText characters ++ rest = quote :: (characters.flatMap Character.text ++ quote :: rest) := by
    simp [stringText, quote]
  have hhead : (quote :: (characters.flatMap Character.text ++ quote :: rest)).head? = some quote := rfl
  rw [htext, Parser.parseString, if_neg (not_not.mpr hhead), List.tail_cons, parseCharacters_text]
  rfl

theorem exists_string {text bytes rest : Bytes} (h : Parser.parseString text = .ok (bytes, rest)) :
    ∃ characters, text = stringText characters ++ rest ∧ bytes = stringBytes characters := by
  unfold Parser.parseString at h
  split_ifs at h with hquote
  · cases h
  obtain ⟨tail, rfl⟩ := List.head?_eq_some_iff.mp (not_not.mp hquote)
  obtain ⟨characters, htext, hbytes⟩ := exists_characters h
  refine ⟨characters, ?_, hbytes⟩
  have htail : tail = characters.flatMap Character.text ++ quote :: rest := htext
  rw [htail]
  simp [stringText, quote]

end Strings

end NetworkHealth.Daemon.Json.Grammar.Dialect
