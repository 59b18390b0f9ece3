import Mathlib.Data.List.DropRight
import NetworkHealth.Library.Binary64

/-! Numbers as the C library reads and writes them, over texts of bytes in the C locale. What
is read has no blanks before it and is no hexadecimal literal, infinity or NaN. -/
namespace NetworkHealth.CNumber

/-- A character of the basic plane, as the byte it is. -/
def byte (c : Char) : UInt8 := UInt8.ofNat c.toNat

def isDigit (b : UInt8) : Bool := byte '0' ≤ b && b ≤ byte '9'

def natOfDigits (ds : List UInt8) : ℕ := ds.foldl (fun n d => 10 * n + (d.toNat - 48)) 0

section Write

def natText (n : ℕ) : List UInt8 := (Nat.toDigits 10 n).map byte

/-- `%lld` -/
def intText (z : ℤ) : List UInt8 := if z < 0 then byte '-' :: natText z.natAbs else natText z.natAbs

def hexDigit (n : ℕ) : UInt8 := if n < 10 then UInt8.ofNat (48 + n) else UInt8.ofNat (87 + n)

/-- `%04x` of a number below 65536. -/
def hexText (n : ℕ) : List UInt8 :=
  [hexDigit (n / 4096 % 16), hexDigit (n / 256 % 16), hexDigit (n / 16 % 16), hexDigit (n % 16)]

/-- The ten significant digits of a positive number, as an integer, and the power of ten of
the first of them. -/
def tenDigits (q : ℚ) : ℕ × ℤ :=
  let e := Int.log 10 q
  let digits := (roundEven (q / 10 ^ (e - 9))).toNat
  if digits = 10 ^ 10 then (10 ^ 9, e + 1) else (digits, e)

def pointText (fraction : List UInt8) : List UInt8 :=
  let kept := fraction.rdropWhile (· = byte '0')
  if kept = [] then [] else byte '.' :: kept

/-- The exponent of a number, of two digits at least. -/
def exponentText (e : ℤ) : List UInt8 :=
  let digits := natText e.natAbs
  byte 'e' :: (if e < 0 then byte '-' else byte '+') ::
    (if digits.length < 2 then byte '0' :: digits else digits)

/-- `%.10g` of a positive number. -/
def positiveText (q : ℚ) : List UInt8 :=
  let (n, e) := tenDigits q
  let digits := natText n
  if e < -4 ∨ 10 ≤ e then digits.take 1 ++ pointText (digits.drop 1) ++ exponentText e
  else if e < 0 then byte '0' :: pointText (List.replicate (-e - 1).toNat (byte '0') ++ digits)
  else digits.take (e + 1).toNat ++ pointText (digits.drop (e + 1).toNat)

/-- `%.10g` -/
def generalText (q : ℚ) : List UInt8 :=
  if q = 0 then [byte '0']
  else if q < 0 then byte '-' :: positiveText (-q)
  else positiveText q

end Write

section Read

/-- The exponent a text starts with, zero if it does not start with one, and what follows. -/
def scanExponent (text : List UInt8) : ℤ × List UInt8 :=
  match text with
  | [] => (0, [])
  | mark :: rest =>
    if mark = byte 'e' ∨ mark = byte 'E' then
      let digits := if rest.head? = some (byte '-') ∨ rest.head? = some (byte '+') then rest.tail else rest
      let n := natOfDigits (digits.takeWhile isDigit)
      if digits.takeWhile isDigit = [] then (0, text)
      else (if rest.head? = some (byte '-') then -n else n, digits.dropWhile isDigit)
    else (0, text)

/-- The fraction digits a text starts with, after a point, and what follows. -/
def scanFraction (text : List UInt8) : List UInt8 × List UInt8 :=
  if text.head? = some (byte '.') then (text.tail.takeWhile isDigit, text.tail.dropWhile isDigit)
  else ([], text)

/-- The unsigned decimal a text starts with, if it does, and what follows. -/
def scanDecimal (text : List UInt8) : Option (ℚ × List UInt8) :=
  let whole := text.takeWhile isDigit
  let (fraction, rest) := scanFraction (text.dropWhile isDigit)
  if whole = [] ∧ fraction = [] then none
  else
    let (exponent, rest) := scanExponent rest
    some (natOfDigits (whole ++ fraction) * 10 ^ (exponent - fraction.length), rest)

/-- What 53 binary places leave of a number, however small it is. -/
def normalized (q : ℚ) : ℚ :=
  let place := Int.log 2 |q| - 52
  roundEven (q / 2 ^ place) * 2 ^ place

def Overflows (q : ℚ) : Prop := 2 ^ 1024 ≤ |roundPlaces q|

/-- Too small for a normal double, and not exact as a subnormal one. -/
def Underflows (q : ℚ) : Prop := |normalized q| < 2 ^ (-1022 : ℤ) ∧ roundPlaces q ≠ q

instance (q : ℚ) : Decidable (Overflows q) := inferInstanceAs (Decidable (_ ≤ _))
instance (q : ℚ) : Decidable (Underflows q) := inferInstanceAs (Decidable (_ ∧ _))

/-- `std::stod`: the double and the number of bytes it was read from, none if it throws. -/
def stod (text : List UInt8) : Option (ℚ × ℕ) :=
  let signed := text.head? = some (byte '-') ∨ text.head? = some (byte '+')
  match scanDecimal (if signed then text.tail else text) with
  | none => none
  | some (magnitude, rest) =>
    let q := if text.head? = some (byte '-') then -magnitude else magnitude
    if Overflows q ∨ Underflows q then none else some (roundPlaces q, text.length - rest.length)

end Read

section Digits

/-- A text at which a run of characters ends. -/
def Stops {α : Type*} (p : α → Bool) (text : List α) : Prop := ∀ c ∈ text.head?, p c = false

theorem takeWhile_run {α : Type*} {p : α → Bool} {run text : List α} (hrun : ∀ c ∈ run, p c = true)
    (hstop : Stops p text) : (run ++ text).takeWhile p = run ∧ (run ++ text).dropWhile p = text := by
  rw [List.takeWhile_append_of_pos hrun, List.dropWhile_append_of_pos hrun]
  cases text with
  | nil => simp
  | cons c rest =>
    have hc : ¬ p c = true := by simp [hstop c rfl]
    rw [List.takeWhile_cons_of_neg hc, List.dropWhile_cons_of_neg hc, List.append_nil]
    exact ⟨rfl, rfl⟩

theorem toNat_byte {c : Char} (h : c.toNat < 256) : (byte c).toNat = c.toNat := by
  rw [byte, UInt8.toNat_ofNat', Nat.mod_eq_of_lt h]

theorem isDigit_iff {b : UInt8} : isDigit b = true ↔ 48 ≤ b.toNat ∧ b.toNat ≤ 57 := by
  simp [isDigit, byte, UInt8.le_iff_toNat_le]

theorem toNat_of_mem_toDigits {n : ℕ} {c : Char} (h : c ∈ Nat.toDigits 10 n) :
    48 ≤ c.toNat ∧ c.toNat ≤ 57 := by
  have hdigit := Nat.isDigit_of_mem_toDigits (by decide) (by decide) h
  simpa [Char.isDigit, UInt32.le_iff_toNat_le] using hdigit

theorem isDigit_of_mem_natText {n : ℕ} {b : UInt8} (h : b ∈ natText n) : isDigit b = true := by
  obtain ⟨c, hc, rfl⟩ := List.mem_map.mp h
  have hdigit := toNat_of_mem_toDigits hc
  rw [isDigit_iff, toNat_byte (by omega)]
  exact hdigit

theorem natText_ne_nil (n : ℕ) : natText n ≠ [] := by
  simp [natText, Nat.toDigits_ne_nil]

/-- A number above zero does not start with a zero. -/
theorem head_natText {n : ℕ} (h : 0 < n) : (natText n).head? ≠ some (byte '0') := by
  induction n using Nat.strongRecOn with
  | ind n ih =>
    by_cases hsmall : n < 10
    · rw [natText, Nat.toDigits_of_lt_base hsmall]
      interval_cases n <;> decide
    · have hrec := ih (n / 10) (by omega) (by omega)
      obtain ⟨c, rest, hcons⟩ := List.exists_cons_of_ne_nil (natText_ne_nil (n / 10))
      have happend : natText n = natText (n / 10) ++ [byte (n % 10).digitChar] := by
        simp only [natText, Nat.toDigits_of_base_le (by decide : 1 < 10) (not_lt.mp hsmall), List.map_append,
          List.map_singleton]
      rw [happend, hcons, List.cons_append, List.head?_cons]
      rwa [hcons] at hrec

theorem natOfDigits_natText (n : ℕ) : natOfDigits (natText n) = n := by
  have hdigits : natOfDigits (natText n) = Nat.ofDigitChars 10 (Nat.toDigits 10 n) 0 := by
    rw [natOfDigits, natText, List.foldl_map, Nat.ofDigitChars]
    refine List.foldl_ext _ _ _ fun m c hc => ?_
    have hdigit := toNat_of_mem_toDigits hc
    rw [toNat_byte (by omega)]
    rfl
  rw [hdigits, Nat.ofDigitChars_ten_toDigits]

theorem natOfDigits_append (a b : List UInt8) :
    natOfDigits (a ++ b) = natOfDigits a * 10 ^ b.length + natOfDigits b := by
  induction b using List.reverseRecOn with
  | nil => simp [natOfDigits]
  | append_singleton b d ih =>
    simp only [natOfDigits] at ih
    rw [natOfDigits, ← List.append_assoc, List.foldl_append, ih]
    simp only [natOfDigits, List.foldl_append, List.foldl_cons, List.foldl_nil, List.length_append,
      List.length_singleton, pow_succ]
    ring

end Digits

section Exact

/-- A number that a double holds is read as it is. -/
theorem normal_of_representable {q : ℚ} (h : Representable q) : ¬ (Overflows q ∨ Underflows q) := by
  rintro (hover | ⟨-, hne⟩)
  · rw [Overflows, h.roundPlaces_eq] at hover
    exact absurd h.1 (not_lt.mpr hover)
  · exact hne h.roundPlaces_eq

theorem representable_intCast {z : ℤ} (h : |z| ≤ 2 ^ 53) : Representable z := by
  refine ⟨?_, z, 0, h, by norm_num, by simp⟩
  have hle : |(z : ℚ)| ≤ 2 ^ 53 := by exact_mod_cast h
  exact hle.trans_lt (pow_lt_pow_right₀ (by norm_num) (by norm_num))

end Exact

section Ascii

theorem hexDigit_lt (n : ℕ) : n < 16 → hexDigit n < 128 := by
  intro h
  interval_cases n <;> decide

theorem hexText_lt (n : ℕ) : ∀ b ∈ hexText n, b < 128 := by
  intro b hb
  simp only [hexText, List.mem_cons, List.not_mem_nil, or_false] at hb
  rcases hb with rfl | rfl | rfl | rfl <;> exact hexDigit_lt _ (Nat.mod_lt _ (by decide))

theorem natText_lt (n : ℕ) : ∀ b ∈ natText n, b < 128 := by
  intro b hb
  have hdigit := isDigit_iff.mp (isDigit_of_mem_natText hb)
  rw [UInt8.lt_iff_toNat_lt]
  exact lt_of_le_of_lt hdigit.2 (by decide)

theorem intText_lt (z : ℤ) : ∀ b ∈ intText z, b < 128 := by
  intro b hb
  unfold intText at hb
  split_ifs at hb
  · rcases List.mem_cons.mp hb with rfl | hb
    · decide
    · exact natText_lt _ b hb
  · exact natText_lt _ b hb

theorem pointText_lt {fraction : List UInt8} (h : ∀ b ∈ fraction, b < 128) :
    ∀ b ∈ pointText fraction, b < 128 := by
  intro b hb
  simp only [pointText] at hb
  split_ifs at hb
  · cases hb
  · rcases List.mem_cons.mp hb with rfl | hb
    · decide
    · exact h b ((List.rdropWhile_prefix ..).subset hb)

theorem exponentText_lt (e : ℤ) : ∀ b ∈ exponentText e, b < 128 := by
  intro b hb
  simp only [exponentText, List.mem_cons] at hb
  rcases hb with rfl | rfl | hb
  · decide
  · split_ifs <;> decide
  · split_ifs at hb
    · rcases List.mem_cons.mp hb with rfl | hb
      · decide
      · exact natText_lt _ b hb
    · exact natText_lt _ b hb

theorem positiveText_lt (q : ℚ) : ∀ b ∈ positiveText q, b < 128 := by
  intro b hb
  have hdigits := natText_lt (tenDigits q).1
  simp only [positiveText] at hb
  split_ifs at hb
  · rcases List.mem_append.mp hb with hb | hb
    · rcases List.mem_append.mp hb with hb | hb
      · exact hdigits b (List.mem_of_mem_take hb)
      · exact pointText_lt (fun b hb => hdigits b (List.mem_of_mem_drop hb)) b hb
    · exact exponentText_lt _ b hb
  · rcases List.mem_cons.mp hb with rfl | hb
    · decide
    · refine pointText_lt (fun b hb => ?_) b hb
      rcases List.mem_append.mp hb with hb | hb
      · rw [List.eq_of_mem_replicate hb]
        decide
      · exact hdigits b hb
  · rcases List.mem_append.mp hb with hb | hb
    · exact hdigits b (List.mem_of_mem_take hb)
    · exact pointText_lt (fun b hb => hdigits b (List.mem_of_mem_drop hb)) b hb

theorem generalText_lt (q : ℚ) : ∀ b ∈ generalText q, b < 128 := by
  intro b hb
  unfold generalText at hb
  split_ifs at hb
  · rw [List.mem_singleton.mp hb]
    decide
  · rcases List.mem_cons.mp hb with rfl | hb
    · decide
    · exact positiveText_lt _ b hb
  · exact positiveText_lt _ b hb

end Ascii

end NetworkHealth.CNumber
