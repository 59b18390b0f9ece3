import Mathlib.Data.Int.Log
import Mathlib.Data.Nat.Digits.Lemmas
import Mathlib.Data.Rat.Floor
import Mathlib.Tactic.FieldSimp
import Mathlib.Tactic.Linarith
import Mathlib.Tactic.Positivity
import Mathlib.Tactic.Ring
import NetworkHealth.Library.JsonText

/-! The doubles, as the rationals they stand for. Decimal values are rounded to the nearest
of them, and each is written with the fewest digits that are read back as the same double. -/
namespace NetworkHealth

section Rounding

/-- The nearest integer, the even one of two that are equally near. -/
def roundEven (q : ℚ) : ℤ :=
  let below := ⌊q⌋
  if q - below < 1 / 2 then below
  else if 1 / 2 < q - below then below + 1
  else if below % 2 = 0 then below else below + 1

theorem roundEven_intCast (z : ℤ) : roundEven z = z := by
  simp [roundEven]

theorem roundEven_eq_or (q : ℚ) : roundEven q = ⌊q⌋ ∨ roundEven q = ⌊q⌋ + 1 := by
  simp only [roundEven]
  split_ifs <;> simp

theorem roundEven_neg (q : ℚ) : roundEven (-q) = -roundEven q := by
  by_cases hint : q = ⌊q⌋
  · rw [hint, ← Int.cast_neg, roundEven_intCast, roundEven_intCast]
  · have hpos : (⌊q⌋ : ℚ) < q := lt_of_le_of_ne (Int.floor_le q) (Ne.symm hint)
    have hfloor : ⌊-q⌋ = -⌊q⌋ - 1 := by
      rw [Int.floor_eq_iff]
      push_cast
      have hlt := Int.lt_floor_add_one q
      constructor <;> linarith
    simp only [roundEven, hfloor]
    push_cast
    split_ifs <;> first | omega | linarith

theorem abs_roundEven_le {q : ℚ} {n : ℤ} (h : |q| < n) : |roundEven q| ≤ n := by
  obtain ⟨hlow, hhigh⟩ := abs_lt.mp h
  have hfloor : -n ≤ ⌊q⌋ := Int.le_floor.mpr (by push_cast; exact hlow.le)
  have hlt : ⌊q⌋ < n := Int.floor_lt.mpr hhigh
  rw [abs_le]
  rcases roundEven_eq_or q with he | he <;> rw [he] <;> constructor <;> omega

theorem two_zpow_pos (e : ℤ) : (0 : ℚ) < 2 ^ e := zpow_pos (by norm_num) e

/-- The exponent of the last of the 53 binary places kept of a number. -/
def lastPlace (q : ℚ) : ℤ := max (-1074) (Int.log 2 |q| - 52)

/-- A number with 53 binary places or fewer within the range of a double. -/
def Representable (q : ℚ) : Prop :=
  |q| < 2 ^ 1024 ∧ ∃ m e : ℤ, |m| ≤ 2 ^ 53 ∧ -1074 ≤ e ∧ q = m * 2 ^ e

def roundPlaces (q : ℚ) : ℚ := roundEven (q / 2 ^ lastPlace q) * 2 ^ lastPlace q

theorem abs_lt_lastPlace (q : ℚ) : |q| < 2 ^ (lastPlace q + 53) := by
  have hlog : |q| < 2 ^ (Int.log 2 |q| + 1) := by
    simpa using Int.lt_zpow_succ_log_self (b := 2) (by decide) |q|
  have hle : Int.log 2 |q| + 1 ≤ lastPlace q + 53 := by
    have hmax := le_max_right (-1074) (Int.log 2 |q| - 52)
    simp only [lastPlace]
    omega
  exact hlog.trans_le (zpow_le_zpow_right₀ (by norm_num) hle)

theorem representable_roundPlaces {q : ℚ} (h : |roundPlaces q| < 2 ^ 1024) :
    Representable (roundPlaces q) := by
  refine ⟨h, roundEven (q / 2 ^ lastPlace q), lastPlace q, ?_, le_max_left _ _, rfl⟩
  apply abs_roundEven_le
  have hpos := two_zpow_pos (lastPlace q)
  rw [abs_div, abs_of_pos hpos, div_lt_iff₀ hpos]
  have hlt := abs_lt_lastPlace q
  rw [zpow_add₀ (by norm_num)] at hlt
  calc |q| < 2 ^ lastPlace q * 2 ^ (53 : ℤ) := hlt
    _ = ((2 ^ 53 : ℤ) : ℚ) * 2 ^ lastPlace q := by norm_num; ring

theorem div_two_zpow {q : ℚ} {m e p : ℤ} (hq : q = m * 2 ^ e) (hp : p ≤ e) :
    q / 2 ^ p = ((m * 2 ^ (e - p).toNat : ℤ) : ℚ) := by
  rw [hq, div_eq_iff (two_zpow_pos p).ne']
  push_cast
  rw [mul_assoc, ← zpow_natCast, Int.toNat_of_nonneg (by omega), ← zpow_add₀ (by norm_num)]
  congr 2
  omega

/-- Fewer places than are kept leave only the number right above them, a power of two. -/
theorem lastPlace_eq_of_lt {q : ℚ} {m e : ℤ} (hne : q ≠ 0) (hm : |m| ≤ 2 ^ 53) (he : -1074 ≤ e)
    (hq : q = m * 2 ^ e) (hlt : e < lastPlace q) : |m| = 2 ^ 53 ∧ lastPlace q = e + 1 := by
  have hplace : lastPlace q = Int.log 2 |q| - 52 := by
    simp only [lastPlace] at hlt ⊢
    omega
  have hlog : (2 : ℚ) ^ Int.log 2 |q| ≤ |q| := by
    simpa using Int.zpow_log_le_self (b := 2) (by decide) (abs_pos.mpr hne)
  have habs : |q| = (|m| : ℤ) * 2 ^ e := by
    rw [hq, abs_mul, abs_of_pos (two_zpow_pos e), Int.cast_abs]
  have hmq : ((|m| : ℤ) : ℚ) ≤ 2 ^ (53 : ℤ) := by exact_mod_cast hm
  have hupper : |q| ≤ 2 ^ (e + 53) := by
    rw [habs, add_comm, zpow_add₀ (by norm_num)]
    exact mul_le_mul_of_nonneg_right hmq (two_zpow_pos e).le
  have hexp : Int.log 2 |q| ≤ e + 53 :=
    (zpow_le_zpow_iff_right₀ (by norm_num)).mp (hlog.trans hupper)
  have heq : Int.log 2 |q| = e + 53 := by omega
  refine ⟨?_, by omega⟩
  have hlower : (2 : ℚ) ^ (53 : ℤ) ≤ (|m| : ℤ) := by
    rw [heq, habs, add_comm, zpow_add₀ (by norm_num)] at hlog
    exact le_of_mul_le_mul_right hlog (two_zpow_pos e)
  have hlowerInt : (2 : ℤ) ^ 53 ≤ |m| := by exact_mod_cast hlower
  omega

/-- A representable number is a whole multiple of its last place. -/
theorem Representable.div_lastPlace {q : ℚ} (h : Representable q) :
    ∃ z : ℤ, q / 2 ^ lastPlace q = z := by
  obtain ⟨-, m, e, hm, he, hq⟩ := h
  by_cases hne : q = 0
  · exact ⟨0, by simp [hne]⟩
  rcases le_or_gt (lastPlace q) e with hle | hlt
  · exact ⟨_, div_two_zpow hq hle⟩
  · obtain ⟨hpower, hplace⟩ := lastPlace_eq_of_lt hne hm he hq hlt
    have hhalf : ∃ z : ℤ, m = z * 2 := by
      rcases abs_eq (by norm_num) |>.mp hpower with hm | hm
      · exact ⟨2 ^ 52, by omega⟩
      · exact ⟨-2 ^ 52, by omega⟩
    obtain ⟨z, rfl⟩ := hhalf
    refine ⟨_, div_two_zpow (m := z) (e := e + 1) ?_ hplace.le⟩
    rw [hq, zpow_add₀ (by norm_num)]
    push_cast
    ring

theorem Representable.roundPlaces_eq {q : ℚ} (h : Representable q) : roundPlaces q = q := by
  obtain ⟨z, hz⟩ := h.div_lastPlace
  have hne := (two_zpow_pos (lastPlace q)).ne'
  rw [roundPlaces, hz, roundEven_intCast, ← hz, div_mul_cancel₀ _ hne]

theorem roundPlaces_neg (q : ℚ) : roundPlaces (-q) = -roundPlaces q := by
  simp only [roundPlaces, lastPlace, abs_neg, neg_div, roundEven_neg]
  push_cast
  ring

end Rounding

section Digits

def digitUnit (d : ℕ) : UInt16 := (48 + d).toUInt16

/-- The decimal digits of a number, none for zero. -/
def natText (n : ℕ) : CodeUnits := (Nat.digits 10 n).reverse.map digitUnit

theorem isDigit_digitUnit {d : ℕ} (h : d < 10) : isDigit (digitUnit d) = true := by
  have hall : ∀ d : Fin 10, isDigit (digitUnit d.val) = true := by decide
  exact hall ⟨d, h⟩

theorem digitUnit_toNat {d : ℕ} (h : d < 10) : (digitUnit d).toNat - 48 = d := by
  have hall : ∀ d : Fin 10, (digitUnit d.val).toNat - 48 = d.val := by decide
  exact hall ⟨d, h⟩

theorem natOfDigits_append (a b : CodeUnits) :
    natOfDigits (a ++ b) = natOfDigits a * 10 ^ b.length + natOfDigits b := by
  induction b using List.reverseRecOn with
  | nil => simp [natOfDigits]
  | append_singleton b c ih =>
    rw [← List.append_assoc]
    simp only [natOfDigits, List.foldl_append, List.foldl_cons, List.foldl_nil, List.length_append,
      List.length_cons, List.length_nil] at ih ⊢
    rw [ih]
    ring

theorem natOfDigits_zeros (n : ℕ) : natOfDigits (List.replicate n (unit '0')) = 0 := by
  induction n with
  | zero => rfl
  | succ n ih =>
    rw [List.replicate_succ', natOfDigits_append, ih]
    rfl

theorem natOfDigits_reverse {ds : List ℕ} (h : ∀ d ∈ ds, d < 10) :
    natOfDigits (ds.reverse.map digitUnit) = Nat.ofDigits 10 ds := by
  induction ds with
  | nil => rfl
  | cons d ds ih =>
    have hd := digitUnit_toNat (h d (by simp))
    rw [List.reverse_cons, List.map_append, natOfDigits_append, ih fun e he => h e (by simp [he]),
      Nat.ofDigits_cons]
    simp only [natOfDigits, List.map_cons, List.map_nil, List.foldl_cons, List.foldl_nil,
      List.length_cons, List.length_nil, hd]
    ring

@[simp] theorem natOfDigits_natText (n : ℕ) : natOfDigits (natText n) = n := by
  rw [natText, natOfDigits_reverse fun d hd => Nat.digits_lt_base (by decide) hd,
    Nat.ofDigits_digits]

theorem isDigit_of_mem_natText {n : ℕ} {c : UInt16} (h : c ∈ natText n) : isDigit c = true := by
  obtain ⟨d, hd, rfl⟩ := List.mem_map.mp h
  exact isDigit_digitUnit (Nat.digits_lt_base (by decide) (List.mem_reverse.mp hd))

/-- A positive number begins with a digit other than zero. -/
theorem natText_head {n : ℕ} (h : 0 < n) : ∃ c rest, natText n = c :: rest ∧ c ≠ unit '0' := by
  have hne : Nat.digits 10 n ≠ [] := Nat.digits_ne_nil_iff_ne_zero.mpr h.ne'
  have hlast := Nat.getLast_digit_ne_zero 10 h.ne'
  have hlt : (Nat.digits 10 n).getLast hne < 10 :=
    Nat.digits_lt_base (by decide) (List.getLast_mem hne)
  refine ⟨digitUnit ((Nat.digits 10 n).getLast hne),
    (Nat.digits 10 n).dropLast.reverse.map digitUnit, ?_, ?_⟩
  · rw [natText]
    conv_lhs => rw [← List.dropLast_append_getLast hne]
    simp
  · intro hzero
    have hvalue := digitUnit_toNat hlt
    rw [hzero] at hvalue
    exact hlast (by simpa [unit] using hvalue.symm)

/-- The exponent as it is written, with its sign. -/
def exponentText (e : ℤ) : CodeUnits :=
  unit 'e' :: (if e < 0 then unit '-' else unit '+') :: natText e.natAbs

/-- The digits of a positive number with the point behind the first `n` of them, as
`Number::toString` lays them out. -/
def placePoint (ds : CodeUnits) (n : ℤ) : CodeUnits :=
  if ds.length ≤ n ∧ n ≤ 21 then ds ++ List.replicate (n - ds.length).toNat (unit '0')
  else if 0 < n ∧ n ≤ 21 then ds.take n.toNat ++ unit '.' :: ds.drop n.toNat
  else if -6 < n ∧ n ≤ 0 then
    unit '0' :: unit '.' :: (List.replicate (-n).toNat (unit '0') ++ ds)
  else if ds.length = 1 then ds ++ exponentText (n - 1)
  else ds.take 1 ++ unit '.' :: (ds.drop 1 ++ exponentText (n - 1))

theorem digitsOnly_natText {n : ℕ} (h : 0 < n) : digitsOnly (natText n) = some n := by
  obtain ⟨c, rest, htext, -⟩ := natText_head h
  have hall : (natText n).all isDigit = true :=
    List.all_eq_true.mpr fun c hc => isDigit_of_mem_natText hc
  have hne : natText n ≠ [] := by simp [htext]
  simp only [digitsOnly, if_pos (And.intro hne hall), natOfDigits_natText]

theorem scanExponent_exponentText {e : ℤ} (h : e ≠ 0) : scanExponent (exponentText e) = some e := by
  have hdigits := digitsOnly_natText (Int.natAbs_pos.mpr h)
  have hplus : unit '+' ≠ unit '-' := by decide
  simp only [exponentText, scanExponent, true_or, if_true]
  split_ifs with hneg
  · simp only [scanSigned, if_true, hdigits, Option.map_some]
    congr 1
    omega
  · simp only [scanSigned, if_neg hplus, if_true, hdigits, Option.map_some]
    congr 1
    omega

/-- What follows the digits of a decimal begins with none. -/
def Ends (cs : CodeUnits) : Prop := ∀ c ∈ cs.head?, isDigit c = false

theorem takeWhile_isDigit {ds tail : CodeUnits} (hds : ∀ c ∈ ds, isDigit c = true) (ht : Ends tail) :
    (ds ++ tail).takeWhile isDigit = ds ∧ (ds ++ tail).dropWhile isDigit = tail := by
  rw [List.takeWhile_append_of_pos hds, List.dropWhile_append_of_pos hds]
  cases tail with
  | nil => simp
  | cons c tail => simp [ht c rfl]

/-- The whole part of a number token: digits, with no zero before another. -/
structure Whole (ds : CodeUnits) : Prop where
  digits : ∀ c ∈ ds, isDigit c = true
  nonempty : ds ≠ []
  head : ds.head? = some (unit '0') → ds.length = 1

theorem jsonDecimal_point {whole fraction tail : CodeUnits} {e : ℤ} (hwhole : Whole whole)
    (hfraction : ∀ c ∈ fraction, isDigit c = true) (hne : fraction ≠ []) (htail : Ends tail)
    (he : scanExponent tail = some e) :
    jsonDecimal (whole ++ unit '.' :: (fraction ++ tail)) =
      some ((natOfDigits (whole ++ fraction) : ℚ) * 10 ^ (e - fraction.length)) := by
  have hpoint : Ends (unit '.' :: (fraction ++ tail)) := by
    rintro c hc
    obtain rfl : unit '.' = c := by simpa using hc
    decide
  obtain ⟨htake, hdrop⟩ := takeWhile_isDigit hwhole.digits hpoint
  obtain ⟨htake', hdrop'⟩ := takeWhile_isDigit hfraction htail
  have hjson : (⟨whole, some fraction, e⟩ : Decimal).isJson = true := by
    have hhead := hwhole.head
    simp only [Decimal.isJson, Bool.and_eq_true, Bool.or_eq_true, decide_eq_true_eq]
    exact ⟨⟨hwhole.nonempty, by tauto⟩, by simpa using hne⟩
  simp only [jsonDecimal, scanDecimal, htake, hdrop, if_true, htake', hdrop', he, Option.map_some,
    Option.bind_some, hjson, Decimal.value, Decimal.fractionDigits, Option.getD_some]

theorem jsonDecimal_whole {whole tail : CodeUnits} {e : ℤ} (hwhole : Whole whole)
    (htail : Ends tail) (hpoint : ∀ c ∈ tail.head?, c ≠ unit '.') (he : scanExponent tail = some e) :
    jsonDecimal (whole ++ tail) = some ((natOfDigits whole : ℚ) * 10 ^ e) := by
  obtain ⟨htake, hdrop⟩ := takeWhile_isDigit hwhole.digits htail
  have hscan : scanDecimal (whole ++ tail) = some ⟨whole, none, e⟩ := by
    simp only [scanDecimal, htake, hdrop]
    cases tail with
    | nil =>
      cases he
      rfl
    | cons c tail => simp only [if_neg (hpoint c rfl), he, Option.map_some]
  have hjson : (⟨whole, none, e⟩ : Decimal).isJson = true := by
    have hhead := hwhole.head
    simp only [Decimal.isJson, Bool.and_eq_true, Bool.or_eq_true, decide_eq_true_eq]
    exact ⟨⟨hwhole.nonempty, by tauto⟩, by simp⟩
  simp [jsonDecimal, hscan, hjson, Decimal.value, Decimal.fractionDigits]

/-- Digits without a leading zero, as `natText` gives them. -/
structure Significant (ds : CodeUnits) : Prop where
  digits : ∀ c ∈ ds, isDigit c = true
  head : ∃ c rest, ds = c :: rest ∧ c ≠ unit '0'

theorem significant_natText {n : ℕ} (h : 0 < n) : Significant (natText n) :=
  ⟨fun _ hc => isDigit_of_mem_natText hc, natText_head h⟩

theorem isDigit_zeros {n : ℕ} : ∀ c ∈ List.replicate n (unit '0'), isDigit c = true := by
  intro c hc
  rw [List.eq_of_mem_replicate hc]
  decide

theorem ends_exponentText (e : ℤ) : Ends (exponentText e) := by
  rintro c hc
  obtain rfl : unit 'e' = c := by simpa [exponentText] using hc
  decide

namespace Significant
variable {ds : CodeUnits} (h : Significant ds)
include h

theorem whole_append (more : CodeUnits) (hmore : ∀ c ∈ more, isDigit c = true) : Whole (ds ++ more) := by
  obtain ⟨hds, c, rest, rfl, hzero⟩ := h
  refine ⟨?_, by simp, fun hhead => absurd (by simpa using hhead) hzero⟩
  intro d hd
  exact (List.mem_append.mp hd).elim (hds d) (hmore d)

theorem whole_take {n : ℕ} (hn : 0 < n) : Whole (ds.take n) := by
  obtain ⟨hds, c, rest, rfl, hzero⟩ := h
  obtain ⟨m, rfl⟩ : ∃ m, n = m + 1 := ⟨n - 1, by omega⟩
  exact ⟨fun d hd => hds d (List.mem_of_mem_take hd), by simp, fun hhead => absurd (by simpa using hhead) hzero⟩

end Significant

/-- The laid out digits are a number token of JSON for what they stand for. -/
theorem jsonDecimal_placePoint {ds : CodeUnits} (h : Significant ds) (n : ℤ) :
    jsonDecimal (placePoint ds n) = some ((natOfDigits ds : ℚ) * 10 ^ (n - ds.length)) := by
  have hnil : Ends [] := by simp [Ends]
  have hlength : 0 < ds.length := by
    obtain ⟨c, rest, hcons, -⟩ := h.head
    simp [hcons]
  unfold placePoint
  split_ifs with hwhole hinside hsmall hone
  · have hread := jsonDecimal_whole
      (h.whole_append _ (isDigit_zeros (n := (n - ds.length).toNat))) hnil (by simp) rfl
    rw [List.append_nil] at hread
    rw [hread, natOfDigits_append, natOfDigits_zeros, List.length_replicate]
    push_cast
    rw [← zpow_natCast, Int.toNat_of_nonneg (by omega)]
    simp
  · have hne : ds.drop n.toNat ≠ [] := by
      rw [Ne, List.drop_eq_nil_iff]
      omega
    have hread := jsonDecimal_point (h.whole_take (by omega : 0 < n.toNat))
      (fun d hd => h.digits d (List.mem_of_mem_drop hd)) hne hnil rfl
    rw [List.append_nil, List.take_append_drop, List.length_drop] at hread
    rw [hread]
    congr 3
    omega
  · have hzero : Whole [unit '0'] := by
      refine ⟨?_, by simp, fun _ => rfl⟩
      intro c hc
      rw [List.mem_singleton.mp hc]
      decide
    have hdigits : ∀ c ∈ List.replicate (-n).toNat (unit '0') ++ ds, isDigit c = true := by
      intro c hc
      exact (List.mem_append.mp hc).elim (isDigit_zeros c) (h.digits c)
    have hread := jsonDecimal_point hzero hdigits (by simp [List.ne_nil_of_length_pos hlength]) hnil rfl
    rw [List.append_nil] at hread
    simp only [List.cons_append, List.nil_append] at hread
    rw [hread]
    have hvalue : natOfDigits (unit '0' :: (List.replicate (-n).toNat (unit '0') ++ ds)) = natOfDigits ds := by
      rw [← List.cons_append, ← List.replicate_succ, natOfDigits_append, natOfDigits_zeros]
      simp
    rw [hvalue]
    congr 3
    simp only [List.length_append, List.length_replicate]
    omega
  · have hread := jsonDecimal_whole (h.whole_append [] (by simp)) (ends_exponentText (n - 1))
      (by simp [exponentText]; decide) (scanExponent_exponentText (by omega))
    rw [List.append_nil] at hread
    rw [hread, hone]
    rfl
  · have hne : ds.drop 1 ≠ [] := by
      rw [Ne, List.drop_eq_nil_iff]
      omega
    have hread := jsonDecimal_point (h.whole_take (by omega : 0 < 1))
      (fun d hd => h.digits d (List.mem_of_mem_drop hd)) hne (ends_exponentText (n - 1))
      (scanExponent_exponentText (by omega))
    rw [List.take_append_drop, List.length_drop] at hread
    rw [hread]
    congr 3
    omega

end Digits

section Shortest

/-- The multiples of a power of ten next to a number, the nearer one first. -/
def neighbours (q : ℚ) (p : ℤ) : List ℕ :=
  let near := roundEven (q / 10 ^ p)
  let below := ⌊q / 10 ^ p⌋
  [near.toNat, (if near = below then below + 1 else below).toNat]

/-- A positive number with `k + 1` digits that is rounded to this one. -/
def short (q : ℚ) (k : ℕ) : Option (ℕ × ℤ) :=
  let p := Int.log 10 q - k
  ((neighbours q p).find? fun s : ℕ => 0 < s ∧ roundPlaces (s * 10 ^ p) = q).map fun s => (s, p)

/-- All the digits of a positive representable number. -/
def exactDigits (q : ℚ) : ℕ × ℤ :=
  let p := lastPlace q
  let m := ⌊q / 2 ^ p⌋.toNat
  if 0 ≤ p then (m * 2 ^ p.toNat, 0) else (m * 5 ^ (-p).toNat, p)

def stripZeros : ℕ → ℕ × ℤ → ℕ × ℤ
  | 0, d => d
  | fuel + 1, d => if d.1 % 10 = 0 then stripZeros fuel (d.1 / 10, d.2 + 1) else d

/-- The digits and exponent of `Number::toString`. Seventeen digits tell any two doubles
apart, so that all of them are never asked for. -/
def shortest (q : ℚ) : ℕ × ℤ :=
  stripZeros 17 (((List.range 17).findSome? (short q)).getD (exactDigits q))

/-- Stands for a positive number that is rounded to this one. -/
structure Spells (q : ℚ) (d : ℕ × ℤ) : Prop where
  pos : 0 < d.1
  rounds : roundPlaces (d.1 * 10 ^ d.2) = q

theorem spells_short {q : ℚ} {k : ℕ} {d : ℕ × ℤ} (h : short q k = some d) : Spells q d := by
  obtain ⟨s, hs, rfl⟩ := Option.map_eq_some_iff.mp h
  have hfound := List.find?_some hs
  simp only [decide_eq_true_eq] at hfound
  exact ⟨hfound.1, hfound.2⟩

theorem spells_exactDigits {q : ℚ} (hpos : 0 < q) (h : Representable q) :
    Spells q (exactDigits q) := by
  obtain ⟨z, hz⟩ := h.div_lastPlace
  have hzpos : 0 < z := by
    have hdiv : 0 < q / 2 ^ lastPlace q := div_pos hpos (two_zpow_pos _)
    rw [hz] at hdiv
    exact_mod_cast hdiv
  have hcast : ((z.toNat : ℕ) : ℚ) = z := by
    rw [← Int.cast_natCast, Int.toNat_of_nonneg hzpos.le]
  have hq : q = z * 2 ^ lastPlace q := by
    rw [← hz, div_mul_cancel₀ _ (two_zpow_pos _).ne']
  have hvalue : ((exactDigits q).1 : ℚ) * 10 ^ (exactDigits q).2 = q := by
    simp only [exactDigits, hz, Int.floor_intCast]
    split_ifs with hp
    · obtain ⟨n, hn⟩ := Int.eq_ofNat_of_zero_le hp
      rw [hn] at hq ⊢
      push_cast [Int.toNat_natCast]
      rw [hcast, hq]
      simp
    · obtain ⟨n, hn⟩ : ∃ n : ℕ, lastPlace q = -n := ⟨(-lastPlace q).toNat, by omega⟩
      have hten : (10 : ℚ) ^ n = 5 ^ n * 2 ^ n := by
        rw [← mul_pow]
        norm_num
      rw [hn] at hq ⊢
      rw [neg_neg, Int.toNat_natCast]
      push_cast
      rw [hcast, hq, zpow_neg, zpow_neg, zpow_natCast, zpow_natCast, hten]
      field_simp
  refine ⟨?_, by rw [hvalue, h.roundPlaces_eq]⟩
  rw [Nat.pos_iff_ne_zero]
  intro hzero
  rw [hzero] at hvalue
  simp only [Nat.cast_zero, zero_mul] at hvalue
  exact hpos.ne hvalue

theorem spells_stripZeros {q : ℚ} (fuel : ℕ) {d : ℕ × ℤ} (h : Spells q d) :
    Spells q (stripZeros fuel d) := by
  induction fuel generalizing d with
  | zero => exact h
  | succ fuel ih =>
    simp only [stripZeros]
    split_ifs with hzero
    · apply ih
      obtain ⟨hpos, hrounds⟩ := h
      have hten : (d.1 : ℚ) = (d.1 / 10 : ℕ) * 10 := by
        have hdiv : d.1 = d.1 / 10 * 10 := by omega
        exact_mod_cast hdiv
      refine ⟨by dsimp only; omega, ?_⟩
      rw [← hrounds, hten, zpow_add₀ (by norm_num), zpow_one]
      congr 1
      ring
    · exact h

theorem spells_shortest {q : ℚ} (hpos : 0 < q) (h : Representable q) : Spells q (shortest q) := by
  apply spells_stripZeros
  cases hfound : (List.range 17).findSome? (short q) with
  | none => exact spells_exactDigits hpos h
  | some d =>
    obtain ⟨k, -, hk⟩ := List.exists_of_findSome?_eq_some hfound
    exact spells_short hk

end Shortest

/-- A finite double. -/
def Binary64 : Type := { q : ℚ // Representable q }

namespace Binary64

instance : LinearOrder Binary64 := inferInstanceAs (LinearOrder { q : ℚ // Representable q })

def nearest (q : ℚ) : Number Binary64 :=
  if h : |roundPlaces q| < 2 ^ 1024 then .finite ⟨roundPlaces q, representable_roundPlaces h⟩
  else .infinite (q < 0)

theorem nearest_val (x : Binary64) : nearest x.val = .finite x := by
  have hround := x.property.roundPlaces_eq
  have hlt : |roundPlaces x.val| < 2 ^ 1024 := by rw [hround]; exact x.property.1
  simp only [nearest, dif_pos hlt]
  exact congrArg Number.finite (Subtype.ext hround)

theorem representable_natCast {n : ℕ} (h : n ≤ 2 ^ 53) : Representable n := by
  refine ⟨?_, n, 0, by rw [Nat.abs_cast]; exact_mod_cast h, by norm_num, by simp⟩
  rw [Nat.abs_cast]
  have hle : (n : ℚ) ≤ 2 ^ 53 := by exact_mod_cast h
  exact hle.trans_lt (pow_lt_pow_right₀ (by norm_num) (by norm_num))

/-- Counting is exact up to here. -/
def ofCount (n : ℕ) (h : n ≤ 2 ^ 53) : Binary64 := ⟨n, representable_natCast h⟩

theorem nearest_natCast {n : ℕ} (h : n ≤ 2 ^ 53) : nearest n = .finite (ofCount n h) :=
  nearest_val (ofCount n h)

/-- The text of a positive number. -/
def positiveText (q : ℚ) : CodeUnits :=
  let d := shortest q
  placePoint (natText d.1) ((natText d.1).length + d.2)

/-- `Number::toString`. -/
def text (x : Binary64) : CodeUnits :=
  if x.val = 0 then [unit '0']
  else if x.val < 0 then unit '-' :: positiveText (-x.val)
  else positiveText x.val

theorem jsonDecimal_positiveText {q : ℚ} (hpos : 0 < q) (h : Representable q) :
    ∃ r, jsonDecimal (positiveText q) = some r ∧ roundPlaces r = q := by
  obtain ⟨hd, hrounds⟩ := spells_shortest hpos h
  refine ⟨_, jsonDecimal_placePoint (significant_natText hd) _, ?_⟩
  rw [natOfDigits_natText, add_sub_cancel_left]
  exact hrounds

theorem nearest_of_roundPlaces {q : ℚ} {x : Binary64} (h : roundPlaces q = x.val) :
    nearest q = .finite x := by
  have hlt : |roundPlaces q| < 2 ^ 1024 := by rw [h]; exact x.property.1
  simp only [nearest, dif_pos hlt]
  exact congrArg Number.finite (Subtype.ext h)

theorem representable_neg {q : ℚ} (h : Representable q) : Representable (-q) := by
  obtain ⟨hlt, m, e, hm, he, hq⟩ := h
  refine ⟨by rwa [abs_neg], -m, e, by rwa [abs_neg], he, ?_⟩
  rw [hq]
  push_cast
  ring

/-- The text of a double is a number token that is read back as the double. -/
theorem nearest_text (x : Binary64) : ∃ q, jsonNumber (text x) = some q ∧ nearest q = .finite x := by
  unfold text
  split_ifs with hzero hneg
  · refine ⟨0, by decide +kernel, nearest_of_roundPlaces ?_⟩
    rw [hzero]
    simp [roundPlaces, roundEven]
  · obtain ⟨r, hr, hround⟩ := jsonDecimal_positiveText (neg_pos.mpr hneg) (representable_neg x.property)
    refine ⟨-r, ?_, nearest_of_roundPlaces ?_⟩
    · simp only [jsonNumber, if_true, hr, Option.map_some]
    · rw [roundPlaces_neg, hround, neg_neg]
  · have hpos : 0 < x.val := lt_of_le_of_ne (not_lt.mp hneg) (Ne.symm hzero)
    obtain ⟨r, hr, hround⟩ := jsonDecimal_positiveText hpos x.property
    refine ⟨r, ?_, nearest_of_roundPlaces hround⟩
    obtain ⟨-, c, rest, hcons, hdigit⟩ := all_jsonDecimal hr
    have hminus := ne_of_isDigit (d := unit '-') hdigit (by decide)
    rw [hcons] at hr ⊢
    simp only [jsonNumber, if_neg hminus, hr]

instance : NumberFormat Binary64 where
  nearest := nearest
  text := text
  nearest_text := nearest_text
  nearest_natCast _ h := ⟨_, nearest_natCast h⟩

end Binary64
end NetworkHealth
