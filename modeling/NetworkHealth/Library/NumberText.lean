import NetworkHealth.Library.CNumber
import NetworkHealth.Library.Conversion

/-! Numbers that the C library writes and a JavaScript engine reads. An integer is read as it is,
and of any other number `%.10g` leaves ten significant digits. -/
namespace NetworkHealth.CNumber

/-- Bytes of ASCII as the code units of a text. -/
def widen (bytes : List UInt8) : CodeUnits := bytes.map UInt8.toUInt16

@[simp] theorem widen_append (a b : List UInt8) : widen (a ++ b) = widen a ++ widen b := List.map_append

@[simp] theorem widen_cons (b : UInt8) (rest : List UInt8) : widen (b :: rest) = b.toUInt16 :: widen rest := rfl

@[simp] theorem widen_nil : widen [] = [] := rfl

section Digits

theorem isDigit_toUInt16 (b : UInt8) : NetworkHealth.isDigit b.toUInt16 = isDigit b := by
  have hall : ∀ n : Fin 256, NetworkHealth.isDigit (UInt8.ofFin n).toUInt16 = isDigit (UInt8.ofFin n) := by
    decide +kernel
  exact hall b.toFin

theorem isDigit_widen {ds : List UInt8} (h : ∀ d ∈ ds, isDigit d = true) :
    ∀ c ∈ widen ds, NetworkHealth.isDigit c = true := by
  intro c hc
  obtain ⟨d, hd, rfl⟩ := List.mem_map.mp hc
  rw [isDigit_toUInt16, h d hd]

theorem natOfDigits_widen (ds : List UInt8) : NetworkHealth.natOfDigits (widen ds) = natOfDigits ds := by
  rw [NetworkHealth.natOfDigits, widen, List.foldl_map, natOfDigits]
  rfl

/-- The digits of a number stand before a point or an exponent as they are. -/
theorem whole_natText (n : ℕ) : Whole (widen (natText n)) := by
  refine ⟨isDigit_widen fun d hd => isDigit_of_mem_natText hd, by simp [widen, natText_ne_nil], fun hhead => ?_⟩
  by_cases hpos : 0 < n
  · have hne := head_natText hpos
    cases hdigits : natText n with
    | nil => exact absurd hdigits (natText_ne_nil n)
    | cons d rest =>
      rw [hdigits] at hhead hne
      have hzero : d.toUInt16 = (byte '0').toUInt16 := Option.some.inj hhead
      exact absurd (congrArg some (UInt8.toUInt16_inj.mp hzero)) hne
  · obtain rfl : n = 0 := by omega
    decide

theorem length_natText {n k : ℕ} (hlow : 10 ^ k ≤ n) (hhigh : n < 10 ^ (k + 1)) : (natText n).length = k + 1 := by
  have hle := (Nat.length_toDigits_le_iff (b := 10) (by decide) (Nat.succ_pos k)).mpr hhigh
  rw [natText, List.length_map]
  by_contra hne
  have hpos := Nat.length_toDigits_pos (b := 10) (n := n)
  by_cases hk : 0 < k
  · have hlt := (Nat.length_toDigits_le_iff (b := 10) (by decide) hk).mp
      (show (Nat.toDigits 10 n).length ≤ k by omega)
    omega
  · omega

end Digits

section Sign

theorem jsonNumber_minus (text : List UInt8) :
    jsonNumber (widen (byte '-' :: text)) = (jsonDecimal (widen text)).map fun q => -q := by
  have hminus : (byte '-').toUInt16 = unit '-' := by decide
  rw [widen_cons, hminus, jsonNumber, if_pos rfl]

theorem jsonNumber_of_digit {d : UInt8} (hd : isDigit d = true) (rest : List UInt8) :
    jsonNumber (widen (d :: rest)) = jsonDecimal (widen (d :: rest)) := by
  have hdigit : NetworkHealth.isDigit d.toUInt16 = true := by rw [isDigit_toUInt16, hd]
  rw [widen_cons, jsonNumber, if_neg (ne_of_isDigit hdigit (by decide))]

theorem ends_nil : Ends [] := by simp [Ends]

theorem jsonDecimal_natText (n : ℕ) : jsonDecimal (widen (natText n)) = some (n : ℚ) := by
  have hread := jsonDecimal_whole (whole_natText n) ends_nil (by simp) rfl
  rwa [List.append_nil, natOfDigits_widen, natOfDigits_natText, zpow_zero, mul_one] at hread

theorem exists_natText (n : ℕ) : ∃ d rest, natText n = d :: rest ∧ isDigit d = true := by
  obtain ⟨d, rest, hcons⟩ := List.exists_cons_of_ne_nil (natText_ne_nil n)
  exact ⟨d, rest, hcons, isDigit_of_mem_natText (hcons ▸ List.mem_cons_self)⟩

theorem jsonNumber_intText (z : ℤ) : jsonNumber (widen (intText z)) = some (z : ℚ) := by
  unfold intText
  split_ifs with hneg
  · have habs : (z.natAbs : ℚ) = -z := by
      rw [← Int.cast_natCast, Int.ofNat_natAbs_of_nonpos hneg.le, Int.cast_neg]
    rw [jsonNumber_minus, jsonDecimal_natText, Option.map_some, habs, neg_neg]
  · have habs : (z.natAbs : ℚ) = z := by
      rw [← Int.cast_natCast, Int.natAbs_of_nonneg (not_lt.mp hneg)]
    obtain ⟨d, rest, hcons, hd⟩ := exists_natText z.natAbs
    rw [hcons, jsonNumber_of_digit hd, ← hcons, jsonDecimal_natText, habs]

end Sign

section Conversion

theorem not_isWhiteSpace_of_isDigit {c : UInt16} (h : NetworkHealth.isDigit c = true) : isWhiteSpace c = false := by
  have hall : ∀ d : Fin 10, isWhiteSpace (UInt16.ofNat (48 + d.val)) = false := by decide
  have hbounds : 48 ≤ c.toNat ∧ c.toNat ≤ 57 := by
    simpa [NetworkHealth.isDigit, unit, UInt16.le_iff_toNat_le] using h
  have hc := hall ⟨c.toNat - 48, by omega⟩
  rwa [Nat.add_sub_cancel' hbounds.1, UInt16.ofNat_toNat] at hc

theorem trim_digits {cs : CodeUnits} (h : ∀ c ∈ cs, NetworkHealth.isDigit c = true) : trim cs = cs := by
  have hkeep : ∀ ds : CodeUnits, (∀ c ∈ ds, NetworkHealth.isDigit c = true) → ds.dropWhile isWhiteSpace = ds := by
    intro ds hds
    cases ds with
    | nil => rfl
    | cons d rest => exact List.dropWhile_cons_of_neg (by simp [not_isWhiteSpace_of_isDigit (hds d List.mem_cons_self)])
  rw [trim, hkeep cs h, hkeep cs.reverse fun c hc => h c (List.mem_reverse.mp hc), List.reverse_reverse]

/-- `Number(text)` of the digits of a number. -/
theorem ofText_natText {F : Type} [NumberFormat F] (n : ℕ) :
    (Number.ofText (widen (natText n)) : Number F) = NumberFormat.nearest n := by
  have hdigits := (whole_natText n).digits
  obtain ⟨d, hscan, hjson⟩ := Option.bind_eq_some_iff.mp (jsonDecimal_natText n)
  split_ifs at hjson with hisJson
  have hvalue : d.value = n := Option.some.inj hjson
  have hwhole : d.whole ≠ [] := by
    intro hnil
    simp [Decimal.isJson, hnil] at hisJson
  have hliteral : decimalLiteral (widen (natText n)) = some (n : ℚ) := by
    rw [decimalLiteral, hscan, Option.bind_some, if_pos (Or.inl hwhole), hvalue]
  have hne := (whole_natText n).nonempty
  generalize widen (natText n) = cs at hdigits hliteral hne ⊢
  have hinfinity : cs ≠ units "Infinity" := by
    rintro rfl
    exact absurd (hdigits (unit 'I') (by decide)) (by decide)
  have hsignless : numericLiteral.signless false cs = some (NumberFormat.nearest (F := F) n) := by
    rw [numericLiteral.signless, if_neg hinfinity, hliteral]
    rfl
  have hnumeric : numericLiteral cs = some (NumberFormat.nearest (F := F) n) := by
    -- neither a letter nor a sign is a digit
    have hsecond : ∀ a c rest, cs = a :: c :: rest → NetworkHealth.isDigit c = true := fun a c rest he =>
      hdigits c (by simp [he])
    have hfirst : ∀ a rest, cs = a :: rest → NetworkHealth.isDigit a = true := fun a rest he => hdigits a (by simp [he])
    unfold numericLiteral
    split
    · exact absurd (hsecond _ _ _ rfl) (by decide)
    · exact absurd (hsecond _ _ _ rfl) (by decide)
    · exact absurd (hsecond _ _ _ rfl) (by decide)
    · exact absurd (hsecond _ _ _ rfl) (by decide)
    · exact absurd (hsecond _ _ _ rfl) (by decide)
    · exact absurd (hsecond _ _ _ rfl) (by decide)
    · exact absurd (hfirst _ _ rfl) (by decide)
    · exact absurd (hfirst _ _ rfl) (by decide)
    · exact hsignless
  rw [Number.ofText, trim_digits hdigits, if_neg hne, hnumeric, Option.getD_some]

end Conversion

section Point

theorem natOfDigits_zeros (k : ℕ) : natOfDigits (List.replicate k (byte '0')) = 0 := by
  induction k with
  | zero => rfl
  | succ k ih => simpa [natOfDigits, List.replicate_succ, byte] using ih

/-- Digits with a fraction whose last zeros are left out. -/
theorem jsonDecimal_pointText {whole fraction : List UInt8} {tail : CodeUnits} {e : ℤ} (hwhole : Whole (widen whole))
    (hfraction : ∀ d ∈ fraction, isDigit d = true) (htail : Ends tail) (hpoint : ∀ c ∈ tail.head?, c ≠ unit '.')
    (he : NetworkHealth.scanExponent tail = some e) :
    jsonDecimal (widen whole ++ (widen (pointText fraction) ++ tail)) =
      some ((natOfDigits (whole ++ fraction) : ℚ) * 10 ^ (e - fraction.length)) := by
  obtain ⟨kept, zeros, hkept, hsplit⟩ : ∃ kept zeros, fraction.rdropWhile (· = byte '0') = kept ∧
      fraction = kept ++ List.replicate zeros (byte '0') := by
    refine ⟨_, (fraction.rtakeWhile (· = byte '0')).length, rfl, ?_⟩
    conv_lhs => rw [← List.rdropWhile_append_rtakeWhile (p := (· = byte '0')) (l := fraction)]
    congr 1
    refine List.eq_replicate_of_mem fun d hd => ?_
    have hzero := List.mem_rtakeWhile_imp hd
    simpa using hzero
  have hvalue : (natOfDigits (whole ++ fraction) : ℚ) * 10 ^ (e - fraction.length) =
      natOfDigits (whole ++ kept) * 10 ^ (e - kept.length) := by
    have hten : (10 : ℚ) ≠ 0 := by norm_num
    rw [hsplit, ← List.append_assoc, natOfDigits_append, natOfDigits_zeros, Nat.add_zero, List.length_append,
      List.length_replicate]
    push_cast
    rw [mul_assoc, ← zpow_natCast, ← zpow_add₀ hten]
    congr 2
    ring
  rw [hvalue]
  simp only [pointText, hkept]
  by_cases hnone : kept = []
  · rw [if_pos hnone, hnone, widen_nil, List.nil_append, List.append_nil,
      jsonDecimal_whole hwhole htail hpoint he, natOfDigits_widen, List.length_nil, Nat.cast_zero, sub_zero]
  · have hdigits : ∀ d ∈ kept, isDigit d = true := fun d hd =>
      hfraction d (hsplit ▸ List.mem_append_left _ hd)
    rw [if_neg hnone, widen_cons]
    refine (jsonDecimal_point hwhole (isDigit_widen hdigits) (by simpa [widen] using hnone) htail he).trans ?_
    rw [← widen_append, natOfDigits_widen, widen, List.length_map]

theorem scanExponent_exponentText (e : ℤ) : NetworkHealth.scanExponent (widen (exponentText e)) = some e := by
  have hdigits : digitsOnly (widen (if (natText e.natAbs).length < 2 then byte '0' :: natText e.natAbs
      else natText e.natAbs)) = some e.natAbs := by
    split_ifs
    · have hzero : natOfDigits (byte '0' :: natText e.natAbs) = e.natAbs := natOfDigits_natText _
      have hall : (widen (byte '0' :: natText e.natAbs)).all NetworkHealth.isDigit = true := by
        refine List.all_eq_true.mpr (isDigit_widen fun d hd => ?_)
        rcases List.mem_cons.mp hd with rfl | hd
        · decide
        · exact isDigit_of_mem_natText hd
      rw [digitsOnly, if_pos ⟨by simp, hall⟩, natOfDigits_widen, hzero]
    · have hall : (widen (natText e.natAbs)).all NetworkHealth.isDigit = true :=
        List.all_eq_true.mpr (whole_natText _).digits
      rw [digitsOnly, if_pos ⟨(whole_natText _).nonempty, hall⟩, natOfDigits_widen, natOfDigits_natText]
  have hmark : (byte 'e').toUInt16 = unit 'e' := by decide
  have hminus : (byte '-').toUInt16 = unit '-' := by decide
  have hplus : (byte '+').toUInt16 = unit '+' := by decide
  have hne : unit '+' ≠ unit '-' := by decide
  simp only [exponentText, widen_cons, hmark, NetworkHealth.scanExponent, true_or, if_true]
  by_cases hneg : e < 0
  · rw [if_pos hneg, hminus, scanSigned, if_pos rfl, hdigits, Option.map_some, Int.ofNat_natAbs_of_nonpos hneg.le,
      neg_neg]
  · rw [if_neg hneg, hplus, scanSigned, if_neg hne, if_pos rfl, hdigits, Option.map_some,
      Int.natAbs_of_nonneg (not_lt.mp hneg)]

end Point

section TenDigits

/-- A number rounded to ten significant digits. -/
def tenPlaces (q : ℚ) : ℚ :=
  (if q < 0 then -((tenDigits |q|).1 : ℚ) else (tenDigits |q|).1) * 10 ^ ((tenDigits |q|).2 - 9)

theorem abs_roundEven_sub_le (q : ℚ) : |roundEven q - q| ≤ 1 / 2 := by
  have hle := Int.floor_le q
  have hlt := Int.lt_floor_add_one q
  rw [abs_le]
  simp only [roundEven]
  split_ifs <;> push_cast <;> constructor <;> linarith

variable {q : ℚ}

/-- Scaled so, ten digits stand before the point. -/
theorem div_log_bounds (h : 0 < q) : (10 : ℚ) ^ 9 ≤ q / 10 ^ (Int.log 10 q - 9) ∧
    q / 10 ^ (Int.log 10 q - 9) < 10 ^ 10 := by
  have hten : (10 : ℚ) ≠ 0 := by norm_num
  have hpos : (0 : ℚ) < 10 ^ (Int.log 10 q - 9) := zpow_pos (by norm_num) _
  have hlow := Int.zpow_log_le_self (b := 10) (by decide) h
  have hhigh := Int.lt_zpow_succ_log_self (b := 10) (by decide) q
  push_cast at hlow hhigh
  rw [le_div_iff₀ hpos, div_lt_iff₀ hpos, ← zpow_natCast, ← zpow_natCast, ← zpow_add₀ hten, ← zpow_add₀ hten]
  refine ⟨le_trans (le_of_eq ?_) hlow, lt_of_lt_of_eq hhigh ?_⟩
  · congr 1
    push_cast
    ring
  · congr 1
    push_cast
    ring

theorem roundEven_div_bounds (h : 0 < q) : (10 : ℤ) ^ 9 ≤ roundEven (q / 10 ^ (Int.log 10 q - 9)) ∧
    roundEven (q / 10 ^ (Int.log 10 q - 9)) ≤ 10 ^ 10 := by
  obtain ⟨hlow, hhigh⟩ := div_log_bounds h
  have hfloor : (10 : ℤ) ^ 9 ≤ ⌊q / 10 ^ (Int.log 10 q - 9)⌋ := Int.le_floor.mpr (by exact_mod_cast hlow)
  have hlt : ⌊q / 10 ^ (Int.log 10 q - 9)⌋ < (10 : ℤ) ^ 10 := Int.floor_lt.mpr (by exact_mod_cast hhigh)
  rcases roundEven_eq_or (q / 10 ^ (Int.log 10 q - 9)) with he | he <;> rw [he] <;> constructor <;> omega

/-- There are ten digits, and they are the nearest. -/
theorem tenDigits_spec (h : 0 < q) : 10 ^ 9 ≤ (tenDigits q).1 ∧ (tenDigits q).1 < 10 ^ 10 ∧
    ((tenDigits q).1 : ℚ) * 10 ^ ((tenDigits q).2 - 9) =
      roundEven (q / 10 ^ (Int.log 10 q - 9)) * 10 ^ (Int.log 10 q - 9) := by
  obtain ⟨hlow, hhigh⟩ := roundEven_div_bounds h
  have hnat : ((roundEven (q / 10 ^ (Int.log 10 q - 9))).toNat : ℤ) = roundEven (q / 10 ^ (Int.log 10 q - 9)) :=
    Int.toNat_of_nonneg (by omega)
  have hcast : ((roundEven (q / 10 ^ (Int.log 10 q - 9))).toNat : ℚ) = roundEven (q / 10 ^ (Int.log 10 q - 9)) := by
    exact_mod_cast congrArg (Int.cast (R := ℚ)) hnat
  simp only [tenDigits]
  split_ifs with hcarry
  · -- rounded up to the next power of ten
    refine ⟨le_refl _, by norm_num, ?_⟩
    have hten : (10 : ℚ) ≠ 0 := by norm_num
    rw [← hcast, hcarry, add_sub_right_comm, zpow_add₀ hten]
    push_cast
    ring
  · refine ⟨?_, ?_, by rw [hcast]⟩
    · omega
    · omega

theorem abs_tenDigits_sub_le (h : 0 < q) :
    |(tenDigits q).1 * 10 ^ ((tenDigits q).2 - 9) - q| ≤ q / (2 * 10 ^ 9) := by
  have hpos : (0 : ℚ) < 10 ^ (Int.log 10 q - 9) := zpow_pos (by norm_num) _
  rw [(tenDigits_spec h).2.2]
  have hround := abs_roundEven_sub_le (q / 10 ^ (Int.log 10 q - 9))
  have hlow := (le_div_iff₀ hpos).mp (div_log_bounds h).1
  have hsplit : (roundEven (q / 10 ^ (Int.log 10 q - 9)) : ℚ) * 10 ^ (Int.log 10 q - 9) - q =
      (roundEven (q / 10 ^ (Int.log 10 q - 9)) - q / 10 ^ (Int.log 10 q - 9)) * 10 ^ (Int.log 10 q - 9) := by
    rw [sub_mul, div_mul_cancel₀ _ hpos.ne']
  rw [hsplit, abs_mul, abs_of_pos hpos]
  calc |(roundEven (q / 10 ^ (Int.log 10 q - 9)) : ℚ) - q / 10 ^ (Int.log 10 q - 9)| * 10 ^ (Int.log 10 q - 9)
      ≤ 1 / 2 * 10 ^ (Int.log 10 q - 9) := mul_le_mul_of_nonneg_right hround hpos.le
    _ ≤ q / (2 * 10 ^ 9) := by
      rw [le_div_iff₀ (by norm_num)]
      linarith

/-- Ten digits are off by at most half a unit in the tenth place. -/
theorem abs_tenPlaces_sub_le (q : ℚ) : |tenPlaces q - q| ≤ |q| / (2 * 10 ^ 9) := by
  rcases lt_trichotomy q 0 with hneg | rfl | hpos
  · have hle := abs_tenDigits_sub_le (abs_pos.mpr hneg.ne)
    rw [tenPlaces, if_pos hneg]
    rw [abs_of_neg hneg] at hle ⊢
    rw [← abs_neg]
    convert hle using 2
    ring
  · simp [tenPlaces, tenDigits, roundEven]
  · have hle := abs_tenDigits_sub_le hpos
    rw [tenPlaces, if_neg hpos.le.not_gt, abs_of_pos hpos]
    exact hle

theorem stops_exponent (e : ℤ) : Ends (widen (exponentText e)) ∧ ∀ c ∈ (widen (exponentText e)).head?, c ≠ unit '.' := by
  have hhead : (widen (exponentText e)).head? = some (unit 'e') := by
    have hmark : (byte 'e').toUInt16 = unit 'e' := by decide
    rw [exponentText, widen_cons, hmark, List.head?_cons]
  constructor
  · intro c hc
    rw [hhead] at hc
    cases hc
    decide
  · intro c hc
    rw [hhead] at hc
    cases hc
    decide

theorem isDigit_zeros {k : ℕ} {ds : List UInt8} (h : ∀ d ∈ ds, isDigit d = true) :
    ∀ d ∈ List.replicate k (byte '0') ++ ds, isDigit d = true := by
  intro d hd
  rcases List.mem_append.mp hd with hzero | hd
  · rw [List.eq_of_mem_replicate hzero]
    decide
  · exact h d hd

/-- `%.10g` of a positive number is a number of JSON. -/
theorem jsonDecimal_positiveText (h : 0 < q) : jsonDecimal (widen (positiveText q)) =
    some (((tenDigits q).1 : ℚ) * 10 ^ ((tenDigits q).2 - 9)) := by
  obtain ⟨hlow, hhigh, -⟩ := tenDigits_spec h
  unfold positiveText
  generalize tenDigits q = read at hlow hhigh ⊢
  obtain ⟨n, e⟩ := read
  dsimp only at hlow hhigh ⊢
  have hdigits : ∀ d ∈ natText n, isDigit d = true := fun d hd => isDigit_of_mem_natText hd
  have hlength : (natText n).length = 10 := length_natText hlow hhigh
  -- the first digit is no zero, so any number of digits may stand before the point
  have hwhole : ∀ k, 0 < k → Whole (widen ((natText n).take k)) := by
    intro k hk
    have hsignificant : Significant (widen (natText n)) := by
      obtain ⟨d, rest, hcons, -⟩ := exists_natText n
      refine ⟨(whole_natText n).digits, d.toUInt16, widen rest, by rw [hcons, widen_cons], fun hzero => ?_⟩
      have hd : d = byte '0' := UInt8.toUInt16_inj.mp hzero
      have hne := head_natText (n := n) (by omega)
      rw [hcons, hd] at hne
      exact hne rfl
    have htake := hsignificant.whole_take hk
    rwa [widen, ← List.map_take] at htake
  have hdrop : ∀ k, ∀ d ∈ (natText n).drop k, isDigit d = true := fun k d hd => hdigits d (List.mem_of_mem_drop hd)
  have hvalue : ∀ k, natOfDigits ((natText n).take k ++ (natText n).drop k) = n := by
    intro k
    rw [List.take_append_drop, natOfDigits_natText]
  split_ifs with hscientific hsmall
  · obtain ⟨hends, hpoint⟩ := stops_exponent e
    have hread := jsonDecimal_pointText (hwhole 1 Nat.one_pos) (hdrop 1) hends hpoint (scanExponent_exponentText e)
    rw [hvalue, List.length_drop, hlength] at hread
    rw [widen_append, widen_append, List.append_assoc, hread]
    norm_num
  · have hread := jsonDecimal_pointText (whole_natText 0) (isDigit_zeros (k := (-e - 1).toNat) hdigits) ends_nil
      (by simp) rfl
    have hzeros : natOfDigits (natText 0 ++ (List.replicate (-e - 1).toNat (byte '0') ++ natText n)) = n := by
      rw [natOfDigits_append, natOfDigits_append, natOfDigits_zeros, natOfDigits_natText, natOfDigits_natText]
      omega
    rw [hzeros, List.length_append, List.length_replicate, hlength, List.append_nil] at hread
    have hlast : (0 : ℤ) - ((-e - 1).toNat + 10 : ℕ) = e - 9 := by omega
    rw [hlast] at hread
    exact hread
  · have hread := jsonDecimal_pointText (hwhole (e + 1).toNat (by omega)) (hdrop (e + 1).toNat) ends_nil (by simp) rfl
    have hlast : (0 : ℤ) - (10 - (e + 1).toNat : ℕ) = e - 9 := by omega
    rw [hvalue, List.length_drop, hlength, List.append_nil, hlast] at hread
    rw [widen_append, hread]

theorem exists_positiveText (h : 0 < q) : ∃ d rest, positiveText q = d :: rest ∧ isDigit d = true := by
  obtain ⟨-, c, rest, hcons, hdigit⟩ := all_jsonDecimal (jsonDecimal_positiveText h)
  cases htext : positiveText q with
  | nil =>
    rw [htext] at hcons
    cases hcons
  | cons d tail =>
    rw [htext, widen_cons] at hcons
    refine ⟨d, tail, rfl, ?_⟩
    rw [← isDigit_toUInt16, (List.cons.inj hcons).1, hdigit]

/-- `%.10g` of any number is a number of JSON. -/
theorem jsonNumber_generalText (q : ℚ) : jsonNumber (widen (generalText q)) = some (tenPlaces q) := by
  unfold generalText
  rcases lt_trichotomy q 0 with hneg | rfl | hpos
  · rw [if_neg hneg.ne, if_pos hneg, jsonNumber_minus, jsonDecimal_positiveText (neg_pos.mpr hneg), Option.map_some,
      tenPlaces, if_pos hneg, abs_of_neg hneg, neg_mul]
  · have hzero : tenPlaces 0 = 0 := by simp [tenPlaces, tenDigits, roundEven]
    rw [if_pos rfl, hzero]
    exact jsonNumber_intText 0
  · obtain ⟨d, rest, hcons, hd⟩ := exists_positiveText hpos
    rw [if_neg hpos.ne', if_neg hpos.le.not_gt, hcons, jsonNumber_of_digit hd, ← hcons, jsonDecimal_positiveText hpos,
      tenPlaces, if_neg hpos.le.not_gt, abs_of_pos hpos]

end TenDigits

section Nearest
variable {q : ℚ} {k : ℕ}

theorem two_zpow_lastPlace_le (h : |q| < 2 ^ k) : (2 : ℚ) ^ lastPlace q ≤ 2 ^ ((k : ℤ) - 53) ∨ q = 0 := by
  by_cases hzero : q = 0
  · exact Or.inr hzero
  left
  have hlog : Int.log 2 |q| < k := by
    rw [← Int.lt_zpow_iff_log_lt (by decide) (abs_pos.mpr hzero)]
    exact_mod_cast h
  have hplace : lastPlace q ≤ (k : ℤ) - 53 := by
    rw [lastPlace]
    omega
  exact zpow_le_zpow_right₀ (by norm_num) hplace

/-- A double is off by half of its last place. -/
theorem abs_roundPlaces_sub_le (h : |q| < 2 ^ k) : |roundPlaces q - q| ≤ 2 ^ ((k : ℤ) - 53) / 2 := by
  have hpos : (0 : ℚ) < 2 ^ lastPlace q := two_zpow_pos _
  rcases two_zpow_lastPlace_le h with hplace | rfl
  · have hsplit : roundPlaces q - q = (roundEven (q / 2 ^ lastPlace q) - q / 2 ^ lastPlace q) * 2 ^ lastPlace q := by
      rw [roundPlaces, sub_mul, div_mul_cancel₀ _ hpos.ne']
    rw [hsplit, abs_mul, abs_of_pos hpos]
    calc |(roundEven (q / 2 ^ lastPlace q) : ℚ) - q / 2 ^ lastPlace q| * 2 ^ lastPlace q
        ≤ 1 / 2 * 2 ^ lastPlace q := mul_le_mul_of_nonneg_right (abs_roundEven_sub_le _) hpos.le
      _ ≤ 2 ^ ((k : ℤ) - 53) / 2 := by linarith
  · have hzero : roundPlaces 0 = 0 := by simp [roundPlaces, roundEven]
    rw [hzero, sub_zero, abs_zero]
    exact (div_pos (two_zpow_pos _) two_pos).le

/-- A number that is rounded to one or more is no subnormal. -/
theorem not_underflows (h : 1 ≤ |roundPlaces q|) : ¬ Underflows q := by
  have hlog : -1022 ≤ Int.log 2 |q| := by
    by_contra hlow
    have hsmall : |q| < 1 / 2 := by
      have hlt := Int.lt_zpow_succ_log_self (b := 2) (by decide) |q|
      push_cast at hlt
      refine hlt.trans_le ((zpow_le_zpow_right₀ (by norm_num) (show Int.log 2 |q| + 1 ≤ -1 by omega)).trans ?_)
      norm_num
    have hround := abs_roundPlaces_sub_le (q := q) (k := 0) (by linarith)
    have htriangle := abs_sub_abs_le_abs_sub (roundPlaces q) q
    norm_num at hround
    linarith
  have hplace : normalized q = roundPlaces q := by
    rw [normalized, roundPlaces, lastPlace, max_eq_right (by omega)]
  rintro ⟨hlt, -⟩
  have hone : (2 : ℚ) ^ (-1022 : ℤ) ≤ 1 := zpow_le_one_of_nonpos₀ (by norm_num) (by norm_num)
  rw [hplace] at hlt
  linarith

end Nearest

end NetworkHealth.CNumber
