import Mathlib.Data.List.Induction
import Mathlib.Data.Nat.ModEq
import Mathlib.Logic.Function.Iterate
import Mathlib.Algebra.BigOperators.Group.List.Basic

/-! Ones' complement sums. A word is a number below a base, and what carries out of it is added
back in at the low end. Such a sum says what the exact sum is modulo the greatest word, and
whether it is zero: the greatest word is the other spelling of zero. -/
namespace NetworkHealth.OnesComplement
variable (base : ℕ)

/-- The carries of a sum are added back in, once. -/
def carryRound (n : ℕ) : ℕ := n % base + n / base

def add (a b : ℕ) : ℕ := carryRound base (a + b)

def sum (words : List ℕ) : ℕ := words.foldl (add base) 0

/-- A word for a number: the same residue, and zero for zero only. -/
structure Represents (n word : ℕ) : Prop where
  lt : word < base
  modEq : word ≡ n [MOD base - 1]
  eq_zero_iff : word = 0 ↔ n = 0

variable {base} {n m word word' : ℕ}

theorem carryRound_of_lt (h : n < base) : carryRound base n = n := by
  rw [carryRound, Nat.mod_eq_of_lt h, Nat.div_eq_of_lt h, Nat.add_zero]

theorem carryRound_le (hbase : 1 < base) (n : ℕ) : carryRound base n ≤ n := by
  have hdivision := Nat.div_add_mod n base
  have hquotient : n / base ≤ base * (n / base) := Nat.le_mul_of_pos_left _ (by omega)
  unfold carryRound
  omega

theorem carryRound_modEq (hbase : 1 < base) (n : ℕ) : carryRound base n ≡ n [MOD base - 1] := by
  have hsplit : carryRound base n + (base - 1) * (n / base) = n := by
    have hdivision := Nat.div_add_mod n base
    have hbase' : base * (n / base) = (base - 1) * (n / base) + n / base := by
      rw [← Nat.succ_mul, Nat.succ_eq_add_one, Nat.sub_add_cancel hbase.le]
    unfold carryRound
    omega
  have hmod := Nat.add_mul_mod_self_left (carryRound base n) (base - 1) (n / base)
  rw [hsplit] at hmod
  exact hmod.symm

theorem carryRound_eq_zero_iff (hbase : 1 < base) : carryRound base n = 0 ↔ n = 0 := by
  constructor
  · intro h
    have hdivision := Nat.div_add_mod n base
    obtain ⟨hremainder, hquotient⟩ : n % base = 0 ∧ n / base = 0 := Nat.add_eq_zero_iff.mp h
    rw [hremainder, hquotient, Nat.mul_zero] at hdivision
    exact hdivision.symm
  · rintro rfl
    exact carryRound_of_lt (by omega)

/-- The sum of two words carries once. -/
theorem carryRound_lt_base (hbase : 1 < base) (h : n ≤ 2 * (base - 1)) : carryRound base n < base := by
  have hdivision := Nat.div_add_mod n base
  have hremainder := Nat.mod_lt n (by omega : base > 0)
  have hquotient : n / base < 2 := Nat.div_lt_of_lt_mul (by omega)
  unfold carryRound
  obtain hzero | hone := Nat.le_one_iff_eq_zero_or_eq_one.mp (Nat.lt_succ_iff.mp hquotient)
  · omega
  · rw [hone, Nat.mul_one] at hdivision
    omega

/-- A number of two words has no carries left after two rounds. -/
theorem carryRound_carryRound_lt (hbase : 1 < base) (h : n < base * base) :
    carryRound base (carryRound base n) < base := by
  apply carryRound_lt_base hbase
  have hremainder := Nat.mod_lt n (by omega : base > 0)
  have hquotient : n / base < base := Nat.div_lt_of_lt_mul h
  unfold carryRound
  omega

theorem Represents.unique (hbase : 1 < base) (h : Represents base n word) (h' : Represents base n word') :
    word = word' := by
  have hresidue : word % (base - 1) = word' % (base - 1) := h.modEq.trans h'.modEq.symm
  have hzero : word = 0 ↔ word' = 0 := h.eq_zero_iff.trans h'.eq_zero_iff.symm
  have hlt := h.lt
  have hlt' := h'.lt
  -- only zero and the greatest word share a residue
  rcases (by omega : word < base - 1 ∨ word = base - 1) with hsmall | hgreatest <;>
    rcases (by omega : word' < base - 1 ∨ word' = base - 1) with hsmall' | hgreatest'
  · rwa [Nat.mod_eq_of_lt hsmall, Nat.mod_eq_of_lt hsmall'] at hresidue
  · rw [Nat.mod_eq_of_lt hsmall, hgreatest', Nat.mod_self] at hresidue
    omega
  · rw [Nat.mod_eq_of_lt hsmall', hgreatest, Nat.mod_self] at hresidue
    omega
  · rw [hgreatest, hgreatest']

theorem represents_self (h : n < base) : Represents base n n := ⟨h, rfl, Iff.rfl⟩

theorem Represents.of_carryRound (hbase : 1 < base) (h : Represents base (carryRound base n) word) :
    Represents base n word :=
  ⟨h.lt, h.modEq.trans (carryRound_modEq hbase n), h.eq_zero_iff.trans (carryRound_eq_zero_iff hbase)⟩

/-- The word of a sum, from those of the summands. -/
theorem Represents.add (hbase : 1 < base) (h : Represents base n word) (h' : Represents base m word') :
    Represents base (n + m) (add base word word') where
  lt := carryRound_lt_base hbase (by have hlt := h.lt; have hlt' := h'.lt; omega)
  modEq := (carryRound_modEq hbase _).trans (h.modEq.add h'.modEq)
  eq_zero_iff := by
    rw [OnesComplement.add, carryRound_eq_zero_iff hbase, Nat.add_eq_zero_iff, Nat.add_eq_zero_iff, h.eq_zero_iff,
      h'.eq_zero_iff]

theorem represents_sum (hbase : 1 < base) {words : List ℕ} (h : ∀ word ∈ words, word < base) :
    Represents base words.sum (sum base words) := by
  induction words using List.reverseRecOn with
  | nil => exact represents_self (by simp; omega)
  | append_singleton words word ih =>
    have hwords : Represents base words.sum (sum base words) := ih fun w hw => h w (by simp [hw])
    rw [List.sum_append, List.sum_singleton, sum, List.foldl_append]
    exact hwords.add hbase (represents_self (h word (by simp)))

/-- A number and the complement of its word add up to the greatest word. -/
theorem Represents.complement (hbase : 1 < base) (h : Represents base n word) :
    Represents base (n + (base - 1 - word)) (base - 1) where
  lt := by omega
  modEq := by
    have hsum : word + (base - 1 - word) ≡ n + (base - 1 - word) [MOD base - 1] := h.modEq.add_right _
    have hword : word + (base - 1 - word) = base - 1 := by have hlt := h.lt; omega
    rwa [hword] at hsum
  eq_zero_iff := by
    have hzero := h.eq_zero_iff
    omega

end NetworkHealth.OnesComplement
