import Mathlib.Data.UInt

/-! Base 64 as RFC 4648 has it, from the side that reads it: four characters of six bits each for
three bytes, and a last quantum that may be padded. Bits that padding leaves over have to be zero. -/
namespace NetworkHealth.Base64

/-- `A` to `Z`, `a` to `z`, `0` to `9`, `+` and `/`. -/
def IsDigit (c : UInt8) : Prop :=
  (0x41 ≤ c ∧ c ≤ 0x5a) ∨ (0x61 ≤ c ∧ c ≤ 0x7a) ∨ (0x30 ≤ c ∧ c ≤ 0x39) ∨ c = 0x2b ∨ c = 0x2f

instance (c : UInt8) : Decidable (IsDigit c) := inferInstanceAs (Decidable (_ ∨ _))

/-- `=` -/
def pad : UInt8 := 0x3d

/-- The six bits that a character stands for. -/
def sextet (c : UInt8) : Option ℕ :=
  if 0x41 ≤ c ∧ c ≤ 0x5a then some (c.toNat - 0x41)
  else if 0x61 ≤ c ∧ c ≤ 0x7a then some (c.toNat - 0x61 + 26)
  else if 0x30 ≤ c ∧ c ≤ 0x39 then some (c.toNat - 0x30 + 52)
  else if c = 0x2b then some 62
  else if c = 0x2f then some 63
  else none

/-- The bytes of 24, 16 or 8 bits. -/
def threeBytes (n : ℕ) : List UInt8 := [UInt8.ofNat (n / 2 ^ 16), UInt8.ofNat (n / 2 ^ 8), UInt8.ofNat n]
def twoBytes (n : ℕ) : List UInt8 := [UInt8.ofNat (n / 2 ^ 8), UInt8.ofNat n]

/-- A quantum without padding. -/
def decodeQuantum (a b c d : UInt8) : Option (List UInt8) := do
  let w ← sextet a
  let x ← sextet b
  let y ← sextet c
  let z ← sextet d
  some (threeBytes (((w * 64 + x) * 64 + y) * 64 + z))

/-- The last quantum. -/
def decodeLast (a b c d : UInt8) : Option (List UInt8) :=
  if d ≠ pad then decodeQuantum a b c d
  else if c ≠ pad then do
    let w ← sextet a
    let x ← sextet b
    let y ← sextet c
    if y % 4 ≠ 0 then none else some (twoBytes (((w * 64 + x) * 64 + y) / 4))
  else do
    let w ← sextet a
    let x ← sextet b
    if x % 16 ≠ 0 then none else some [UInt8.ofNat ((w * 64 + x) / 16)]

def decode : List UInt8 → Option (List UInt8)
  | [] => some []
  | a :: b :: c :: d :: rest =>
    if rest = [] then decodeLast a b c d
    else do
      let quantum ← decodeQuantum a b c d
      let more ← decode rest
      some (quantum ++ more)
  | _ => none

section Quanta
variable {a b c d : UInt8} {w x y z : ℕ}

theorem isDigit_of_sextet (h : sextet c = some x) : IsDigit c := by
  unfold sextet at h
  unfold IsDigit
  split_ifs at h <;> simp_all

theorem ne_pad_of_sextet (h : sextet c = some x) : c ≠ pad := by
  rintro rfl
  cases h

/-- A quantum of four digits is decoded by itself, wherever it stands. -/
theorem decode_digits (ha : sextet a = some w) (hb : sextet b = some x) (hc : sextet c = some y)
    (hd : sextet d = some z) (rest : List UInt8) : decode (a :: b :: c :: d :: rest) =
      (decode rest).map (threeBytes (((w * 64 + x) * 64 + y) * 64 + z) ++ ·) := by
  have hquantum : decodeQuantum a b c d = some (threeBytes (((w * 64 + x) * 64 + y) * 64 + z)) := by
    simp only [decodeQuantum, ha, hb, hc, hd, Option.bind_eq_bind, Option.bind_some]
  rw [decode]
  split_ifs with hrest
  · subst hrest
    rw [decodeLast, if_pos (ne_pad_of_sextet hd), hquantum]
    simp [decode]
  · rw [hquantum]
    cases decode rest <;> rfl

theorem decode_twoBytes (ha : sextet a = some w) (hb : sextet b = some x) (hc : sextet c = some y)
    (hzero : y % 4 = 0) : decode [a, b, c, pad] = some (twoBytes (((w * 64 + x) * 64 + y) / 4)) := by
  rw [decode, if_pos rfl, decodeLast, if_neg (not_not.mpr rfl), if_pos (ne_pad_of_sextet hc)]
  simp [ha, hb, hc, hzero]

theorem decode_oneByte (ha : sextet a = some w) (hb : sextet b = some x) (hzero : x % 16 = 0) :
    decode [a, b, pad, pad] = some [UInt8.ofNat ((w * 64 + x) / 16)] := by
  rw [decode, if_pos rfl, decodeLast, if_neg (not_not.mpr rfl), if_neg (not_not.mpr rfl)]
  simp [ha, hb, hzero]

end Quanta

end NetworkHealth.Base64
