import Mathlib.Data.List.DropRight
import NetworkHealth.Library.SeparatedKey
import NetworkHealth.Library.Traverse

/-! Strings of the daemon, which are byte strings of no particular encoding. -/
namespace NetworkHealth.Daemon

abbrev Bytes := List UInt8

/-- A literal of the source. -/
def ascii (s : String) : Bytes := s.toList.map fun c => UInt8.ofNat c.toNat

/-- `std::to_string` of an unsigned integer. -/
def decimal (n : ℕ) : Bytes := (Nat.toDigits 10 n).map fun c => UInt8.ofNat c.toNat

/-- `std::isspace` in the C locale. -/
def isSpace (b : UInt8) : Bool := b = 0x20 || 0x09 ≤ b && b ≤ 0x0d

def trimmed (value : Bytes) : Bytes := (value.dropWhile isSpace).rdropWhile isSpace

def hasSuffix (value suffix : Bytes) : Bool := suffix.isSuffixOf value

theorem toNat_le_of_mem_toDigits {n : ℕ} {c : Char} (h : c ∈ Nat.toDigits 10 n) :
    48 ≤ c.toNat ∧ c.toNat ≤ 57 := by
  have hdigit := Nat.isDigit_of_mem_toDigits (by decide) (by decide) h
  simpa [Char.isDigit, UInt32.le_iff_toNat_le] using hdigit

theorem toNat_of_mem_decimal {n : ℕ} {b : UInt8} (h : b ∈ decimal n) :
    48 ≤ b.toNat ∧ b.toNat ≤ 57 := by
  obtain ⟨c, hc, rfl⟩ := List.mem_map.mp h
  have hdigit := toNat_le_of_mem_toDigits hc
  simp only [UInt8.toNat_ofNat']
  omega

theorem decimal_injective : Function.Injective decimal := by
  have hread : ∀ n, Nat.ofDigitChars 10 ((decimal n).map fun b => Char.ofNat b.toNat) 0 = n := by
    intro n
    have hchars : ((decimal n).map fun b => Char.ofNat b.toNat) = Nat.toDigits 10 n := by
      rw [decimal, List.map_map, List.map_congr_left, List.map_id]
      intro c hc
      have hdigit := toNat_le_of_mem_toDigits hc
      have hsmall : (UInt8.ofNat c.toNat).toNat = c.toNat := by
        rw [UInt8.toNat_ofNat']
        omega
      simp [hsmall]
    rw [hchars, Nat.ofDigitChars_ten_toDigits]
  intro a b h
  rw [← hread a, h, hread b]

theorem trimmed_trimmed (value : Bytes) : trimmed (trimmed value) = trimmed value :=
  rdropWhile_dropWhile_idempotent isSpace value

end NetworkHealth.Daemon
