import Mathlib.Algebra.Order.Floor.Div
import NetworkHealth.Daemon.Text
import NetworkHealth.Library.Base64

/-! The text of `state.ini`. The payload goes through base 64, three bytes at a time, so that its
line has no byte to which the reader of the file gives a meaning. -/
namespace NetworkHealth.Daemon

def alphabet : Bytes := ascii "ABCDEFGHIJKLMNOPQRSTUVWXYZabcdefghijklmnopqrstuvwxyz0123456789+/"

/-- `alphabet[n & 0x3F]` -/
def base64Digit (n : UInt32) : UInt8 := alphabet.getD (n &&& 0x3F).toNat 0

/-- What is left when the loop is through with the triples: one byte, or two. -/
def base64Tail (first : UInt8) (second : Option UInt8) : Bytes :=
  let triple := first.toUInt32 <<< 16
  let triple := second.elim triple fun b => triple ||| b.toUInt32 <<< 8
  [base64Digit (triple >>> 18), base64Digit (triple >>> 12),
    if second.isSome then base64Digit (triple >>> 6) else Base64.pad, Base64.pad]

def base64Encode : Bytes → Bytes
  | [] => []
  | [a] => base64Tail a none
  | [a, b] => base64Tail a (some b)
  | a :: b :: c :: rest =>
    let triple := a.toUInt32 <<< 16 ||| b.toUInt32 <<< 8 ||| c.toUInt32
    base64Digit (triple >>> 18) :: base64Digit (triple >>> 12) :: base64Digit (triple >>> 6) ::
      base64Digit triple :: base64Encode rest

/-- What `publish` writes for a generation and the text of its document. -/
def stateIni (generation : ℕ) (document : Bytes) : Bytes :=
  ascii "[State]\n" ++ (ascii "generation=" ++ decimal generation ++ ascii "\n") ++
    (ascii "payload=" ++ base64Encode document ++ ascii "\n")

section Digits

theorem sextet_alphabet {n : ℕ} (h : n < 64) : Base64.sextet (alphabet.getD n 0) = some n := by
  have hall : ∀ n : Fin 64, Base64.sextet (alphabet.getD n.val 0) = some n.val := by decide +kernel
  exact hall ⟨n, h⟩

theorem sextet_base64Digit (n : UInt32) : Base64.sextet (base64Digit n) = some (n.toNat % 64) := by
  have hlow : (n &&& 0x3F).toNat = n.toNat % 64 := by
    rw [UInt32.toNat_and]
    exact Nat.and_two_pow_sub_one_eq_mod n.toNat 6
  rw [base64Digit, hlow, sextet_alphabet (Nat.mod_lt _ (by decide))]

theorem toNat_shiftLeft (a : UInt8) {k : ℕ} (hk : k ≤ 16) :
    (a.toUInt32 <<< UInt32.ofNat k).toNat = a.toNat * 2 ^ k := by
  have ha := a.toNat_lt
  have hpow : 2 ^ k ≤ 2 ^ 16 := Nat.pow_le_pow_right (by decide) hk
  have hlt : a.toNat * 2 ^ k < 2 ^ 32 := (Nat.mul_le_mul ha.le hpow).trans_lt (by decide)
  rw [UInt32.toNat_shiftLeft, UInt8.toNat_toUInt32, UInt32.toNat_ofNat', Nat.mod_eq_of_lt (by omega : k < 2 ^ 32),
    Nat.mod_eq_of_lt (by omega : k < 32), Nat.shiftLeft_eq, Nat.mod_eq_of_lt hlt]

theorem or_eq_add {a b k : ℕ} (hb : b < 2 ^ k) : a * 2 ^ k ||| b = a * 2 ^ k + b := by
  rw [Nat.mul_comm, Nat.two_pow_add_eq_or_of_lt hb]

/-- Shifted bytes do not overlap. -/
theorem toNat_pair (a b : UInt8) : (a.toUInt32 <<< 16 ||| b.toUInt32 <<< 8).toNat =
    a.toNat * 2 ^ 16 + b.toNat * 2 ^ 8 := by
  have hb := b.toNat_lt
  have hfirst : (a.toUInt32 <<< 16).toNat = a.toNat * 2 ^ 16 := toNat_shiftLeft a (by decide)
  have hsecond : (b.toUInt32 <<< 8).toNat = b.toNat * 2 ^ 8 := toNat_shiftLeft b (by decide)
  rw [UInt32.toNat_or, hfirst, hsecond, or_eq_add (by omega)]

theorem toNat_triple (a b c : UInt8) : (a.toUInt32 <<< 16 ||| b.toUInt32 <<< 8 ||| c.toUInt32).toNat =
    a.toNat * 2 ^ 16 + b.toNat * 2 ^ 8 + c.toNat := by
  have hgroup : a.toNat * 2 ^ 16 + b.toNat * 2 ^ 8 = (a.toNat * 2 ^ 8 + b.toNat) * 2 ^ 8 := by omega
  rw [UInt32.toNat_or, toNat_pair, UInt8.toNat_toUInt32, hgroup, or_eq_add c.toNat_lt]

/-- The digit of the bits from a position on. -/
theorem sextet_shifted (n : UInt32) {k : ℕ} (hk : k < 32) :
    Base64.sextet (base64Digit (n >>> UInt32.ofNat k)) = some (n.toNat / 2 ^ k % 64) := by
  rw [sextet_base64Digit, UInt32.toNat_shiftRight, UInt32.toNat_ofNat', Nat.mod_eq_of_lt (by omega : k < 2 ^ 32),
    Nat.mod_eq_of_lt hk, Nat.shiftRight_eq_div_pow]

end Digits

section Encoding

/-- A byte that a number ends with. -/
theorem ofNat_eq_of_mod {n : ℕ} {b : UInt8} (h : n % 2 ^ 8 = b.toNat) : UInt8.ofNat n = b := by
  rw [← UInt8.toNat_inj, UInt8.toNat_ofNat']
  exact h

theorem decode_base64Encode (data : Bytes) : Base64.decode (base64Encode data) = some data := by
  induction data using base64Encode.induct with
  | case1 => rfl
  | case2 a =>
    have ha := a.toNat_lt
    have htriple : (a.toUInt32 <<< 16).toNat = a.toNat * 2 ^ 16 := toNat_shiftLeft a (by decide)
    have hfirst := sextet_shifted (a.toUInt32 <<< 16) (by decide : 18 < 32)
    have hsecond := sextet_shifted (a.toUInt32 <<< 16) (by decide : 12 < 32)
    rw [htriple] at hfirst hsecond
    have hdecode := Base64.decode_oneByte hfirst hsecond (by omega)
    rw [ofNat_eq_of_mod (b := a) (by omega)] at hdecode
    exact hdecode
  | case3 a b =>
    have ha := a.toNat_lt
    have hb := b.toNat_lt
    generalize htriple : a.toUInt32 <<< 16 ||| b.toUInt32 <<< 8 = triple
    have hvalue : triple.toNat = a.toNat * 2 ^ 16 + b.toNat * 2 ^ 8 := htriple ▸ toNat_pair a b
    have hfirst := sextet_shifted triple (by decide : 18 < 32)
    have hsecond := sextet_shifted triple (by decide : 12 < 32)
    have hthird := sextet_shifted triple (by decide : 6 < 32)
    rw [hvalue] at hfirst hsecond hthird
    have hdecode := Base64.decode_twoBytes hfirst hsecond hthird (by omega)
    rw [Base64.twoBytes, ofNat_eq_of_mod (b := a) (by omega), ofNat_eq_of_mod (b := b) (by omega)] at hdecode
    subst htriple
    exact hdecode
  | case4 a b c rest ih =>
    have ha := a.toNat_lt
    have hb := b.toNat_lt
    have hc := c.toNat_lt
    generalize htriple : a.toUInt32 <<< 16 ||| b.toUInt32 <<< 8 ||| c.toUInt32 = triple
    have hvalue : triple.toNat = a.toNat * 2 ^ 16 + b.toNat * 2 ^ 8 + c.toNat := htriple ▸ toNat_triple a b c
    have hfirst := sextet_shifted triple (by decide : 18 < 32)
    have hsecond := sextet_shifted triple (by decide : 12 < 32)
    have hthird := sextet_shifted triple (by decide : 6 < 32)
    have hfourth := sextet_base64Digit triple
    rw [hvalue] at hfirst hsecond hthird hfourth
    have hdecode := Base64.decode_digits hfirst hsecond hthird hfourth (base64Encode rest)
    rw [Base64.threeBytes, ofNat_eq_of_mod (b := a) (by omega), ofNat_eq_of_mod (b := b) (by omega),
      ofNat_eq_of_mod (b := c) (by omega), ih] at hdecode
    subst htriple
    exact hdecode

theorem length_base64Encode (data : Bytes) : (base64Encode data).length = 4 * (data.length ⌈/⌉ 3) := by
  rw [Nat.ceilDiv_eq_add_pred_div]
  induction data using base64Encode.induct with
  | case1 => rfl
  | case2 a => simp [base64Encode, base64Tail]
  | case3 a b => simp [base64Encode, base64Tail]
  | case4 a b c rest ih =>
    simp only [base64Encode, List.length_cons]
    omega

theorem isDigit_base64Digit (n : UInt32) : Base64.IsDigit (base64Digit n) :=
  Base64.isDigit_of_sextet (sextet_base64Digit n)

/-- The digits, and what pads the last of them to a quantum. -/
theorem exists_padding (data : Bytes) : ∃ digits padding, padding ≤ 2 ∧ (∀ c ∈ digits, Base64.IsDigit c) ∧
    base64Encode data = digits ++ List.replicate padding Base64.pad := by
  induction data using base64Encode.induct with
  | case1 => exact ⟨[], 0, by decide, by simp, rfl⟩
  | case2 a =>
    let triple := a.toUInt32 <<< 16
    refine ⟨[base64Digit (triple >>> 18), base64Digit (triple >>> 12)], 2, by decide, ?_, rfl⟩
    simp [isDigit_base64Digit]
  | case3 a b =>
    let triple := a.toUInt32 <<< 16 ||| b.toUInt32 <<< 8
    refine ⟨[base64Digit (triple >>> 18), base64Digit (triple >>> 12), base64Digit (triple >>> 6)], 1, by decide,
      ?_, rfl⟩
    simp [isDigit_base64Digit]
  | case4 a b c rest ih =>
    obtain ⟨digits, padding, hpadding, hdigits, hrest⟩ := ih
    let triple := a.toUInt32 <<< 16 ||| b.toUInt32 <<< 8 ||| c.toUInt32
    refine ⟨base64Digit (triple >>> 18) :: base64Digit (triple >>> 12) :: base64Digit (triple >>> 6) ::
      base64Digit triple :: digits, padding, hpadding, ?_, ?_⟩
    · simpa [isDigit_base64Digit] using hdigits
    · rw [base64Encode, hrest]
      rfl

end Encoding

section Ini

/-- What an INI file means something by in a value: blanks and what is no printable character, quotes
and escapes, what separates the items of a list or starts a comment, a section or a typed value. -/
def isIniSyntax (c : UInt8) : Bool := c ≤ 0x20 || 0x7f ≤ c || (ascii "\"\\,;#%@[]").contains c

/-- The text of a line before the first `=` and behind it. -/
def iniEntry (line : Bytes) : Bytes × Bytes :=
  (line.takeWhile (· != 0x3d), (line.dropWhile (· != 0x3d)).tail)

theorem isIniSyntax_of_isDigit {c : UInt8} (h : Base64.IsDigit c) : isIniSyntax c = false := by
  have hall : ∀ n : Fin 256, Base64.IsDigit (UInt8.ofFin n) → isIniSyntax (UInt8.ofFin n) = false := by
    decide +kernel
  exact hall c.toFin h

theorem isIniSyntax_of_mem_base64Encode {data : Bytes} {c : UInt8} (h : c ∈ base64Encode data) :
    isIniSyntax c = false := by
  obtain ⟨digits, padding, -, hdigits, hencoded⟩ := exists_padding data
  rw [hencoded] at h
  obtain hdigit | hpad := List.mem_append.mp h
  · exact isIniSyntax_of_isDigit (hdigits c hdigit)
  · rw [(List.mem_replicate.mp hpad).2]
    rfl

theorem iniEntry_append {key value : Bytes} (h : 0x3d ∉ key) : iniEntry (key ++ 0x3d :: value) = (key, value) := by
  have hkey : ∀ c ∈ key, (c != 0x3d) = true := fun c hc => bne_iff_ne.mpr fun heq => h (heq ▸ hc)
  rw [iniEntry, List.takeWhile_append_of_pos hkey, List.dropWhile_append_of_pos hkey]
  simp

/-- Three lines, the last of them ended. -/
theorem splitOn_stateIni (generation : ℕ) (document : Bytes) : (stateIni generation document).splitOn 0x0a =
    [ascii "[State]", ascii "generation=" ++ decimal generation, ascii "payload=" ++ base64Encode document, []] := by
  have htext : stateIni generation document = ascii "[State]" ++ 0x0a :: (ascii "generation=" ++ decimal generation ++
      0x0a :: (ascii "payload=" ++ base64Encode document ++ 0x0a :: [])) := by
    simp [stateIni, ascii]
  have hgeneration : 0x0a ∉ ascii "generation=" ++ decimal generation := by
    intro h
    obtain hkey | hnumber := List.mem_append.mp h
    · exact absurd hkey (by decide)
    · exact absurd (toNat_of_mem_decimal hnumber).1 (by decide)
  have hpayload : 0x0a ∉ ascii "payload=" ++ base64Encode document := by
    intro h
    obtain hkey | hencoded := List.mem_append.mp h
    · exact absurd hkey (by decide)
    · exact absurd (isIniSyntax_of_mem_base64Encode hencoded) (by decide)
  rw [htext, List.splitOn_append_cons_self_of_not_mem (by decide),
    List.splitOn_append_cons_self_of_not_mem hgeneration, List.splitOn_append_cons_self_of_not_mem hpayload]
  rfl

/-- What is written decodes to the document, and a reader of lines and keys has nothing in it to go by. -/
theorem base64_roundTrip (data : Bytes) :
    Base64.decode (base64Encode data) = some data ∧
    (base64Encode data).length = 4 * (data.length ⌈/⌉ 3) ∧
    (∃ digits padding, padding ≤ 2 ∧ (∀ c ∈ digits, Base64.IsDigit c) ∧
      base64Encode data = digits ++ List.replicate padding Base64.pad) ∧
    (∀ c ∈ base64Encode data, isIniSyntax c = false) ∧
    ∀ generation, ∃ line, (stateIni generation data).splitOn 0x0a =
        [ascii "[State]", ascii "generation=" ++ decimal generation, line, []] ∧
      iniEntry line = (ascii "payload", base64Encode data) := by
  have hkey : 0x3d ∉ ascii "payload" := by decide
  refine ⟨decode_base64Encode data, length_base64Encode data, exists_padding data,
    fun c hc => isIniSyntax_of_mem_base64Encode hc, fun generation => ⟨_, splitOn_stateIni generation data, ?_⟩⟩
  exact iniEntry_append hkey

end Ini

end NetworkHealth.Daemon
