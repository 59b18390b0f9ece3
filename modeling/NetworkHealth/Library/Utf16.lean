import NetworkHealth.Library.JsonText

/-! The strings of a JavaScript engine, which are code units of UTF-16, and the text they stand
for. -/
namespace NetworkHealth

/-- The code units of a character, two for one beyond the basic plane. -/
def utf16Char (c : Char) : CodeUnits :=
  if c.toNat < 0x10000 then [UInt16.ofNat c.toNat]
  else [UInt16.ofNat (0xD800 + (c.toNat - 0x10000) / 0x400), UInt16.ofNat (0xDC00 + (c.toNat - 0x10000) % 0x400)]

def utf16 (text : String) : CodeUnits := text.toList.flatMap utf16Char

/-- A high surrogate and the low one after it are one character. A surrogate without the other
has no character of its own. -/
def characters : CodeUnits → List Char
  | [] => []
  | high :: low :: rest =>
    if 0xD800 ≤ high.toNat ∧ high.toNat ≤ 0xDBFF ∧ 0xDC00 ≤ low.toNat ∧ low.toNat ≤ 0xDFFF then
      Char.ofNat (0x10000 + (high.toNat - 0xD800) * 0x400 + (low.toNat - 0xDC00)) :: characters rest
    else Char.ofNat high.toNat :: characters (low :: rest)
  | [single] => [Char.ofNat single.toNat]

def unicode (cs : CodeUnits) : String := String.ofList (characters cs)

theorem not_surrogate (c : Char) : ¬ (0xD800 ≤ c.toNat ∧ c.toNat ≤ 0xDFFF) := by
  rintro ⟨hlow, hhigh⟩
  have hvalid : c.toNat < 0xD800 ∨ 0xDFFF < c.toNat ∧ c.toNat < 0x110000 := c.valid
  omega

/-- The first character is decoded on its own, whatever follows it. -/
theorem characters_append (c : Char) (rest : CodeUnits) : characters (utf16Char c ++ rest) = c :: characters rest := by
  have hlt : c.toNat < 0x110000 := by
    have hvalid : c.toNat < 0xD800 ∨ 0xDFFF < c.toNat ∧ c.toNat < 0x110000 := c.valid
    omega
  have htoNat : ∀ n < 0x10000, (UInt16.ofNat n).toNat = n := fun n hn => by
    rw [UInt16.toNat_ofNat', Nat.mod_eq_of_lt hn]
  unfold utf16Char
  split_ifs with hbasic
  · have hu := htoNat c.toNat hbasic
    cases rest with
    | nil => simp only [List.append_nil, characters, hu, Char.ofNat_toNat]
    | cons low rest =>
      rw [List.singleton_append, characters, if_neg, hu, Char.ofNat_toNat]
      rw [hu]
      exact fun h => not_surrogate c (by omega)
  · have hhigh := htoNat (0xD800 + (c.toNat - 0x10000) / 0x400) (by omega)
    have hlow := htoNat (0xDC00 + (c.toNat - 0x10000) % 0x400) (by omega)
    have hcode : 0x10000 + (0xD800 + (c.toNat - 0x10000) / 0x400 - 0xD800) * 0x400 +
        (0xDC00 + (c.toNat - 0x10000) % 0x400 - 0xDC00) = c.toNat := by omega
    rw [List.cons_append, List.singleton_append, characters, if_pos, hhigh, hlow, hcode, Char.ofNat_toNat]
    rw [hhigh, hlow]
    omega

@[simp] theorem unicode_utf16 (text : String) : unicode (utf16 text) = text := by
  have hdecode : ∀ cs : List Char, characters (cs.flatMap utf16Char) = cs := by
    intro cs
    induction cs with
    | nil => rfl
    | cons c cs ih => rw [List.flatMap_cons, characters_append, ih]
  rw [unicode, utf16, hdecode, String.ofList_toList]

theorem utf16_injective : Function.Injective utf16 := by
  intro text text' h
  rw [← unicode_utf16 text, h, unicode_utf16]

end NetworkHealth
