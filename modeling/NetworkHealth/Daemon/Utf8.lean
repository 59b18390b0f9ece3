import NetworkHealth.Daemon.JsonText

/-! UTF-8 as the parser puts it out and as the writer takes it apart. Both work on bits; here
they are read as arithmetic, and the writer gets back the code point the parser put out. -/
namespace NetworkHealth.Daemon.Json
open NetworkHealth.Daemon.Json.Parser

section Bits

theorem shift_or (n d : ℕ) {k : ℕ} (h : d < 2 ^ k) : n <<< k ||| d = n * 2 ^ k + d := by
  rw [Nat.shiftLeft_eq, mul_comm, Nat.two_pow_add_eq_or_of_lt h]

theorem mark_or (mark : ℕ) {x : ℕ} (k : ℕ) (h : x < 2 ^ k) (hmark : 2 ^ k ∣ mark) : mark ||| x = mark + x := by
  obtain ⟨a, rfl⟩ := hmark
  rw [Nat.two_pow_add_eq_or_of_lt h]

theorem continuation_or (cp : ℕ) : 0x80 ||| cp &&& 0x3F = 0x80 + cp % 64 := by
  have hand : cp &&& 0x3F = cp % 64 := Nat.and_two_pow_sub_one_eq_mod cp 6
  rw [hand, mark_or 0x80 7 (by omega) (by decide)]

end Bits

section Encode

theorem appendUtf8_one {cp : ℕ} (h : cp < 0x80) : appendUtf8 cp = [UInt8.ofNat cp] := if_pos h

theorem appendUtf8_two {cp : ℕ} (hlow : 0x80 ≤ cp) (h : cp < 0x800) :
    appendUtf8 cp = [UInt8.ofNat (0xC0 + cp / 64), UInt8.ofNat (0x80 + cp % 64)] := by
  rw [appendUtf8, if_neg (by omega), if_pos h, continuation_or, Nat.shiftRight_eq_div_pow,
    mark_or 0xC0 6 (by omega) (by decide)]

theorem appendUtf8_three {cp : ℕ} (hlow : 0x800 ≤ cp) (h : cp < 0x10000) :
    appendUtf8 cp =
      [UInt8.ofNat (0xE0 + cp / 4096), UInt8.ofNat (0x80 + cp / 64 % 64), UInt8.ofNat (0x80 + cp % 64)] := by
  rw [appendUtf8, if_neg (by omega), if_neg (by omega), if_pos h, continuation_or, continuation_or,
    Nat.shiftRight_eq_div_pow, Nat.shiftRight_eq_div_pow, mark_or 0xE0 5 (by omega) (by decide)]

theorem appendUtf8_four {cp : ℕ} (hlow : 0x10000 ≤ cp) (h : cp < 0x200000) :
    appendUtf8 cp = [UInt8.ofNat (0xF0 + cp / 262144), UInt8.ofNat (0x80 + cp / 4096 % 64),
      UInt8.ofNat (0x80 + cp / 64 % 64), UInt8.ofNat (0x80 + cp % 64)] := by
  rw [appendUtf8, if_neg (by omega), if_neg (by omega), if_neg (by omega), continuation_or, continuation_or,
    continuation_or, Nat.shiftRight_eq_div_pow, Nat.shiftRight_eq_div_pow, Nat.shiftRight_eq_div_pow,
    mark_or 0xF0 4 (by omega) (by decide)]

theorem lead_ge {n : ℕ} (h : 0x80 ≤ n) (hlt : n < 256) : 0x80 ≤ UInt8.ofNat n := by
  rw [UInt8.le_iff_toNat_le, UInt8.toNat_ofNat', Nat.mod_eq_of_lt hlt]
  exact h

/-- No byte of a character beyond ASCII is one of ASCII. -/
theorem le_of_mem_appendUtf8 {cp : ℕ} (hlow : 0x80 ≤ cp) (h : cp < 0x200000) {b : UInt8} (hb : b ∈ appendUtf8 cp) :
    0x80 ≤ b := by
  by_cases htwo : cp < 0x800
  · rw [appendUtf8_two hlow htwo] at hb
    simp only [List.mem_cons, List.not_mem_nil, or_false] at hb
    rcases hb with rfl | rfl <;> apply lead_ge <;> omega
  by_cases hthree : cp < 0x10000
  · rw [appendUtf8_three (by omega) hthree] at hb
    simp only [List.mem_cons, List.not_mem_nil, or_false] at hb
    rcases hb with rfl | rfl | rfl <;> apply lead_ge <;> omega
  · rw [appendUtf8_four (by omega) h] at hb
    simp only [List.mem_cons, List.not_mem_nil, or_false] at hb
    rcases hb with rfl | rfl | rfl | rfl <;> apply lead_ge <;> omega

theorem toNat_lt (c : Char) : c.toNat < 0x110000 := by
  rcases c.valid with h | h
  · exact h.trans (by decide)
  · exact h.2

/-- What is put out for a scalar value is its UTF-8. -/
theorem appendUtf8_char (c : Char) : appendUtf8 c.toNat = String.utf8EncodeChar c := by
  have hlt := toNat_lt c
  have hval : c.val.toNat = c.toNat := rfl
  simp only [String.utf8EncodeChar, hval]
  by_cases hone : c.toNat ≤ 0x7f
  · rw [if_pos hone, appendUtf8_one (by omega)]
  rw [if_neg hone]
  by_cases htwo : c.toNat ≤ 0x7ff
  · rw [if_pos htwo, appendUtf8_two (by omega) (by omega), Nat.mod_eq_of_lt (b := 0x20) (by omega), add_comm 0xC0,
      add_comm 0x80]
  rw [if_neg htwo]
  by_cases hthree : c.toNat ≤ 0xffff
  · rw [if_pos hthree, appendUtf8_three (by omega) (by omega), Nat.mod_eq_of_lt (b := 0x10) (by omega), add_comm 0xE0,
      add_comm 0x80, add_comm 0x80]
  · rw [if_neg hthree, appendUtf8_four (by omega) (by omega), Nat.mod_eq_of_lt (b := 0x08) (by omega), add_comm 0xF0,
      add_comm 0x80, add_comm 0x80, add_comm 0x80]

end Encode

section Decode

theorem leadByte_two : ∀ x < 32, leadByte (UInt8.ofNat (0xC0 + x)) = some (x, 1) := by decide
theorem leadByte_three : ∀ x < 16, leadByte (UInt8.ofNat (0xE0 + x)) = some (x, 2) := by decide
theorem leadByte_four : ∀ x < 8, leadByte (UInt8.ofNat (0xF0 + x)) = some (x, 3) := by decide

theorem continuation_bits : ∀ x < 64, UInt8.ofNat (0x80 + x) &&& 0xC0 = 0x80 ∧
    (UInt8.ofNat (0x80 + x) &&& 0x3F).toNat = x := by decide

theorem continued_cons (codePoint : ℕ) {x : ℕ} (h : x < 64) (rest : Bytes) :
    continued codePoint (UInt8.ofNat (0x80 + x) :: rest) = continued (codePoint * 64 + x) rest := by
  obtain ⟨hmark, hbits⟩ := continuation_bits x h
  have hshift : codePoint <<< 6 ||| x = codePoint * 64 + x := shift_or codePoint x (k := 6) h
  rw [continued, if_pos hmark, hbits, hshift]

/-- The loop over a string whose first sequence is complete. -/
theorem pieces_escaped {c : UInt8} {tail : Bytes} {bits extra codePoint : ℕ} (hc : 0x80 ≤ c)
    (hlead : leadByte c = some (bits, extra)) (hlen : tail.length = extra)
    (hcont : continued bits tail = some codePoint) (rest : Bytes) :
    pieces true 0 (c :: tail ++ rest) = .escaped codePoint :: pieces true extra (tail ++ rest) := by
  have hle : ¬ (tail ++ rest).length < extra := by
    rw [List.length_append]
    omega
  have htake : (tail ++ rest).take extra = tail := by rw [← hlen, List.take_left]
  simp only [List.cons_append, pieces, hc, and_self, if_true, hlead, if_neg hle, htake, hcont]

/-- What the loop has dealt with is passed over. -/
theorem pieces_skip (asciiOnly : Bool) (skip : ℕ) (text : Bytes) :
    pieces asciiOnly skip text = pieces asciiOnly 0 (text.drop skip) := by
  induction text generalizing skip with
  | nil => simp [pieces]
  | cons c rest ih =>
    cases skip with
    | zero => rfl
    | succ skip => rw [pieces, ih, List.drop_succ_cons]

theorem pieces_utf8 {cp : ℕ} (hlow : 0x80 ≤ cp) (h : cp < 0x110000) (rest : Bytes) :
    pieces true 0 (appendUtf8 cp ++ rest) = .escaped cp :: pieces true 0 rest := by
  by_cases htwo : cp < 0x800
  · rw [appendUtf8_two hlow htwo, pieces_escaped (lead_ge (by omega) (by omega)) (leadByte_two _ (by omega)) rfl
      (continued_cons _ (by omega) []), pieces_skip]
    simp [Nat.div_add_mod']
  by_cases hthree : cp < 0x10000
  · have hcont : continued (cp / 4096) [UInt8.ofNat (0x80 + cp / 64 % 64), UInt8.ofNat (0x80 + cp % 64)] = some cp := by
      rw [continued_cons _ (by omega), continued_cons _ (by omega), continued, Option.some.injEq]
      omega
    rw [appendUtf8_three (by omega) hthree, pieces_escaped (lead_ge (by omega) (by omega))
      (leadByte_three _ (by omega)) rfl hcont, pieces_skip]
    rfl
  · have hcont : continued (cp / 262144) [UInt8.ofNat (0x80 + cp / 4096 % 64), UInt8.ofNat (0x80 + cp / 64 % 64),
        UInt8.ofNat (0x80 + cp % 64)] = some cp := by
      rw [continued_cons _ (by omega), continued_cons _ (by omega), continued_cons _ (by omega), continued,
        Option.some.injEq]
      omega
    rw [appendUtf8_four (by omega) (by omega), pieces_escaped (lead_ge (by omega) (by omega))
      (leadByte_four _ (by omega)) rfl hcont, pieces_skip]
    rfl

/-- A text has a complete sequence that is decoded to this code point. -/
def HasSequence (text : Bytes) (codePoint : ℕ) : Prop :=
  ∃ before c rest bits extra, text = before ++ c :: rest ∧ leadByte c = some (bits, extra) ∧ extra ≤ rest.length ∧
    continued bits (rest.take extra) = some codePoint

theorem HasSequence.cons {text : Bytes} {codePoint : ℕ} (h : HasSequence text codePoint) (c : UInt8) :
    HasSequence (c :: text) codePoint := by
  obtain ⟨before, lead, rest, bits, extra, rfl, hrest⟩ := h
  exact ⟨c :: before, lead, rest, bits, extra, rfl, hrest⟩

/-- Everything put out is a byte of ASCII, a sequence of the string, or a replacement. -/
theorem mem_pieces {skip : ℕ} {text : Bytes} {piece : Piece} (h : piece ∈ pieces true skip text) :
    (∃ c, c < 0x80 ∧ piece = .byte c) ∨ piece = replacement ∨
      ∃ codePoint, HasSequence text codePoint ∧ piece = .escaped codePoint := by
  induction text generalizing skip with
  | nil => simp [pieces] at h
  | cons first rest ih =>
    have hlater : ∀ skip, piece ∈ pieces true skip rest → (∃ c, c < 0x80 ∧ piece = .byte c) ∨ piece = replacement ∨
        ∃ codePoint, HasSequence (first :: rest) codePoint ∧ piece = .escaped codePoint := by
      intro skip hmem
      rcases ih hmem with hbyte | hreplaced | ⟨codePoint, hsequence, hpiece⟩
      · exact Or.inl hbyte
      · exact Or.inr (Or.inl hreplaced)
      · exact Or.inr (Or.inr ⟨codePoint, hsequence.cons first, hpiece⟩)
    have hreplaced : piece ∈ replacement :: pieces true 0 rest →
        (∃ c, c < 0x80 ∧ piece = .byte c) ∨ piece = replacement ∨
        ∃ codePoint, HasSequence (first :: rest) codePoint ∧ piece = .escaped codePoint := fun hmem =>
      (List.mem_cons.mp hmem).elim (fun hfirst => Or.inr (Or.inl hfirst)) (hlater 0)
    cases skip with
    | succ skip => exact hlater skip h
    | zero =>
      by_cases hhigh : true = true ∧ 0x80 ≤ first
      · rw [pieces, if_pos hhigh] at h
        cases hlead : leadByte first with
        | none =>
          rw [hlead] at h
          exact hreplaced h
        | some lead =>
          simp only [hlead] at h
          split_ifs at h with hcut
          · exact Or.inr (Or.inl (List.mem_singleton.mp h))
          · cases hcont : continued lead.1 (rest.take lead.2) with
            | none =>
              rw [hcont] at h
              exact hreplaced h
            | some codePoint =>
              rw [hcont] at h
              rcases List.mem_cons.mp h with hfirst | h
              · have hsequence : HasSequence (first :: rest) codePoint :=
                  ⟨[], first, rest, lead.1, lead.2, rfl, hlead, not_lt.mp hcut, hcont⟩
                exact Or.inr (Or.inr ⟨codePoint, hsequence, hfirst⟩)
              · exact hlater _ h
      · rw [pieces, if_neg hhigh] at h
        rcases List.mem_cons.mp h with hfirst | h
        · exact Or.inl ⟨first, UInt8.not_le.mp fun hle => hhigh ⟨rfl, hle⟩, hfirst⟩
        · exact hlater 0 h

end Decode

end NetworkHealth.Daemon.Json
