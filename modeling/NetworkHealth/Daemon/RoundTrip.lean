import NetworkHealth.Daemon.Accepts

/-! What the daemon writes as JSON it reads back. Every text that it writes is one that the
grammar derives from the value itself, with the lines and the indents as blanks. -/
namespace NetworkHealth.Daemon.Json
open CNumber (byte hexText)

section Restorable

mutual

/-- The number of values on the longest path, the scalar at its end included. -/
def depth : Json → ℕ
  | array items => itemsDepth items + 1
  | object members => membersDepth members + 1
  | _ => 1

def itemsDepth : List Json → ℕ
  | [] => 0
  | item :: rest => max item.depth (itemsDepth rest)

def membersDepth : List (Bytes × Json) → ℕ
  | [] => 0
  | (_, value) :: rest => max value.depth (membersDepth rest)

end

theorem depth_le_of_mem_items {items : List Json} {item : Json} (h : item ∈ items) : item.depth ≤ itemsDepth items := by
  induction items with
  | nil => cases h
  | cons first rest ih =>
    rcases List.mem_cons.mp h with rfl | h
    · exact le_max_left _ _
    · exact (ih h).trans (le_max_right _ _)

theorem depth_le_of_mem_members {members : List (Bytes × Json)} {m : Bytes × Json} (h : m ∈ members) :
    m.2.depth ≤ membersDepth members := by
  induction members with
  | nil => cases h
  | cons first rest ih =>
    rcases List.mem_cons.mp h with rfl | h
    · exact le_max_left _ _
    · exact (ih h).trans (le_max_right _ _)

def ValidUtf8 (text : Bytes) : Prop := ∃ characters : List Char, text = characters.flatMap String.utf8EncodeChar

mutual

/-- Numbers are integers that are written as such, names differ, and what is written in ASCII
only is UTF-8. -/
def Restorable (asciiOnly : Bool) : Json → Prop
  | number value => ∃ z : ℤ, value = z ∧ |z| < 9000000000000000
  | infinite => False
  | string value => asciiOnly = true → ValidUtf8 value
  | array items => itemsRestorable asciiOnly items
  | object members => (members.map Prod.fst).Nodup ∧ membersRestorable asciiOnly members
  | _ => True

def itemsRestorable (asciiOnly : Bool) : List Json → Prop
  | [] => True
  | item :: rest => item.Restorable asciiOnly ∧ itemsRestorable asciiOnly rest

def membersRestorable (asciiOnly : Bool) : List (Bytes × Json) → Prop
  | [] => True
  | (key, value) :: rest =>
    (asciiOnly = true → ValidUtf8 key) ∧ value.Restorable asciiOnly ∧ membersRestorable asciiOnly rest

end

end Restorable

namespace Grammar

section Strings

/-- A number below 65536 in four hex digits, as the writer has them. -/
def hexOf (n : ℕ) : Hex4 :=
  ⟨⟨⟨n / 4096 % 16, Nat.mod_lt _ (by decide)⟩, false⟩, ⟨⟨n / 256 % 16, Nat.mod_lt _ (by decide)⟩, false⟩,
    ⟨⟨n / 16 % 16, Nat.mod_lt _ (by decide)⟩, false⟩, ⟨⟨n % 16, Nat.mod_lt _ (by decide)⟩, false⟩⟩

theorem byte_hexDigit (d : Fin 16) : HexDigit.byte ⟨d, false⟩ = CNumber.hexDigit d.val := by
  have hall : ∀ d : Fin 16, HexDigit.byte ⟨d, false⟩ = CNumber.hexDigit d.val := by decide
  exact hall d

theorem text_hexOf (n : ℕ) : (hexOf n).text = hexText n := by
  simp only [Hex4.text, hexOf, byte_hexDigit, hexText]

theorem value_hexOf {n : ℕ} (h : n < 0x10000) : (hexOf n).value = n := by
  simp only [Hex4.value, hexOf]
  omega

/-- A scalar value has its escapes in the grammar. -/
theorem exists_escaped {n : ℕ} (h : n.isValidChar) :
    ∃ c : Character, c.text = writeEscapedCodePoint n ∧ c.bytes = Parser.appendUtf8 n := by
  have hbytes : String.utf8EncodeChar (Char.ofNat n) = Parser.appendUtf8 n := by
    rw [← appendUtf8_char, toNat_ofNat h]
  by_cases hlow : n < 0x10000
  · have hvalue := value_hexOf hlow
    refine ⟨.scalar (hexOf n) (hvalue.symm ▸ h), ?_, ?_⟩
    · rw [writeEscapedCodePoint, if_pos hlow, Character.text, text_hexOf]
      rfl
    · rw [Character.bytes, hvalue, hbytes]
  · have hlt : n < 0x110000 := by
      rcases h with h | h
      · omega
      · exact h.2
    have hhigh : 0xD800 + (n - 0x10000) >>> 10 = 0xD800 + (n - 0x10000) / 0x400 := by
      rw [Nat.shiftRight_eq_div_pow]
    have hlowBits : (n - 0x10000) &&& 0x3FF = (n - 0x10000) % 0x400 := Nat.and_two_pow_sub_one_eq_mod _ 10
    have hvalueHigh := value_hexOf (n := 0xD800 + (n - 0x10000) / 0x400) (by omega)
    have hvalueLow := value_hexOf (n := 0xDC00 + (n - 0x10000) % 0x400) (by omega)
    refine ⟨.pair (hexOf (0xD800 + (n - 0x10000) / 0x400)) (hexOf (0xDC00 + (n - 0x10000) % 0x400)) ?_ ?_, ?_, ?_⟩
    · rw [hvalueHigh]
      omega
    · rw [hvalueLow]
      omega
    · rw [writeEscapedCodePoint, if_neg hlow, Character.text, text_hexOf, text_hexOf]
      simp only [hhigh, hlowBits]
      rfl
    · have hcode : codePointOfPair (0xD800 + (n - 0x10000) / 0x400) (0xDC00 + (n - 0x10000) % 0x400) = n := by
        unfold codePointOfPair
        omega
      rw [Character.bytes, hvalueHigh, hvalueLow, hcode, hbytes]

theorem exists_byte (b : UInt8) : ∃ c : Character, c.text = writeByte b ∧ c.bytes = [b] := by
  by_cases hescape : b ∈ [quote, backslash, 0x08, 0x0c, 0x0a, 0x0d, 0x09]
  · have hall : [quote, backslash, 0x08, 0x0c, 0x0a, 0x0d, 0x09].all
        (fun b => escapes.any fun e => writeByte b = [0x5c, e.1] ∧ e.2 = b) = true := by decide
    obtain ⟨e, he, hescaped⟩ := List.any_eq_true.mp (List.all_eq_true.mp hall b hescape)
    obtain ⟨htext, hvalue⟩ := of_decide_eq_true hescaped
    exact ⟨.escape e.1 e.2 he, htext.symm, congrArg (fun v => [v]) hvalue⟩
  · simp only [List.mem_cons, List.not_mem_nil, or_false, not_or] at hescape
    obtain ⟨h₁, h₂, h₃, h₄, h₅, h₆, h₇⟩ := hescape
    rw [writeByte, if_neg h₁, if_neg h₂, if_neg h₃, if_neg h₄, if_neg h₅, if_neg h₆, if_neg h₇]
    by_cases hcontrol : b < 0x20
    · have hlt : b.toNat < 0x20 := UInt8.lt_iff_toNat_lt.mp hcontrol
      obtain ⟨c, htext, hbytes⟩ := exists_escaped (n := b.toNat) (Or.inl (by omega))
      refine ⟨c, ?_, ?_⟩
      · rw [if_pos hcontrol, htext]
      · rw [hbytes, appendUtf8_one (by omega), UInt8.ofNat_toNat]
    · rw [if_neg hcontrol]
      exact ⟨.unescaped b ⟨UInt8.not_lt.mp hcontrol, h₁, h₂⟩, rfl, rfl⟩

theorem exists_plain (text : Bytes) :
    ∃ cs : List Character, cs.flatMap Character.text = (pieces false 0 text).flatMap Piece.text ∧
      stringBytes cs = text := by
  induction text with
  | nil => exact ⟨[], rfl, rfl⟩
  | cons b rest ih =>
    obtain ⟨cs, htext, hbytes⟩ := ih
    obtain ⟨c, htextByte, hbytesByte⟩ := exists_byte b
    refine ⟨c :: cs, ?_, ?_⟩
    · rw [List.flatMap_cons, htext, htextByte, pieces]
      rfl
    · rw [stringBytes, List.flatMap_cons, hbytesByte]
      exact congrArg (List.cons b) hbytes

theorem exists_utf8 (chars : List Char) :
    ∃ cs : List Character, cs.flatMap Character.text =
      (pieces true 0 (chars.flatMap String.utf8EncodeChar)).flatMap Piece.text ∧
      stringBytes cs = chars.flatMap String.utf8EncodeChar := by
  induction chars with
  | nil => exact ⟨[], rfl, rfl⟩
  | cons char rest ih =>
    obtain ⟨cs, htext, hbytes⟩ := ih
    rw [List.flatMap_cons, ← appendUtf8_char]
    by_cases hascii : char.toNat < 0x80
    · obtain ⟨c, htextChar, hbytesChar⟩ := exists_byte (UInt8.ofNat char.toNat)
      refine ⟨c :: cs, ?_, ?_⟩
      · have hlow : ¬ (true = true ∧ 0x80 ≤ UInt8.ofNat char.toNat) := by
          rintro ⟨-, h⟩
          rw [UInt8.le_iff_toNat_le, UInt8.toNat_ofNat', Nat.mod_eq_of_lt (by omega)] at h
          exact absurd hascii (not_lt.mpr h)
        rw [appendUtf8_one hascii, List.singleton_append, pieces, if_neg hlow, List.flatMap_cons, List.flatMap_cons,
          htext, htextChar]
        rfl
      · rw [stringBytes, List.flatMap_cons, hbytesChar, appendUtf8_one hascii]
        exact congrArg _ hbytes
    · obtain ⟨c, htextChar, hbytesChar⟩ := exists_escaped char.valid
      refine ⟨c :: cs, ?_, ?_⟩
      · rw [pieces_utf8 (by omega) (toNat_lt char), List.flatMap_cons, List.flatMap_cons, htext, htextChar]
        rfl
      · rw [stringBytes, List.flatMap_cons, hbytesChar]
        exact congrArg _ hbytes

theorem exists_string {asciiOnly : Bool} {text : Bytes} (h : asciiOnly = true → ValidUtf8 text) :
    ∃ cs : List Character, stringText cs = writeString asciiOnly text ∧ stringBytes cs = text := by
  cases asciiOnly with
  | false =>
    obtain ⟨cs, htext, hbytes⟩ := exists_plain text
    exact ⟨cs, by rw [stringText, writeString, htext]; rfl, hbytes⟩
  | true =>
    obtain ⟨chars, rfl⟩ := h rfl
    obtain ⟨cs, htext, hbytes⟩ := exists_utf8 chars
    exact ⟨cs, by rw [stringText, writeString, htext]; rfl, hbytes⟩

end Strings

section Values

theorem isBlank_lineStart (indent : ℤ) (depth : ℕ) : ∀ c ∈ lineStart indent depth, IsBlank c := by
  intro c hc
  unfold lineStart at hc
  split_ifs at hc
  · rcases List.mem_cons.mp hc with rfl | hc
    · unfold IsBlank
      decide
    · rw [List.eq_of_mem_replicate hc]
      unfold IsBlank
      decide
  · cases hc

/-- The start of a line, as a blank. -/
def line (indent : ℤ) (depth : ℕ) : Blank := ⟨lineStart indent depth, isBlank_lineStart indent depth⟩

def noBlank : Blank := ⟨[], by simp⟩

/-- The blank between a name and its value. -/
def gap (indent : ℤ) : Blank :=
  ⟨if 0 ≤ indent then [byte ' '] else [], by
    split_ifs
    · intro c hc
      rw [List.mem_singleton.mp hc]
      unfold IsBlank
      decide
    · simp⟩

/-- The token of an integer. -/
def integerToken (z : ℤ) : NumberToken where
  minus := z < 0
  whole := ⟨CNumber.natText z.natAbs, CNumber.natText_ne_nil _, fun _ hd => CNumber.isDigit_of_mem_natText hd⟩
  fraction := none
  exponent := none
  noLeadingZero := fun hzero => by
    by_cases hz : z.natAbs = 0
    · simp only [hz]
      decide
    · exact absurd hzero (CNumber.head_natText (Nat.pos_of_ne_zero hz))

theorem exact_integerToken (z : ℤ) : (integerToken z).exact = z := by
  have hmagnitude : (integerToken z).magnitude = (z.natAbs : ℚ) := by
    simp [NumberToken.magnitude, integerToken, CNumber.natOfDigits_natText, fractionValue, exponentValue]
  rw [NumberToken.exact, hmagnitude]
  by_cases hneg : z < 0
  · have habs : ((z.natAbs : ℤ) : ℚ) = ((-z : ℤ) : ℚ) := congrArg _ (by omega)
    rw [Int.cast_natCast] at habs
    simp [integerToken, hneg, habs]
  · have habs : ((z.natAbs : ℤ) : ℚ) = (z : ℚ) := congrArg _ (by omega)
    rw [Int.cast_natCast] at habs
    simp [integerToken, hneg, habs]

theorem exists_number {z : ℤ} (h : |z| < 9000000000000000) :
    ∃ n : NumberToken, n.text = writeNumber z ∧ n.value = z ∧ n.InRange := by
  have hexact := exact_integerToken z
  have hrepresentable : Representable (z : ℚ) := CNumber.representable_intCast (h.le.trans (by norm_num))
  refine ⟨integerToken z, ?_, ?_, ?_⟩
  · have hcond : ((z : ℚ) = ((z : ℚ).floor : ℤ) ∧ |(z : ℚ)| < 9000000000000000) := by
      refine ⟨by simp, ?_⟩
      exact_mod_cast h
    have hfloor : (z : ℚ).floor = z := by simp
    rw [writeNumber, if_pos hcond, hfloor, CNumber.intText]
    by_cases hneg : z < 0 <;> simp [NumberToken.text, integerToken, hneg, fractionText, exponentText]
  · rw [NumberToken.value, hexact, hrepresentable.roundPlaces_eq]
  · rw [NumberToken.InRange, hexact]
    exact not_or.mp (CNumber.normal_of_representable hrepresentable)

/-- The text of a value is derived from a tree of the same depth that denotes the value. -/
def Derives (indent : ℤ) (asciiOnly : Bool) (depth : ℕ) (v : Json) (t : Tree) : Prop :=
  t.text = v.write indent asciiOnly depth ∧ t.value = v ∧ t.depth = v.depth ∧ t.InRange

variable {indent : ℤ} {asciiOnly : Bool} {depth : ℕ}

theorem exists_elements {items : List Json}
    (h : ∀ item ∈ items, item.Restorable asciiOnly → ∃ t, Derives indent asciiOnly (depth + 1) item t)
    (hitems : itemsRestorable asciiOnly items) :
    ∃ elements : List (Padded Tree), Tree.elementTexts elements =
        (writeItems indent asciiOnly (depth + 1) items).map (lineStart indent (depth + 1) ++ ·) ∧
      Tree.elementValues elements = items ∧ Tree.elementsDepth elements = itemsDepth items ∧
      Tree.elementsInRange elements := by
  induction items with
  | nil => exact ⟨[], rfl, rfl, rfl, trivial⟩
  | cons item rest ih =>
    obtain ⟨t, htext, hvalue, hdepth, hrange⟩ := h item List.mem_cons_self hitems.1
    obtain ⟨es, htexts, hvalues, hdepths, hranges⟩ := ih (fun i hi => h i (List.mem_cons_of_mem _ hi)) hitems.2
    refine ⟨⟨line indent (depth + 1), t, noBlank⟩ :: es, ?_, ?_, ?_, hrange, hranges⟩
    · simp [Tree.elementTexts, writeItems, line, noBlank, htext, htexts]
    · rw [Tree.elementValues, hvalue, hvalues]
    · rw [Tree.elementsDepth, itemsDepth, hdepth, hdepths]

theorem exists_members {members : List (Bytes × Json)}
    (h : ∀ m ∈ members, m.2.Restorable asciiOnly → ∃ t, Derives indent asciiOnly (depth + 1) m.2 t)
    (hmembers : membersRestorable asciiOnly members) :
    ∃ found : List (Padded (List Character) × Padded Tree), Tree.memberTexts found =
        (writeMembers indent asciiOnly (depth + 1) members).map (lineStart indent (depth + 1) ++ ·) ∧
      Tree.memberValues found = members ∧ Tree.membersDepth found = membersDepth members ∧
      Tree.membersInRange found := by
  induction members with
  | nil => exact ⟨[], rfl, rfl, rfl, trivial⟩
  | cons member rest ih =>
    obtain ⟨key, value⟩ := member
    obtain ⟨hkey, hvalueRest, hrest⟩ := hmembers
    obtain ⟨t, htext, hvalue, hdepth, hrange⟩ := h _ List.mem_cons_self hvalueRest
    obtain ⟨cs, hstring, hbytes⟩ := exists_string hkey
    obtain ⟨ms, htexts, hvalues, hdepths, hranges⟩ := ih (fun m hm => h m (List.mem_cons_of_mem _ hm)) hrest
    refine ⟨(⟨line indent (depth + 1), cs, noBlank⟩, ⟨gap indent, t, noBlank⟩) :: ms, ?_, ?_, ?_, hrange, hranges⟩
    · simp [Tree.memberTexts, writeMembers, Padded.wrap, line, gap, noBlank, hstring, htext, htexts]
    · rw [Tree.memberValues, hbytes, hvalue, hvalues]
    · rw [Tree.membersDepth, membersDepth, hdepth, hdepths]

theorem writeItems_eq_nil {items : List Json} : writeItems indent asciiOnly depth items = [] ↔ items = [] := by
  cases items <;> simp [writeItems]

theorem writeMembers_eq_nil {members : List (Bytes × Json)} :
    writeMembers indent asciiOnly depth members = [] ↔ members = [] := by
  cases members <;> simp [writeMembers]

theorem setMember_of_not_mem {key : Bytes} {members : List (Bytes × Json)} (h : key ∉ members.map Prod.fst)
    (value : Json) :
    setMember key value members = members ++ [(key, value)] := by
  induction members with
  | nil => rfl
  | cons member rest ih =>
    rw [List.map_cons, List.mem_cons, not_or] at h
    rw [setMember, if_neg (Ne.symm h.1), ih h.2, List.cons_append]

/-- Names that differ are all kept. -/
theorem lastWins_eq_self {members : List (Bytes × Json)} (h : (members.map Prod.fst).Nodup) :
    Tree.lastWins members = members := by
  induction members using List.reverseRecOn with
  | nil => rfl
  | append_singleton members member ih =>
    rw [List.map_append, List.nodup_append] at h
    obtain ⟨hnodup, -, hdisjoint⟩ := h
    have hnew : member.1 ∉ members.map Prod.fst := fun hmem => hdisjoint _ hmem _ (by simp) rfl
    rw [lastWins_append, ih hnodup, setMember_of_not_mem hnew]

theorem exists_tree (levels : ℕ) (v : Json) (hdepth : v.depth ≤ levels) (h : v.Restorable asciiOnly) :
    ∃ t, Derives indent asciiOnly depth v t := by
  induction levels generalizing v depth with
  | zero => cases v <;> simp [Json.depth] at hdepth
  | succ levels ih =>
    cases v with
    | null => exact ⟨.null, rfl, rfl, rfl, trivial⟩
    | bool value => exact ⟨.bool value, rfl, rfl, rfl, trivial⟩
    | number value =>
      obtain ⟨z, rfl, hz⟩ := h
      obtain ⟨n, htext, hvalue, hrange⟩ := exists_number hz
      exact ⟨.number n, htext, congrArg Json.number hvalue, rfl, hrange⟩
    | infinite => cases h
    | string value =>
      obtain ⟨cs, htext, hbytes⟩ := exists_string h
      exact ⟨.string cs, htext, congrArg Json.string hbytes, rfl, trivial⟩
    | array items =>
      have hitem : ∀ item ∈ items, item.Restorable asciiOnly → ∃ t, Derives indent asciiOnly (depth + 1) item t :=
        fun item hmem => ih item ((depth_le_of_mem_items hmem).trans (Nat.le_of_succ_le_succ hdepth))
      obtain ⟨es, htexts, hvalues, hdepths, hranges⟩ := exists_elements hitem h
      by_cases hnil : items = []
      · refine ⟨.array [] noBlank, ?_, ?_, ?_, trivial⟩ <;> subst hnil <;> rfl
      · have hne : writeItems indent asciiOnly (depth + 1) items ≠ [] := fun he => hnil (writeItems_eq_nil.mp he)
        refine ⟨.array es (line indent depth), ?_, congrArg Json.array hvalues, ?_, hranges⟩
        · simp [Tree.text, write, writeList, hne, htexts, line]
        · rw [Tree.depth, Json.depth, hdepths]
    | object members =>
      have hmember : ∀ m ∈ members, m.2.Restorable asciiOnly → ∃ t, Derives indent asciiOnly (depth + 1) m.2 t :=
        fun m hmem => ih m.2 ((depth_le_of_mem_members hmem).trans (Nat.le_of_succ_le_succ hdepth))
      obtain ⟨ms, htexts, hvalues, hdepths, hranges⟩ := exists_members hmember h.2
      by_cases hnil : members = []
      · refine ⟨.object [] noBlank, ?_, ?_, ?_, trivial⟩ <;> subst hnil <;> rfl
      · have hne : writeMembers indent asciiOnly (depth + 1) members ≠ [] := fun he => hnil (writeMembers_eq_nil.mp he)
        refine ⟨.object ms (line indent depth), ?_, ?_, ?_, hranges⟩
        · simp [Tree.text, write, writeList, hne, htexts, line, openBrace, closeBrace]
        · rw [Tree.value, hvalues, lastWins_eq_self h.1]
        · rw [Tree.depth, Json.depth, hdepths]

end Values

end Grammar

section Ascii

theorem text_escaped_lt (codePoint : ℕ) : ∀ b ∈ writeEscapedCodePoint codePoint, b < 0x80 := by
  intro b hb
  unfold writeEscapedCodePoint at hb
  split_ifs at hb
  · rcases List.mem_cons.mp hb with rfl | hb
    · decide
    rcases List.mem_cons.mp hb with rfl | hb
    · decide
    · exact CNumber.hexText_lt _ b hb
  · simp only [List.mem_append, List.mem_cons] at hb
    rcases hb with (rfl | rfl | hb) | rfl | rfl | hb
    · decide
    · decide
    · exact CNumber.hexText_lt _ b hb
    · decide
    · decide
    · exact CNumber.hexText_lt _ b hb

theorem writeByte_lt {c : UInt8} (hc : c < 0x80) : ∀ b ∈ writeByte c, b < 0x80 := by
  have hescapes : ∀ letter : UInt8, letter < 0x80 → ∀ b ∈ [backslash, letter], b < 0x80 := by
    intro letter hletter b hb
    rcases List.mem_pair.mp hb with rfl | rfl
    · decide
    · exact hletter
  intro b hb
  unfold writeByte at hb
  split_ifs at hb
  · exact hescapes _ (by decide) b hb
  · exact hescapes _ (by decide) b hb
  · exact hescapes _ (by decide) b hb
  · exact hescapes _ (by decide) b hb
  · exact hescapes _ (by decide) b hb
  · exact hescapes _ (by decide) b hb
  · exact hescapes _ (by decide) b hb
  · exact text_escaped_lt _ b hb
  · rw [List.mem_singleton.mp hb]
    exact hc

theorem writeString_lt (text : Bytes) : ∀ b ∈ writeString true text, b < 0x80 := by
  intro b hb
  simp only [writeString, List.cons_append, List.mem_cons, List.mem_append, List.not_mem_nil, or_false] at hb
  rcases hb with rfl | hb | rfl
  · decide
  · obtain ⟨piece, hpiece, hb⟩ := List.mem_flatMap.mp hb
    rcases mem_pieces hpiece with ⟨c, hc, rfl⟩ | rfl | ⟨codePoint, -, rfl⟩
    · exact writeByte_lt hc b hb
    · exact text_escaped_lt _ b hb
    · exact text_escaped_lt codePoint b hb
  · decide

theorem lineStart_lt (indent : ℤ) (depth : ℕ) : ∀ b ∈ lineStart indent depth, b < 0x80 := by
  intro b hb
  rcases Grammar.isBlank_lineStart indent depth b hb with rfl | rfl | rfl | rfl <;> decide

theorem writeNumber_lt (value : ℚ) : ∀ b ∈ writeNumber value, b < 0x80 := by
  unfold writeNumber
  split_ifs
  · exact CNumber.intText_lt _
  · exact CNumber.generalText_lt value

theorem mem_intercalate {separator : Bytes} {texts : List Bytes} {b : UInt8} (h : b ∈ separator.intercalate texts) :
    b ∈ separator ∨ ∃ text ∈ texts, b ∈ text := by
  induction texts with
  | nil => cases h
  | cons text texts ih =>
    cases texts with
    | nil => exact Or.inr ⟨text, List.mem_cons_self, by simpa using h⟩
    | cons text' texts =>
      rw [List.intercalate_cons_cons, List.mem_append, List.mem_append] at h
      rcases h with (h | h) | h
      · exact Or.inr ⟨text, List.mem_cons_self, h⟩
      · exact Or.inl h
      · rcases ih h with h | ⟨t, ht, hb⟩
        · exact Or.inl h
        · exact Or.inr ⟨t, List.mem_cons_of_mem _ ht, hb⟩

theorem writeList_lt {indent : ℤ} {depth : ℕ} {opening closing : UInt8} {items : List Bytes} (hopening : opening < 0x80)
    (hclosing : closing < 0x80) (hitems : ∀ item ∈ items, ∀ b ∈ item, b < 0x80) :
    ∀ b ∈ writeList indent depth opening closing items, b < 0x80 := by
  intro b hb
  unfold writeList at hb
  split_ifs at hb
  · simp only [List.mem_cons, List.not_mem_nil, or_false] at hb
    rcases hb with rfl | rfl <;> assumption
  · simp only [List.cons_append, List.mem_cons, List.mem_append, List.not_mem_nil, or_false] at hb
    rcases hb with rfl | (hb | hb) | rfl
    · exact hopening
    · rcases mem_intercalate hb with hb | ⟨text, htext, hb⟩
      · rw [List.mem_singleton.mp hb]
        decide
      · obtain ⟨item, hitem, rfl⟩ := List.mem_map.mp htext
        rcases List.mem_append.mp hb with hb | hb
        · exact lineStart_lt _ _ b hb
        · exact hitems item hitem b hb
    · exact lineStart_lt _ _ b hb
    · exact hclosing

theorem writeItems_eq_map (indent : ℤ) (asciiOnly : Bool) (depth : ℕ) (items : List Json) :
    writeItems indent asciiOnly depth items = items.map (write indent asciiOnly depth) := by
  induction items with
  | nil => rfl
  | cons item rest ih => exact congrArg (List.cons _) ih

theorem writeMembers_eq_map (indent : ℤ) (asciiOnly : Bool) (depth : ℕ) (members : List (Bytes × Json)) :
    writeMembers indent asciiOnly depth members = members.map fun m =>
      writeString asciiOnly m.1 ++ byte ':' :: (if 0 ≤ indent then [byte ' '] else []) ++
        m.2.write indent asciiOnly depth := by
  induction members with
  | nil => rfl
  | cons member rest ih => exact congrArg (List.cons _) ih

/-- What is written in ASCII only is in ASCII, whatever the strings are. -/
theorem write_lt (indent : ℤ) (levels : ℕ) (v : Json) (hdepth : v.depth ≤ levels) (depth : ℕ) :
    ∀ b ∈ v.write indent true depth, b < 0x80 := by
  induction levels generalizing v depth with
  | zero => cases v <;> simp [Json.depth] at hdepth
  | succ levels ih =>
    cases v with
    | null =>
      rw [write]
      decide +kernel
    | bool value => cases value <;> rw [write] <;> decide +kernel
    | number value => exact writeNumber_lt value
    | infinite =>
      rw [write]
      decide +kernel
    | string value => exact writeString_lt value
    | array items =>
      rw [write, writeItems_eq_map]
      refine writeList_lt (by decide) (by decide) fun text htext => ?_
      obtain ⟨item, hitem, rfl⟩ := List.mem_map.mp htext
      exact ih item ((depth_le_of_mem_items hitem).trans (Nat.le_of_succ_le_succ hdepth)) _
    | object members =>
      rw [write, writeMembers_eq_map]
      refine writeList_lt (by decide) (by decide) fun text htext => ?_
      obtain ⟨member, hmember, rfl⟩ := List.mem_map.mp htext
      intro b hb
      rcases List.mem_append.mp hb with hb | hb
      · rcases List.mem_append.mp hb with hb | hb
        · exact writeString_lt _ b hb
        · rcases List.mem_cons.mp hb with rfl | hb
          · decide
          · split_ifs at hb
            · rw [List.mem_singleton.mp hb]
              decide
            · cases hb
      · exact ih member.2 ((depth_le_of_mem_members hmember).trans (Nat.le_of_succ_le_succ hdepth)) _ b hb

end Ascii

/-- What is written is read back, however it is laid out, and in ASCII only it is in ASCII. -/
theorem parse_dump (v : Json) (indent : ℤ) :
    (∀ asciiOnly, v.depth ≤ 64 → v.Restorable asciiOnly → parse (v.dump indent asciiOnly) = (v, [])) ∧
      ∀ b ∈ v.dump indent true, b < 0x80 := by
  constructor
  · intro asciiOnly hdepth h
    obtain ⟨t, htext, hvalue, hdepthTree, hrange⟩ : ∃ t, Grammar.Derives indent asciiOnly 0 v t :=
      Grammar.exists_tree 64 v hdepth h
    have hread := Grammar.parse_text Grammar.noBlank Grammar.noBlank (hdepthTree.trans_le hdepth) hrange
    rw [htext, hvalue] at hread
    simpa [Grammar.noBlank, dump] using hread
  · exact write_lt indent v.depth v (le_refl _) 0

/-- An object with a name beyond ASCII, on several lines. -/
theorem parse_dump_lines : parse (dump (.object [([0xc3, 0xa9], .array [.number 1, .null])]) 2 true) =
    (.object [([0xc3, 0xa9], .array [.number 1, .null])], []) := by
  refine (parse_dump _ 2).1 true (by decide) ?_
  exact ⟨by decide, fun _ => ⟨[Char.ofNat 0xe9], by decide⟩, ⟨⟨1, by norm_num, by decide⟩, trivial, trivial⟩, trivial⟩

end NetworkHealth.Daemon.Json
