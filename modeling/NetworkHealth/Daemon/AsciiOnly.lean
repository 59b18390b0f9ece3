import NetworkHealth.Daemon.RoundTrip

/-! Strings written in ASCII only, whatever bytes they have. The parser reads code units, and
two of them at once where the first is a high surrogate. Every byte of ASCII is read back in
its place unless it follows a lead byte that the end of the string cuts short, where the
writer stops. -/
namespace NetworkHealth.Daemon.Json
open NetworkHealth.Daemon.Json.Parser
open CNumber (byte hexText)

section Tokens

/-- What the parser reads at a time: a byte, or a code unit of a `\u` escape. -/
inductive Token
  | raw (b : UInt8)
  | unit (u : ℕ)
  deriving DecidableEq, Repr

def isControl (b : UInt8) : Bool := b < 0x20 && b ∉ [0x08, 0x0c, 0x0a, 0x0d, 0x09]

def Token.text : Token → Bytes
  | raw b => writeByte b
  | unit u => backslash :: byte 'u' :: hexText u

def Token.Valid : Token → Prop
  | raw b => isControl b = false
  | unit u => u < 0x10000

def Piece.tokens : Piece → List Token
  | .byte c => if isControl c = true then [.unit c.toNat] else [.raw c]
  | .escaped codePoint =>
    if codePoint < 0x10000 then [.unit codePoint]
    else [.unit (0xD800 + (codePoint - 0x10000) >>> 10), .unit (0xDC00 + ((codePoint - 0x10000) &&& 0x3FF))]

/-- The bytes that the parser gets from them. -/
def readTokens : List Token → Bytes
  | [] => []
  | .raw b :: rest => b :: readTokens rest
  | .unit u :: .unit low :: rest =>
    if isHighSurrogate u = true then afterHigh u low ++ readTokens rest
    else appendUtf8 u ++ readTokens (.unit low :: rest)
  | .unit u :: rest => appendUtf8 u ++ readTokens rest

theorem writeByte_control {c : UInt8} (h : isControl c = true) : writeByte c = writeEscapedCodePoint c.toNat := by
  have hall : ∀ n : Fin 32, isControl (UInt8.ofNat n.val) = true →
      writeByte (UInt8.ofNat n.val) = writeEscapedCodePoint (UInt8.ofNat n.val).toNat := by decide
  have hlt : c.toNat < 32 := by
    have hc : c < 0x20 := by
      simp only [isControl, Bool.and_eq_true, decide_eq_true_eq] at h
      exact h.1
    exact UInt8.lt_iff_toNat_lt.mp hc
  have hcontrol := hall ⟨c.toNat, hlt⟩
  rw [UInt8.ofNat_toNat] at hcontrol
  exact hcontrol h

theorem Piece.text_eq (piece : Piece) : piece.text = piece.tokens.flatMap Token.text := by
  cases piece with
  | byte c =>
    simp only [Piece.text, Piece.tokens]
    by_cases hcontrol : isControl c = true
    · have hlt := c.toNat_lt
      rw [if_pos hcontrol, writeByte_control hcontrol, writeEscapedCodePoint, if_pos (by omega)]
      simp [Token.text]
    · rw [if_neg hcontrol]
      simp [Token.text]
  | escaped codePoint =>
    simp only [Piece.text, Piece.tokens, writeEscapedCodePoint]
    split_ifs <;> simp [Token.text]

theorem flatMap_text (ps : List Piece) : ps.flatMap Piece.text = (ps.flatMap Piece.tokens).flatMap Token.text := by
  rw [List.flatMap_assoc]
  exact congrArg (fun f => ps.flatMap f) (funext Piece.text_eq)

/-- A byte is read on its own. -/
theorem reads_byte (b : UInt8) : Reads (writeByte b) [b] := by
  obtain ⟨c, htext, hbytes⟩ := Grammar.exists_byte b
  rw [← htext, ← hbytes]
  exact Grammar.reads_character c

/-- A byte that is no control character starts no `\u` escape. -/
theorem take_raw {b : UInt8} (h : isControl b = false) (rest : Bytes) :
    (writeByte b ++ rest).take 2 ≠ [backslash, byte 'u'] := by
  by_cases hescape : b ∈ [quote, backslash, 0x08, 0x0c, 0x0a, 0x0d, 0x09]
  · have hall : [quote, backslash, 0x08, 0x0c, 0x0a, 0x0d, 0x09].all
        (fun b => (writeByte b).length = 2 ∧ writeByte b ≠ [backslash, byte 'u']) = true := by decide
    obtain ⟨hlength, hne⟩ := of_decide_eq_true (List.all_eq_true.mp hall b hescape)
    rwa [List.take_left' hlength]
  · simp only [List.mem_cons, List.not_mem_nil, or_false, not_or] at hescape
    obtain ⟨h₁, h₂, h₃, h₄, h₅, h₆, h₇⟩ := hescape
    have hlow : ¬ b < 0x20 := fun hlow => by simp [isControl, hlow, h₃, h₄, h₅, h₆, h₇] at h
    rw [writeByte, if_neg h₁, if_neg h₂, if_neg h₃, if_neg h₄, if_neg h₅, if_neg h₆, if_neg h₇, if_neg hlow]
    intro he
    exact h₂ (List.cons.inj he).1

theorem hexText_eq {u : ℕ} (h : u < 0x10000) :
    ∃ hex : Grammar.Hex4, hexText u = hex.text ∧ hex.value = u :=
  ⟨Grammar.hexOf u, (Grammar.text_hexOf u).symm, Grammar.value_hexOf h⟩

/-- The loop over a string of tokens. -/
theorem parseCharacters_tokens (tokens : List Token) (hvalid : ∀ t ∈ tokens, t.Valid) (out rest : Bytes) :
    parseCharacters (out, tokens.flatMap Token.text ++ quote :: rest) = .ok (out ++ readTokens tokens, rest) := by
  induction tokens using readTokens.induct generalizing out with
  | case1 =>
    rw [readTokens, List.append_nil]
    exact loop_done rfl
  | case2 b tokens ih =>
    have hread := ih (fun t ht => hvalid t (List.mem_cons_of_mem _ ht)) (out ++ [b])
    rw [List.flatMap_cons, List.append_assoc, Token.text, reads_byte b out, hread, readTokens, List.append_assoc]
    rfl
  | case3 u low tokens hhigh ih =>
    obtain ⟨hex, htext, rfl⟩ := hexText_eq (hvalid (.unit u) List.mem_cons_self)
    obtain ⟨hexLow, htextLow, rfl⟩ := hexText_eq (hvalid (.unit low) (List.mem_cons_of_mem _ List.mem_cons_self))
    have hread := ih (fun t ht => hvalid t (List.mem_cons_of_mem _ (List.mem_cons_of_mem _ ht)))
      (out ++ afterHigh hex.value hexLow.value)
    have hescape := Grammar.unicodeEscape_high hhigh hexLow (tokens.flatMap Token.text ++ quote :: rest)
    have hjoin : (Token.unit hex.value :: .unit hexLow.value :: tokens).flatMap Token.text ++ quote :: rest =
        backslash :: byte 'u' :: (hex.text ++ backslash :: byte 'u' :: hexLow.text ++
          (tokens.flatMap Token.text ++ quote :: rest)) := by
      simp [Token.text, htext, htextLow]
    rw [hjoin, parseCharacters_unicode hescape, hread, readTokens, if_pos hhigh, List.append_assoc]
  | case4 u low tokens hhigh ih =>
    obtain ⟨hex, htext, rfl⟩ := hexText_eq (hvalid (.unit u) List.mem_cons_self)
    have hread := ih (fun t ht => hvalid t (List.mem_cons_of_mem _ ht)) (out ++ appendUtf8 hex.value)
    have hescape := Grammar.unicodeEscape_single (Bool.eq_false_iff.mpr hhigh)
      ((Token.unit low :: tokens).flatMap Token.text ++ quote :: rest)
    have hjoin : (Token.unit hex.value :: .unit low :: tokens).flatMap Token.text ++ quote :: rest =
        backslash :: byte 'u' :: (hex.text ++ ((Token.unit low :: tokens).flatMap Token.text ++ quote :: rest)) := by
      simp [Token.text, htext]
    rw [hjoin, parseCharacters_unicode hescape, hread, readTokens, if_neg hhigh, List.append_assoc]
  | case5 u tokens hnext ih =>
    obtain ⟨hex, htext, rfl⟩ := hexText_eq (hvalid (.unit u) List.mem_cons_self)
    have hread := ih (fun t ht => hvalid t (List.mem_cons_of_mem _ ht)) (out ++ appendUtf8 hex.value)
    have halone : (tokens.flatMap Token.text ++ quote :: rest).take 2 ≠ [backslash, byte 'u'] := by
      cases tokens with
      | nil =>
        intro he
        exact absurd (List.cons.inj he).1 (by decide)
      | cons t tokens =>
        cases t with
        | raw b =>
          rw [List.flatMap_cons, List.append_assoc]
          exact take_raw (hvalid (.raw b) (List.mem_cons_of_mem _ List.mem_cons_self)) _
        | unit low => exact absurd rfl (hnext low tokens)
    have hescape := Grammar.unicodeEscape_alone hex halone
    have hjoin : (Token.unit hex.value :: tokens).flatMap Token.text ++ quote :: rest =
        backslash :: byte 'u' :: (hex.text ++ (tokens.flatMap Token.text ++ quote :: rest)) := by
      simp [Token.text, htext]
    rw [hjoin, parseCharacters_unicode hescape, hread, readTokens.eq_4 _ _ hnext, List.append_assoc]

/-- A code unit that is no high surrogate stands on its own. -/
theorem readTokens_unit {u : ℕ} (h : isHighSurrogate u = false) (tokens : List Token) :
    readTokens (.unit u :: tokens) = appendUtf8 u ++ readTokens tokens := by
  cases tokens with
  | nil => rw [readTokens.eq_4 _ _ (by simp)]
  | cons t tokens =>
    cases t with
    | raw b => rw [readTokens.eq_4 _ _ (by simp)]
    | unit low => rw [readTokens, if_neg (by simp [h])]

theorem isHighSurrogate_ascii {a : UInt8} (ha : a < 0x80) : isHighSurrogate a.toNat = false := by
  have hlt : a.toNat < 0x80 := UInt8.lt_iff_toNat_lt.mp ha
  have hlow : ¬ 0xD800 ≤ a.toNat := by omega
  simp [isHighSurrogate, hlow]

theorem appendUtf8_ascii {a : UInt8} (ha : a < 0x80) : appendUtf8 a.toNat = [a] := by
  rw [appendUtf8_one (UInt8.lt_iff_toNat_lt.mp ha), UInt8.ofNat_toNat]

/-- A byte of ASCII is read in its place, whatever stands before and after it. -/
theorem readTokens_ascii {a : UInt8} (ha : a < 0x80) (before after : List Token) :
    readTokens (before ++ ((Piece.byte a).tokens ++ after)) = readTokens before ++ a :: readTokens after := by
  have hfirst : readTokens ((Piece.byte a).tokens ++ after) = a :: readTokens after := by
    simp only [Piece.tokens]
    split_ifs
    · rw [List.singleton_append, readTokens_unit (isHighSurrogate_ascii ha), appendUtf8_ascii ha, List.singleton_append]
    · rfl
  induction before using readTokens.induct with
  | case1 => exact hfirst
  | case2 b before ih =>
    rw [List.cons_append, readTokens, ih, readTokens]
    rfl
  | case3 u low before hhigh ih =>
    rw [List.cons_append, List.cons_append, readTokens, if_pos hhigh, ih, readTokens, if_pos hhigh, List.append_assoc]
  | case4 u low before hhigh ih =>
    rw [List.cons_append, readTokens_unit (Bool.eq_false_iff.mpr hhigh), ih,
      readTokens_unit (Bool.eq_false_iff.mpr hhigh), List.append_assoc]
  | case5 u before hnext ih =>
    cases before with
    | cons t before =>
      cases t with
      | unit low => exact absurd rfl (hnext low before)
      | raw b =>
        rw [List.cons_append, readTokens.eq_4 _ _ (by simp), ih, readTokens.eq_4 _ _ hnext, List.append_assoc]
    | nil =>
      have hlow : isLowSurrogate a.toNat = false := by
        have hlt : a.toNat < 0x80 := UInt8.lt_iff_toNat_lt.mp ha
        have hnot : ¬ 0xDC00 ≤ a.toNat := by omega
        simp [isLowSurrogate, hnot]
      by_cases hhigh : isHighSurrogate u = true
      · simp only [Piece.tokens]
        split_ifs
        · -- a control character is written as a code unit, and read together with the surrogate
          simp [readTokens, hhigh, afterHigh, hlow, appendUtf8_ascii ha]
        · simp [readTokens]
      · rw [List.singleton_append, readTokens_unit (Bool.eq_false_iff.mpr hhigh), hfirst,
          readTokens_unit (Bool.eq_false_iff.mpr hhigh), List.append_assoc]
        rfl

end Tokens

section Literal

theorem continued_lt {bits codePoint : ℕ} {tail : Bytes} (h : continued bits tail = some codePoint) :
    codePoint < (bits + 1) * 64 ^ tail.length := by
  induction tail generalizing bits with
  | nil =>
    cases h
    simp
  | cons c tail ih =>
    rw [continued] at h
    split_ifs at h
    have hlt := ih h
    have hbits : (c &&& 0x3F).toNat < 64 := by
      rw [UInt8.toNat_and]
      exact lt_of_le_of_lt Nat.and_le_right (by decide)
    have hshift : bits <<< 6 ||| (c &&& 0x3F).toNat = bits * 64 + (c &&& 0x3F).toNat := shift_or bits _ (k := 6) hbits
    rw [hshift] at hlt
    rw [List.length_cons, pow_succ']
    calc codePoint < (bits * 64 + (c &&& 0x3F).toNat + 1) * 64 ^ tail.length := hlt
      _ ≤ ((bits + 1) * 64) * 64 ^ tail.length := Nat.mul_le_mul_right _ (by omega)
      _ = (bits + 1) * (64 * 64 ^ tail.length) := Nat.mul_assoc _ _ _

theorem leadByte_bounds {c : UInt8} {bits extra : ℕ} (h : leadByte c = some (bits, extra)) :
    0x80 ≤ c ∧ c &&& 0xC0 ≠ 0x80 ∧ (bits + 1) * 64 ^ extra ≤ 0x200000 := by
  have hall : ∀ n : Fin 256, ∀ lead ∈ leadByte (UInt8.ofNat n.val), 0x80 ≤ UInt8.ofNat n.val ∧
      UInt8.ofNat n.val &&& 0xC0 ≠ 0x80 ∧ (lead.1 + 1) * 64 ^ lead.2 ≤ 0x200000 := by decide +kernel
  have hlead := hall ⟨c.toNat, c.toNat_lt⟩ (bits, extra)
  rw [UInt8.ofNat_toNat] at hlead
  exact hlead h

theorem HasSequence.lt {text : Bytes} {codePoint : ℕ} (h : HasSequence text codePoint) : codePoint < 0x200000 := by
  obtain ⟨before, c, rest, bits, extra, -, hlead, hlength, hcont⟩ := h
  have hlt := continued_lt hcont
  rw [List.length_take, Nat.min_eq_left hlength] at hlt
  exact hlt.trans_le (leadByte_bounds hlead).2.2

theorem Piece.valid_tokens {piece : Piece} (h : (∃ c, c < 0x80 ∧ piece = .byte c) ∨ piece = replacement ∨
    ∃ codePoint < 0x200000, piece = .escaped codePoint) : ∀ t ∈ piece.tokens, t.Valid := by
  have hescaped : ∀ codePoint < 0x200000, ∀ t ∈ (Piece.escaped codePoint).tokens, t.Valid := by
    intro codePoint hlt t ht
    simp only [Piece.tokens] at ht
    split_ifs at ht with hlow
    · rw [List.mem_singleton.mp ht]
      exact hlow
    · have hshift : (codePoint - 0x10000) >>> 10 < 0x7C0 := by
        rw [Nat.shiftRight_eq_div_pow]
        omega
      have hand : (codePoint - 0x10000) &&& 0x3FF ≤ 0x3FF := Nat.and_le_right
      rcases List.mem_pair.mp ht with rfl | rfl <;> simp only [Token.Valid] <;> omega
  rcases h with ⟨c, -, rfl⟩ | rfl | ⟨codePoint, hlt, rfl⟩
  · intro t ht
    have hlt := c.toNat_lt
    simp only [Piece.tokens] at ht
    split_ifs at ht with hcontrol
    · rw [List.mem_singleton.mp ht]
      simp only [Token.Valid]
      omega
    · rw [List.mem_singleton.mp ht]
      exact Bool.eq_false_iff.mpr hcontrol
  · exact hescaped _ (by decide)
  · exact hescaped _ hlt

/-- What a string is written as, in the units the parser reads. -/
def tokens (s : Bytes) : List Token := (pieces true 0 s).flatMap Piece.tokens

theorem valid_of_mem_tokens {s : Bytes} : ∀ t ∈ tokens s, t.Valid := by
  intro t ht
  obtain ⟨piece, hpiece, ht⟩ := List.mem_flatMap.mp ht
  refine Piece.valid_tokens ?_ t ht
  rcases mem_pieces hpiece with hbyte | hreplaced | ⟨codePoint, hsequence, rfl⟩
  · exact Or.inl hbyte
  · exact Or.inr (Or.inl hreplaced)
  · exact Or.inr (Or.inr ⟨codePoint, hsequence.lt, rfl⟩)

/-- Every literal in ASCII only is read without an error. -/
theorem parse_writeString (s : Bytes) : parse (writeString true s) = (.string (readTokens (tokens s)), []) := by
  have htext : writeString true s = quote :: ((tokens s).flatMap Token.text ++ [quote]) := by
    rw [writeString, flatMap_text, tokens, List.cons_append]
  have hread := parseCharacters_tokens (tokens s) valid_of_mem_tokens [] []
  have hstring : Parser.parseString (writeString true s) = .ok (readTokens (tokens s), []) := by
    rw [htext, Parser.parseString, if_neg (by simp), List.tail_cons, hread, List.nil_append]
  have hvalue : Parser.parseValue 64 (writeString true s) = .ok (.string (readTokens (tokens s)), []) := by
    have hstart := Grammar.parseValue_start 63 Grammar.noBlank (c := quote) (by decide)
      ((tokens s).flatMap Token.text ++ [quote])
    rw [← htext] at hstart
    refine hstart.trans ?_
    have hstarting : ∀ pv more, parseStarting pv quote more =
        (Parser.parseString (quote :: more)).map fun read => (.string read.1, read.2) := fun pv more => rfl
    rw [hstarting, ← htext, hstring]
    rfl
  rw [Json.parse, hvalue]
  rfl

end Literal

section Survival

/-- What a string is read back as, from the literal it is written as. -/
def restored (s : Bytes) : Bytes := (parse (writeString true s)).1.toString []

theorem restored_eq (s : Bytes) : restored s = readTokens (tokens s) := by
  rw [restored, parse_writeString]
  rfl

def asciiOf (s : Bytes) : Bytes := s.filter (· < 0x80)

/-- The bytes of ASCII are read back in order, and each has its own place in the result:
whichever of them stands there in the string stands there in what is read. -/
structure AsciiKept (s : Bytes) : Prop where
  read : parse (writeString true s) = (.string (restored s), [])
  inOrder : (asciiOf s).Sublist (restored s)
  inPlace : ∀ before a after, s = before ++ a :: after → a < 0x80 →
    ∃ x y, ∀ b < 0x80, restored (before ++ b :: after) = x ++ b :: y

/-- No byte of ASCII follows a lead byte whose sequence the end of the string cuts short. -/
def Intact (s : Bytes) : Prop :=
  ∀ before c after bits extra, s = before ++ c :: after → leadByte c = some (bits, extra) → after.length < extra →
    ∀ b ∈ after, 0x80 ≤ b

theorem Intact.suffix {before s : Bytes} (h : Intact (before ++ s)) : Intact s := by
  rintro before' c after bits extra rfl
  exact h (before ++ before') c after bits extra (List.append_assoc _ _ _).symm

theorem continued_none {x : UInt8} {text : Bytes} (hx : x &&& 0xC0 ≠ 0x80) (hmem : x ∈ text) (bits : ℕ) :
    continued bits text = none := by
  induction text generalizing bits with
  | nil => cases hmem
  | cons c text ih =>
    rw [continued]
    split_ifs with hc
    · rcases List.mem_cons.mp hmem with rfl | hmem
      · exact absurd hc hx
      · exact ih hmem _
    · rfl

theorem not_continuation {a : UInt8} (ha : a < 0x80) : a &&& 0xC0 ≠ 0x80 := by
  have hall : ∀ n : Fin 128, UInt8.ofNat n.val &&& 0xC0 ≠ 0x80 := by decide
  have hlt : a.toNat < 128 := UInt8.lt_iff_toNat_lt.mp ha
  have hne := hall ⟨a.toNat, hlt⟩
  rwa [UInt8.ofNat_toNat] at hne

/-- One turn of the loop at a lead byte: the end of the string is too near, the bytes that
follow are not all continuation bytes, or the sequence is decoded. -/
theorem pieces_short {c : UInt8} {bits extra : ℕ} (hlead : leadByte c = some (bits, extra)) {rest : Bytes}
    (hshort : rest.length < extra) : pieces true 0 (c :: rest) = [replacement] := by
  simp only [pieces, (leadByte_bounds hlead).1, and_self, if_true, hlead, if_pos hshort]

theorem pieces_bad {c : UInt8} {bits extra : ℕ} (hlead : leadByte c = some (bits, extra)) {rest : Bytes}
    (hlong : ¬ rest.length < extra) (hcont : continued bits (rest.take extra) = none) :
    pieces true 0 (c :: rest) = replacement :: pieces true 0 rest := by
  simp only [pieces, (leadByte_bounds hlead).1, and_self, if_true, hlead, if_neg hlong, hcont]

theorem pieces_sequence {c : UInt8} {bits extra codePoint : ℕ} (hlead : leadByte c = some (bits, extra)) {rest : Bytes}
    (hlong : ¬ rest.length < extra) (hcont : continued bits (rest.take extra) = some codePoint) :
    pieces true 0 (c :: rest) = .escaped codePoint :: pieces true extra rest := by
  simp only [pieces, (leadByte_bounds hlead).1, and_self, if_true, hlead, if_neg hlong, hcont]

theorem pieces_stray {c : UInt8} (hc : 0x80 ≤ c) (hlead : leadByte c = none) (rest : Bytes) :
    pieces true 0 (c :: rest) = replacement :: pieces true 0 rest := by
  rw [pieces, if_pos ⟨rfl, hc⟩, hlead]

theorem pieces_ascii {c : UInt8} (hc : c < 0x80) (rest : Bytes) :
    pieces true 0 (c :: rest) = .byte c :: pieces true 0 rest := by
  rw [pieces, if_neg fun h => absurd hc (UInt8.not_lt.mpr h.2)]

theorem mem_take {b : UInt8} {n : ℕ} {before : Bytes} (h : before.length < n) (after : Bytes) :
    b ∈ (before ++ b :: after).take n := by
  obtain ⟨k, rfl⟩ := Nat.exists_eq_add_of_lt h
  rw [List.take_append, List.take_of_length_le (by omega), List.mem_append]
  have hpos : before.length + k + 1 - before.length = k + 1 := by omega
  rw [hpos, List.take_succ_cons]
  exact Or.inr List.mem_cons_self

/-- A byte of ASCII that no cut sequence precedes is put out, and the loop goes on after it. -/
theorem pieces_split {before after : Bytes}
    (hroom : ∀ start c more bits extra, before = start ++ c :: more → leadByte c = some (bits, extra) →
      extra ≤ more.length + 1 + after.length) {skip : ℕ} (hskip : skip ≤ before.length) :
    ∃ ps, ∀ b < 0x80, pieces true skip (before ++ b :: after) = ps ++ .byte b :: pieces true 0 after := by
  induction before generalizing skip with
  | nil =>
    obtain rfl : skip = 0 := Nat.le_zero.mp hskip
    exact ⟨[], fun b hb => pieces_ascii hb after⟩
  | cons c before ih =>
    have hrec : ∀ {skip}, skip ≤ before.length →
        ∃ ps, ∀ b < 0x80, pieces true skip (before ++ b :: after) = ps ++ .byte b :: pieces true 0 after :=
      fun hle => ih (fun start d more bits extra he =>
        hroom (c :: start) d more bits extra (congrArg (List.cons c) he)) hle
    cases skip with
    | succ skip => exact hrec (Nat.le_of_succ_le_succ hskip)
    | zero =>
      obtain ⟨ps, hps⟩ := hrec (Nat.zero_le _)
      by_cases hlow : c < 0x80
      · exact ⟨.byte c :: ps, fun b hb => by rw [List.cons_append, pieces_ascii hlow, hps b hb, List.cons_append]⟩
      have hhigh : 0x80 ≤ c := UInt8.not_lt.mp hlow
      cases hlead : leadByte c with
      | none =>
        exact ⟨replacement :: ps, fun b hb => by
          rw [List.cons_append, pieces_stray hhigh hlead, hps b hb, List.cons_append]⟩
      | some lead =>
        obtain ⟨bits, extra⟩ := lead
        have hextra := hroom [] c before bits extra rfl hlead
        have hlength : ∀ b, ¬ (before ++ b :: after).length < extra := by
          intro b
          rw [List.length_append, List.length_cons]
          omega
        rcases le_or_gt extra before.length with hle | hgt
        · -- the sequence ends before the byte
          have htake : ∀ b, (before ++ b :: after).take extra = before.take extra :=
            fun b => List.take_append_of_le_length hle
          cases hcont : continued bits (before.take extra) with
          | none =>
            refine ⟨replacement :: ps, fun b hb => ?_⟩
            rw [List.cons_append, pieces_bad hlead (hlength b) (by rw [htake, hcont])]
            exact congrArg _ (hps b hb)
          | some codePoint =>
            obtain ⟨ps', hps'⟩ := hrec hle
            refine ⟨.escaped codePoint :: ps', fun b hb => ?_⟩
            rw [List.cons_append, pieces_sequence hlead (hlength b) (by rw [htake, hcont])]
            exact congrArg _ (hps' b hb)
        · -- the byte is no continuation byte
          refine ⟨replacement :: ps, fun b hb => ?_⟩
          have hbad := continued_none (not_continuation hb) (mem_take hgt after) bits
          rw [List.cons_append, pieces_bad hlead (hlength b) hbad]
          exact congrArg _ (hps b hb)

/-- What follows a lead byte whose sequence is cut short does not matter. -/
theorem pieces_cut {c : UInt8} {bits extra : ℕ} (hlead : leadByte c = some (bits, extra)) {tail tail' : Bytes}
    (hcut : tail.length < extra) (hlength : tail'.length = tail.length) (before : Bytes) {skip : ℕ}
    (hskip : skip ≤ before.length) :
    pieces true skip (before ++ c :: tail) = pieces true skip (before ++ c :: tail') := by
  have hmark := (leadByte_bounds hlead).2.1
  induction before generalizing skip with
  | nil =>
    obtain rfl : skip = 0 := Nat.le_zero.mp hskip
    rw [List.nil_append, List.nil_append, pieces_short hlead hcut, pieces_short hlead (hlength ▸ hcut)]
  | cons d before ih =>
    cases skip with
    | succ skip => exact ih (Nat.le_of_succ_le_succ hskip)
    | zero =>
      have hrest := ih (Nat.zero_le _)
      by_cases hlow : d < 0x80
      · rw [List.cons_append, List.cons_append, pieces_ascii hlow, pieces_ascii hlow, hrest]
      have hhigh' : 0x80 ≤ d := UInt8.not_lt.mp hlow
      cases hlead' : leadByte d with
      | none => rw [List.cons_append, List.cons_append, pieces_stray hhigh' hlead', pieces_stray hhigh' hlead', hrest]
      | some lead =>
        obtain ⟨bits', extra'⟩ := lead
        have hlen : (before ++ c :: tail').length = (before ++ c :: tail).length := by
          simp [hlength]
        rw [List.cons_append, List.cons_append]
        by_cases hshort : (before ++ c :: tail).length < extra'
        · rw [pieces_short hlead' hshort, pieces_short hlead' (hlen ▸ hshort)]
        have hshort' : ¬ (before ++ c :: tail').length < extra' := hlen ▸ hshort
        rcases le_or_gt extra' before.length with hle | hgt
        · have htake : ∀ tail, (before ++ c :: tail).take extra' = before.take extra' := fun tail =>
            List.take_append_of_le_length hle
          cases hcont : continued bits' (before.take extra') with
          | none =>
            rw [pieces_bad hlead' hshort (by rw [htake, hcont]), pieces_bad hlead' hshort' (by rw [htake, hcont]),
              hrest]
          | some codePoint =>
            rw [pieces_sequence hlead' hshort (by rw [htake, hcont]),
              pieces_sequence hlead' hshort' (by rw [htake, hcont]), ih hle]
        · rw [pieces_bad hlead' hshort (continued_none hmark (mem_take hgt tail) bits'),
            pieces_bad hlead' hshort' (continued_none hmark (mem_take hgt tail') bits'), hrest]

theorem Intact.room {before after : Bytes} {a : UInt8} (h : Intact (before ++ a :: after)) (ha : a < 0x80) :
    ∀ start c more bits extra, before = start ++ c :: more → leadByte c = some (bits, extra) →
      extra ≤ more.length + 1 + after.length := by
  rintro start c more bits extra rfl hlead
  by_contra hcut
  have hle := h start c (more ++ a :: after) bits extra (by simp) hlead (by simp; omega) a (by simp)
  exact absurd ha (UInt8.not_lt.mpr hle)

/-- What is read back before a byte of ASCII does not depend on it, what is read back after it
depends on nothing before it. -/
theorem restored_split {before after : Bytes}
    (hroom : ∀ start c more bits extra, before = start ++ c :: more → leadByte c = some (bits, extra) →
      extra ≤ more.length + 1 + after.length) :
    ∃ x, ∀ b < 0x80, restored (before ++ b :: after) = x ++ b :: restored after := by
  obtain ⟨ps, hps⟩ := pieces_split hroom (Nat.zero_le _)
  refine ⟨readTokens (ps.flatMap Piece.tokens), fun b hb => ?_⟩
  have htokens : tokens (before ++ b :: after) =
      ps.flatMap Piece.tokens ++ ((Piece.byte b).tokens ++ tokens after) := by
    rw [tokens, hps b hb, List.flatMap_append, List.flatMap_cons, tokens]
  rw [restored_eq, restored_eq, htokens, readTokens_ascii hb]

theorem Intact.inOrder {s : Bytes} (h : Intact s) : (asciiOf s).Sublist (restored s) := by
  induction hn : s.length using Nat.strongRecOn generalizing s with
  | ind n ih =>
    cases hfilter : asciiOf s with
    | nil => exact List.nil_sublist _
    | cons a rest =>
      obtain ⟨before, after, rfl, -, ha, hrest⟩ := List.filter_eq_cons_iff.mp hfilter
      have hascii : a < 0x80 := of_decide_eq_true ha
      obtain ⟨x, hx⟩ := restored_split (h.room hascii)
      have hafter : Intact after := by
        have hsuffix : Intact ((before ++ [a]) ++ after) := by simpa using h
        exact hsuffix.suffix
      have hlt : after.length < n := by
        rw [← hn, List.length_append, List.length_cons]
        omega
      have hsub := ih after.length hlt hafter rfl
      rw [hx a hascii]
      rw [asciiOf, hrest] at hsub
      exact (hsub.cons_cons a).trans (List.sublist_append_right x _)

theorem AsciiKept.intact {s : Bytes} (h : AsciiKept s) : Intact s := by
  rintro before c after bits extra rfl hlead hcut b hb
  by_contra hlow
  obtain ⟨start, rest, rfl⟩ := List.append_of_mem hb
  obtain ⟨x, y, hxy⟩ := h.inPlace (before ++ c :: start) b rest (by simp) (UInt8.not_le.mp hlow)
  have hsame : ∀ b', restored ((before ++ c :: start) ++ b' :: rest) =
      restored (before ++ c :: (start ++ b :: rest)) := by
    intro b'
    have hlength : (start ++ b' :: rest).length = (start ++ b :: rest).length := by simp
    have hcut' := pieces_cut hlead hcut hlength before (Nat.zero_le _)
    rw [restored_eq, restored_eq, tokens, tokens, hcut', List.append_assoc, List.cons_append]
  have hdiffer := (hxy 0x41 (by decide)).symm.trans
    ((hsame 0x41).trans ((hsame 0x42).symm.trans (hxy 0x42 (by decide))))
  exact absurd (List.cons.inj (List.append_cancel_left hdiffer)).1 (by decide)

end Survival

section Counting

/-- The bytes that are put out as they are. -/
def putOut (ps : List Piece) : Bytes :=
  ps.flatMap fun piece =>
    match piece with
    | .byte c => [c]
    | .escaped _ => []

theorem putOut_sublist (skip : ℕ) (s : Bytes) : (putOut (pieces true skip s)).Sublist (asciiOf s) := by
  induction s generalizing skip with
  | nil => simp [pieces, putOut]
  | cons c rest ih =>
    have hrest : ∀ skip, (putOut (pieces true skip rest)).Sublist (asciiOf (c :: rest)) := fun skip =>
      (ih skip).trans ((List.sublist_cons_self c rest).filter _)
    cases skip with
    | succ skip => exact hrest skip
    | zero =>
      by_cases hlow : c < 0x80
      · have hascii : asciiOf (c :: rest) = c :: asciiOf rest := List.filter_cons_of_pos (decide_eq_true hlow)
        rw [pieces_ascii hlow, hascii]
        exact (ih 0).cons_cons c
      have hhigh : 0x80 ≤ c := UInt8.not_lt.mp hlow
      cases hlead : leadByte c with
      | none =>
        rw [pieces_stray hhigh hlead]
        exact hrest 0
      | some lead =>
        by_cases hshort : rest.length < lead.2
        · rw [pieces_short hlead hshort]
          exact List.nil_sublist _
        cases hcont : continued lead.1 (rest.take lead.2) with
        | none =>
          rw [pieces_bad hlead hshort hcont]
          exact hrest 0
        | some codePoint =>
          rw [pieces_sequence hlead hshort hcont]
          exact hrest lead.2

theorem asciiOf_append (a b : Bytes) : asciiOf (a ++ b) = asciiOf a ++ asciiOf b := List.filter_append ..

theorem asciiOf_eq_nil {s : Bytes} (h : ∀ b ∈ s, 0x80 ≤ b) : asciiOf s = [] := by
  refine List.filter_eq_nil_iff.mpr fun b hb => ?_
  simpa using h b hb

/-- The bytes of ASCII among those that a unit is read as. -/
def Token.ascii : Token → Bytes
  | raw b => asciiOf [b]
  | unit u => asciiOf (appendUtf8 u)

theorem asciiOf_appendUtf8 {u : ℕ} (h : 0x80 ≤ u) (hlt : u < 0x200000) : asciiOf (appendUtf8 u) = [] :=
  asciiOf_eq_nil fun _ hb => le_of_mem_appendUtf8 h hlt hb

theorem asciiOf_afterHigh {u low : ℕ} (h : isHighSurrogate u = true) :
    asciiOf (afterHigh u low) = asciiOf (appendUtf8 u) ++ asciiOf (appendUtf8 low) := by
  simp only [isHighSurrogate, Bool.and_eq_true, decide_eq_true_eq] at h
  unfold afterHigh
  split_ifs with hlow
  · simp only [isLowSurrogate, Bool.and_eq_true, decide_eq_true_eq] at hlow
    have hshift : (u - 0xD800) <<< 10 = (u - 0xD800) * 1024 := Nat.shiftLeft_eq _ _
    rw [asciiOf_appendUtf8 (by omega) (by omega), asciiOf_appendUtf8 (u := u) (by omega) (by omega),
      asciiOf_appendUtf8 (u := low) (by omega) (by omega)]
    rfl
  · exact asciiOf_append _ _

theorem asciiOf_readTokens (tokens : List Token) : asciiOf (readTokens tokens) = tokens.flatMap Token.ascii := by
  induction tokens using readTokens.induct with
  | case1 => rfl
  | case2 b tokens ih =>
    rw [readTokens, List.flatMap_cons, ← ih, Token.ascii, ← asciiOf_append]
    rfl
  | case3 u low tokens hhigh ih =>
    rw [readTokens, if_pos hhigh, asciiOf_append, ih, asciiOf_afterHigh hhigh, List.flatMap_cons, List.flatMap_cons,
      List.append_assoc]
    rfl
  | case4 u low tokens hhigh ih =>
    rw [readTokens_unit (Bool.eq_false_iff.mpr hhigh), asciiOf_append, ih, List.flatMap_cons]
    rfl
  | case5 u tokens hnext ih =>
    rw [readTokens.eq_4 _ _ hnext, asciiOf_append, ih, List.flatMap_cons]
    rfl

/-- No sequence of the string is an overlong form of a character of ASCII. -/
def NoOverlong (s : Bytes) : Prop := ∀ codePoint, HasSequence s codePoint → 0x80 ≤ codePoint

theorem ascii_escaped {codePoint : ℕ} (h : 0x80 ≤ codePoint) (hlt : codePoint < 0x200000) :
    (Piece.escaped codePoint).tokens.flatMap Token.ascii = [] := by
  have hshift : (codePoint - 0x10000) >>> 10 < 0x7C0 := by
    rw [Nat.shiftRight_eq_div_pow]
    omega
  have hand : (codePoint - 0x10000) &&& 0x3FF ≤ 0x3FF := Nat.and_le_right
  simp only [Piece.tokens]
  split_ifs with hlow
  · rw [List.flatMap_singleton, Token.ascii, asciiOf_appendUtf8 h hlt]
  · rw [List.flatMap_cons, List.flatMap_singleton, Token.ascii, Token.ascii, asciiOf_appendUtf8 (by omega) (by omega),
      asciiOf_appendUtf8 (by omega) (by omega)]
    rfl

theorem ascii_byte {c : UInt8} (hc : c < 0x80) : (Piece.byte c).tokens.flatMap Token.ascii = [c] := by
  have hone : asciiOf [c] = [c] := List.filter_cons_of_pos (decide_eq_true hc)
  simp only [Piece.tokens]
  split_ifs
  · rw [List.flatMap_singleton, Token.ascii, appendUtf8_ascii hc, hone]
  · rw [List.flatMap_singleton, Token.ascii, hone]

theorem asciiOf_restored {s : Bytes} (h : NoOverlong s) : asciiOf (restored s) = putOut (pieces true 0 s) := by
  rw [restored_eq, asciiOf_readTokens, tokens, List.flatMap_assoc, putOut]
  refine List.flatMap_congr fun piece hpiece => ?_
  rcases mem_pieces hpiece with ⟨c, hc, rfl⟩ | rfl | ⟨codePoint, hsequence, rfl⟩
  · exact ascii_byte hc
  · exact ascii_escaped (by decide) (by decide)
  · exact ascii_escaped (h codePoint hsequence) hsequence.lt

theorem intact_of_sublist {s : Bytes} (hoverlong : NoOverlong s) (h : (asciiOf s).Sublist (restored s)) : Intact s := by
  rintro before c after bits extra rfl hlead hcut b hb
  by_contra hlow
  have hlength : (List.replicate after.length (0x80 : UInt8)).length = after.length := List.length_replicate
  have hsame := pieces_cut hlead hcut hlength before (Nat.zero_le _)
  have hput := putOut_sublist 0 (before ++ c :: List.replicate after.length 0x80)
  have hhigh : asciiOf (c :: List.replicate after.length 0x80) = [] := by
    refine asciiOf_eq_nil fun d hd => ?_
    rcases List.mem_cons.mp hd with rfl | hd
    · exact (leadByte_bounds hlead).1
    · rw [List.eq_of_mem_replicate hd]
      exact UInt8.le_refl _
  rw [← hsame, ← asciiOf_restored hoverlong, asciiOf_append, hhigh, List.append_nil] at hput
  have hfilter := h.filter (· < 0x80)
  have hidem : (asciiOf (before ++ c :: after)).filter (· < 0x80) = asciiOf (before ++ c :: after) := by
    simp [asciiOf]
  have hle := (hidem ▸ hfilter).length_le.trans hput.length_le
  have hpos : 0 < (asciiOf (c :: after)).length :=
    List.length_pos_of_mem (List.mem_filter.mpr ⟨List.mem_cons_of_mem _ hb, decide_eq_true (UInt8.not_le.mp hlow)⟩)
  rw [asciiOf_append, List.length_append] at hle
  omega

end Counting

/-- Bytes of ASCII are kept exactly where none follows a lead byte that the end of the string
cuts short. Strings without overlong forms keep them in order only there, too. -/
theorem ascii_kept_iff (s : Bytes) :
    (AsciiKept s ↔ Intact s) ∧ (NoOverlong s → (asciiOf s).Sublist (restored s) → Intact s) := by
  refine ⟨⟨AsciiKept.intact, fun h => ⟨?_, h.inOrder, ?_⟩⟩, intact_of_sublist⟩
  · rw [restored_eq]
    exact parse_writeString s
  · rintro before a after rfl ha
    obtain ⟨x, hx⟩ := restored_split (h.room ha)
    exact ⟨x, restored after, hx⟩

/-- A lead byte at the very end loses nothing. -/
theorem ascii_kept_iff_end : AsciiKept [0x41, 0xc3] ∧ Intact [0x41, 0xc3] := by
  have hlast : ∀ before c after, [0x41, 0xc3] = before ++ c :: after → leadByte c ≠ none → after = [] := by
    intro before c after he hlead
    cases before with
    | nil =>
      obtain ⟨rfl, -⟩ := List.cons.inj he
      exact absurd (by decide) hlead
    | cons a before =>
      have htail := (List.cons.inj he).2
      cases before with
      | nil => exact (List.cons.inj htail).2.symm
      | cons b before => simp at htail
  have hintact : Intact [0x41, 0xc3] := by
    intro before c after bits extra he hlead _ b hb
    rw [hlast before c after he (by simp [hlead])] at hb
    cases hb
  have hoverlong : NoOverlong [0x41, 0xc3] := by
    rintro codePoint ⟨before, c, after, bits, extra, he, hlead, hlength, hcont⟩
    obtain rfl := hlast before c after he (by simp [hlead])
    obtain rfl : extra = 0 := Nat.le_zero.mp hlength
    have hall : ∀ n : Fin 256, ∀ lead ∈ leadByte (UInt8.ofNat n.val), lead.2 ≠ 0 := by decide +kernel
    have hne := hall ⟨c.toNat, c.toNat_lt⟩ (bits, 0)
    rw [UInt8.ofNat_toNat] at hne
    exact absurd rfl (hne hlead)
  have hkept := (ascii_kept_iff _).1.mpr hintact
  exact ⟨hkept, (ascii_kept_iff _).2 hoverlong hkept.inOrder⟩

/-- The letter after the first byte of a sequence of three is lost with it. -/
theorem cut_short_loses_ascii :
    ¬ ∃ t, parse (writeString true [0xe2, 0x41]) = (.string t, []) ∧ (asciiOf [0xe2, 0x41]).Sublist t := by
  rintro ⟨t, hparse, hsublist⟩
  rw [parse_writeString, Prod.mk.injEq, Json.string.injEq] at hparse
  rw [← hparse.1] at hsublist
  exact absurd hsublist (by decide)

end NetworkHealth.Daemon.Json
