import NetworkHealth.Daemon.JsonTokens

/-! The parser accepts all of JSON. Every text that the grammar derives with at most 64 levels
of nesting is read as the value it denotes, and what follows an array or an object other than
blanks is an error. -/
namespace NetworkHealth.Daemon.Json.Grammar
open NetworkHealth.Daemon.Json.Parser
open CNumber (byte Stops)

section LastWins

theorem nodup_eraseDups (keys : List Bytes) : keys.eraseDups.Nodup := by
  induction keys using List.reverseRecOn with
  | nil => simp
  | append_singleton keys key ih =>
    rw [List.eraseDups_append]
    by_cases hmem : key ∈ keys
    · have hnone : [key].removeAll keys = [] := by simp [List.removeAll, hmem]
      rw [hnone, List.eraseDups_nil, List.append_nil]
      exact ih
    · have hone : [key].removeAll keys = [key] := by simp [List.removeAll, hmem]
      have hdisjoint : List.Disjoint keys.eraseDups [key] := by simpa using hmem
      rw [hone, List.eraseDups_cons]
      simpa using ih.append (List.nodup_singleton key) hdisjoint

/-- Setting a member among members of different names. -/
theorem setMember_map (key : Bytes) (value : Json) (f : Bytes → Json) {keys : List Bytes} (h : keys.Nodup) :
    setMember key value (keys.map fun k => (k, f k)) =
      if key ∈ keys then keys.map fun k => (k, if k = key then value else f k)
      else keys.map (fun k => (k, f k)) ++ [(key, value)] := by
  induction keys with
  | nil => rfl
  | cons k keys ih =>
    obtain ⟨hnot, hnodup⟩ := List.nodup_cons.mp h
    simp only [List.map_cons, setMember]
    by_cases hk : k = key
    · subst hk
      have hrest : keys.map (fun k' => (k', if k' = k then value else f k')) = keys.map fun k' => (k', f k') := by
        apply List.map_congr_left
        intro k' hk'
        rw [if_neg (fun he : k' = k => hnot (he ▸ hk'))]
      simp [hrest]
    · rw [if_neg hk, ih hnodup]
      have hne : key ≠ k := Ne.symm hk
      by_cases hmem : key ∈ keys <;> simp [hmem, hk, hne]

theorem lastWins_append (members : List (Bytes × Json)) (key : Bytes) (value : Json) :
    Tree.lastWins (members ++ [(key, value)]) = setMember key value (Tree.lastWins members) := by
  have hset := setMember_map key value (fun k => (members.reverse.lookup k).getD .null)
    (nodup_eraseDups (members.map Prod.fst))
  rw [Tree.lastWins, Tree.lastWins, hset]
  have hlookup : ∀ k, ((members ++ [(key, value)]).reverse.lookup k).getD .null =
      if k = key then value else (members.reverse.lookup k).getD .null := by
    intro k
    rw [List.reverse_append, List.reverse_singleton, List.singleton_append, lookup_cons_ite]
    split_ifs <;> rfl
  simp only [hlookup, List.map_append, List.map_cons, List.map_nil, List.eraseDups_append, List.mem_eraseDups]
  by_cases hmem : key ∈ members.map Prod.fst
  · have hnone : [key].removeAll (members.map Prod.fst) = [] := by simp [List.removeAll, hmem]
    rw [if_pos hmem, hnone, List.eraseDups_nil, List.map_nil, List.append_nil]
  · have hone : [key].removeAll (members.map Prod.fst) = [key] := by simp [List.removeAll, hmem]
    rw [if_neg hmem, hone, List.eraseDups_cons, List.filter_nil, List.eraseDups_nil]
    congr 1
    · apply List.map_congr_left
      intro k hk
      rw [List.mem_eraseDups] at hk
      rw [if_neg (fun he : k = key => hmem (he ▸ hk))]
    · simp

/-- Setting the members of an object one after the other leaves the last of each name. -/
theorem foldl_setMember (members : List (Bytes × Json)) :
    members.foldl (fun found m => setMember m.1 m.2 found) [] = Tree.lastWins members := by
  induction members using List.reverseRecOn with
  | nil => rfl
  | append_singleton members member ih =>
    rw [List.foldl_append, ih, List.foldl_cons, List.foldl_nil, lastWins_append]

theorem foldl_set (members found : List (Bytes × Json)) :
    members.foldl (fun (out : Json) m => out.set m.1 m.2) (Json.object found) =
      Json.object (members.foldl (fun found m => setMember m.1 m.2 found) found) := by
  induction members generalizing found with
  | nil => rfl
  | cons member members ih => exact ih _

end LastWins

section Containers

theorem separator_comma {closing : UInt8} {unterminated expected : String} (out : Json) (blank : Blank)
    (rest : Bytes) :
    separator closing unterminated expected out (blank.val ++ byte ',' :: rest) = .ok (.next (out, rest)) := by
  have hcomma : isWhitespace (byte ',') = false := by decide
  simp only [separator, skipWhitespace_blank, skipWhitespace_cons hcomma, if_true]

theorem separator_closing {closing : UInt8} {unterminated expected : String} (hcomma : closing ≠ byte ',')
    (hblank : isWhitespace closing = false) (out : Json) (blank : Blank) (rest : Bytes) :
    separator closing unterminated expected out (blank.val ++ closing :: rest) = .ok (.done (out, rest)) := by
  simp only [separator, skipWhitespace_blank, skipWhitespace_cons hblank, if_neg hcomma, if_true]

/-- A loop over items with commas between them, up to what closes it. -/
theorem loop_items {α : Type} {round : Json × Bytes → Except Failure (Round (Json × Bytes))}
    (hshrinks : Shrinks round left) {text : α → Bytes} {put : Json → α → Json} {closing rest : Bytes} {items : List α} (hne : items ≠ [])
    (hnext : ∀ item ∈ items, ∀ out more, round (out, text item ++ byte ',' :: more) = .ok (.next (put out item, more)))
    (hdone : ∀ item ∈ items, ∀ out, round (out, text item ++ closing) = .ok (.done (put out item, rest))) (out : Json) :
    NetworkHealth.loop round exhausted left (out, [byte ','].intercalate (items.map text) ++ closing) =
      .ok (items.foldl put out, rest) := by
  induction items generalizing out with
  | nil => exact absurd rfl hne
  | cons item items ih =>
    cases items with
    | nil =>
      have hlast := hdone item List.mem_cons_self out
      rw [List.map_singleton, List.intercalate_singleton]
      exact loop_done hlast
    | cons item' items =>
      have hfirst := hnext item List.mem_cons_self out ([byte ','].intercalate ((item' :: items).map text) ++ closing)
      have hjoin : [byte ','].intercalate ((item :: item' :: items).map text) ++ closing =
          text item ++ byte ',' :: ([byte ','].intercalate ((item' :: items).map text) ++ closing) := by
        rw [List.map_cons, List.map_cons, List.intercalate_cons_cons, List.append_assoc, List.append_assoc,
          List.singleton_append]
      rw [hjoin, loop_next hshrinks hfirst]
      exact ih (List.cons_ne_nil _ _) (fun i hi => hnext i (List.mem_cons_of_mem _ hi))
        (fun i hi => hdone i (List.mem_cons_of_mem _ hi)) _

end Containers

section Values

/-- What may follow a value: a number goes on as long as there are bytes that a number may
have. -/
def Tree.Delimited (rest : Bytes) : Tree → Prop
  | .number _ => Stops isNumberByte rest
  | _ => True

theorem Tree.delimited_of_stops {rest : Bytes} (h : Stops isNumberByte rest) (t : Tree) : t.Delimited rest := by
  cases t with
  | number token => exact h
  | null | bool _ | string _ | array _ _ | object _ _ => trivial

/-- Values of so many levels are read, whatever blanks precede them. -/
def ReadsTrees (levels : ℕ) : Prop :=
  ∀ (t : Tree) (before : Blank) (rest : Bytes), t.depth ≤ levels → t.InRange → t.Delimited rest →
    Parser.parseValue levels (before.val ++ (t.text ++ rest)) = .ok (t.value, rest)

theorem literal_append (word : String) (value : Json) (rest : Bytes) :
    literal word value (ascii word ++ rest) = .ok (value, rest) := by
  rw [literal, List.take_left, if_neg (not_not.mpr rfl), List.drop_left]

theorem parseValue_start (levels : ℕ) (before : Blank) {c : UInt8} (hc : isWhitespace c = false) (rest : Bytes) :
    Parser.parseValue (levels + 1) (before.val ++ c :: rest) = parseStarting (Parser.parseValue levels) c rest := by
  simp only [Parser.parseValue, parseValueInner, skipWhitespace_blank, skipWhitespace_cons hc]

variable {levels : ℕ}

/-- A value in blanks, with something after it that is no part of a number. -/
theorem parseValue_wrap (hreads : ReadsTrees levels) {e : Padded Tree} (hdepth : e.inner.depth ≤ levels)
    (hrange : e.inner.InRange) {c : UInt8} (hc : isNumberByte c = false) (blank : Blank) (rest : Bytes) :
    Parser.parseValue levels (e.wrap e.inner.text ++ (blank.val ++ c :: rest)) =
      .ok (e.inner.value, (e.after.append blank).val ++ c :: rest) := by
  have hstop := stops_blank hc (e.after.append blank) rest
  have hread := hreads e.inner e.before _ hdepth hrange (e.inner.delimited_of_stops hstop)
  have htext : e.wrap e.inner.text ++ (blank.val ++ c :: rest) =
      e.before.val ++ (e.inner.text ++ ((e.after.append blank).val ++ c :: rest)) := by
    simp only [Padded.wrap, Blank.append, List.append_assoc]
  rw [htext, hread]

theorem arrayRound_next (hreads : ReadsTrees levels) {e : Padded Tree} (hdepth : e.inner.depth ≤ levels)
    (hrange : e.inner.InRange) (out : Json) (more : Bytes) :
    arrayRound (Parser.parseValue levels) (out, e.wrap e.inner.text ++ byte ',' :: more) =
      .ok (.next (out.push e.inner.value, more)) := by
  have hvalue := parseValue_wrap hreads hdepth hrange (c := byte ',') (by decide) ⟨[], by simp⟩ more
  rw [List.nil_append] at hvalue
  rw [arrayRound, hvalue]
  exact separator_comma _ _ _

theorem arrayRound_done (hreads : ReadsTrees levels) {e : Padded Tree} (hdepth : e.inner.depth ≤ levels)
    (hrange : e.inner.InRange) (out : Json) (blank : Blank) (rest : Bytes) :
    arrayRound (Parser.parseValue levels) (out, e.wrap e.inner.text ++ (blank.val ++ byte ']' :: rest)) =
      .ok (.done (out.push e.inner.value, rest)) := by
  rw [arrayRound, parseValue_wrap hreads hdepth hrange (by decide)]
  exact separator_closing (by decide) (by decide) _ _ _

theorem skipWhitespace_idem (text : Bytes) : skipWhitespace (skipWhitespace text) = skipWhitespace text :=
  List.dropWhile_idempotent ..

theorem parseValue_skipWhitespace (levels : ℕ) (text : Bytes) :
    Parser.parseValue (levels + 1) (skipWhitespace text) = Parser.parseValue (levels + 1) text := by
  simp only [Parser.parseValue, parseValueInner, skipWhitespace_idem]

/-- The first byte of a value, which closes no array. -/
theorem Tree.exists_cons_text (t : Tree) :
    ∃ c rest, t.text = c :: rest ∧ isWhitespace c = false ∧ c ≠ byte ']' := by
  cases t with
  | null => exact ⟨byte 'n', ascii "ull", by decide, by decide, by decide⟩
  | bool value =>
    cases value
    · exact ⟨byte 'f', ascii "alse", by decide, by decide, by decide⟩
    · exact ⟨byte 't', ascii "rue", by decide, by decide, by decide⟩
  | number token =>
    obtain ⟨c, rest, hcons, hc⟩ := token.exists_cons_text
    refine ⟨c, rest, hcons, ?_⟩
    rcases hc with hdigit | rfl
    · have hnat := CNumber.isDigit_iff.mp hdigit
      refine ⟨?_, ne_of_digit hdigit (by decide)⟩
      by_contra hblank
      rw [Bool.not_eq_false, isWhitespace_iff] at hblank
      rcases hblank with rfl | rfl | rfl | rfl <;> exact absurd hnat (by decide)
    · decide
  | string characters => exact ⟨0x22, _, rfl, by decide, by decide⟩
  | array elements blank => exact ⟨byte '[', _, rfl, by decide, by decide⟩
  | object members blank => exact ⟨0x7b, _, rfl, by decide, by decide⟩

theorem Tree.depth_pos (t : Tree) : 0 < t.depth := by
  cases t <;> simp [Tree.depth]

/-- The first text of several stands first. -/
theorem exists_intercalate (separator text : Bytes) (texts : List Bytes) :
    ∃ more, separator.intercalate (text :: texts) = text ++ more := by
  cases texts with
  | nil => exact ⟨[], by rw [List.intercalate_singleton, List.append_nil]⟩
  | cons text' texts => exact ⟨_, List.intercalate_cons_cons.trans (List.append_assoc _ _ _)⟩

theorem parseArray_text (hreads : ReadsTrees levels) {elements : List (Padded Tree)}
    (hdepth : Tree.elementsDepth elements ≤ levels) (hrange : Tree.elementsInRange elements) (blank : Blank)
    (rest : Bytes) :
    parseArray (Parser.parseValue levels)
        ([byte ','].intercalate (Tree.elementTexts elements) ++ (blank.val ++ byte ']' :: rest)) =
      .ok (.array (Tree.elementValues elements), rest) := by
  have hbracket : isWhitespace (byte ']') = false := by decide
  have hshrinks := shrinks_arrayRound (consumes_parseValue levels)
  rw [Tree.elementTexts_eq_map, Tree.elementValues_eq_map]
  cases elements with
  | nil => simp [parseArray, skipWhitespace_blank, skipWhitespace_cons hbracket]
  | cons e es =>
    have hloop := loop_items hshrinks (List.cons_ne_nil e es)
      (fun e' he out more => arrayRound_next hreads ((Tree.depth_le_of_mem_elements he).trans hdepth)
        (Tree.inRange_of_mem_elements hrange e' he) out more)
      (fun e' he out => arrayRound_done hreads ((Tree.depth_le_of_mem_elements he).trans hdepth)
        (Tree.inRange_of_mem_elements hrange e' he) out blank rest) (.array [])
    rw [Json.foldl_push, List.nil_append] at hloop
    -- the blanks before the first element are skipped before the loop, and again in it
    obtain ⟨more, hmore⟩ := exists_intercalate [byte ','] (e.wrap e.inner.text) (es.map fun e => e.wrap e.inner.text)
    obtain ⟨c, tail, hcons, hblank, hne⟩ := e.inner.exists_cons_text
    have hpos := e.inner.depth_pos.trans_le ((le_max_left _ _).trans hdepth)
    obtain ⟨n, rfl⟩ := Nat.exists_eq_add_of_lt hpos
    generalize htext : [byte ','].intercalate ((e :: es).map fun e => e.wrap e.inner.text) ++
      (blank.val ++ byte ']' :: rest) = text at hloop ⊢
    have hskip : (skipWhitespace text).head? = some c := by
      rw [← htext, List.map_cons, hmore, Padded.wrap, hcons, List.append_assoc, List.append_assoc, List.append_assoc,
        skipWhitespace_blank, List.cons_append, skipWhitespace_cons hblank, List.head?_cons]
    have hopen : (skipWhitespace text).head? ≠ some (byte ']') := by
      rw [hskip]
      simpa using hne
    simp only [parseArray, if_neg hopen]
    refine (loop_congr hshrinks ?_).trans hloop
    simp only [arrayRound, zero_add, parseValue_skipWhitespace]

theorem skipWhitespace_string (blank : Blank) (characters : List Character) (rest : Bytes) :
    skipWhitespace (blank.val ++ (stringText characters ++ rest)) = stringText characters ++ rest := by
  rw [skipWhitespace_blank, stringText, List.cons_append, List.cons_append, skipWhitespace_cons (by decide)]

/-- A member with something after it that is no part of a number. -/
theorem objectRound_member (hreads : ReadsTrees levels) {m : Padded (List Character) × Padded Tree}
    (hdepth : m.2.inner.depth ≤ levels) (hrange : m.2.inner.InRange) (out : Json) {c : UInt8}
    (hc : isNumberByte c = false) (blank : Blank) (rest : Bytes) :
    objectRound (Parser.parseValue levels) (out, Tree.memberText m ++ (blank.val ++ c :: rest)) =
      separator closeBrace "unterminated object" "expected ',' or '\x7d'"
        (out.set (stringBytes m.1.inner) m.2.inner.value) ((m.2.after.append blank).val ++ c :: rest) := by
  have hcolon : isWhitespace (byte ':') = false := by decide
  have htext : Tree.memberText m ++ (blank.val ++ c :: rest) = m.1.before.val ++ (stringText m.1.inner ++
      (m.1.after.val ++ byte ':' :: (m.2.wrap m.2.inner.text ++ (blank.val ++ c :: rest)))) := by
    simp only [Tree.memberText, Padded.wrap, List.append_assoc, List.cons_append]
  rw [htext, objectRound, skipWhitespace_string, parseString_text, Except.bind]
  simp only [skipWhitespace_blank, skipWhitespace_cons hcolon, List.head?_cons, ne_eq, not_true_eq_false, if_false,
    List.tail_cons, parseValue_wrap hreads hdepth hrange hc, Except.bind]

theorem objectRound_next (hreads : ReadsTrees levels) {m : Padded (List Character) × Padded Tree}
    (hdepth : m.2.inner.depth ≤ levels) (hrange : m.2.inner.InRange) (out : Json) (more : Bytes) :
    objectRound (Parser.parseValue levels) (out, Tree.memberText m ++ byte ',' :: more) =
      .ok (.next (out.set (stringBytes m.1.inner) m.2.inner.value, more)) :=
  (objectRound_member hreads hdepth hrange out (c := byte ',') (by decide) ⟨[], by simp⟩ more).trans
    (separator_comma _ _ _)

theorem objectRound_done (hreads : ReadsTrees levels) {m : Padded (List Character) × Padded Tree}
    (hdepth : m.2.inner.depth ≤ levels) (hrange : m.2.inner.InRange) (out : Json) (blank : Blank) (rest : Bytes) :
    objectRound (Parser.parseValue levels) (out, Tree.memberText m ++ (blank.val ++ closeBrace :: rest)) =
      .ok (.done (out.set (stringBytes m.1.inner) m.2.inner.value, rest)) :=
  (objectRound_member hreads hdepth hrange out (by decide) blank rest).trans
    (separator_closing (by decide) (by decide) _ _ _)

theorem parseObject_text (hreads : ReadsTrees levels) {members : List (Padded (List Character) × Padded Tree)}
    (hdepth : Tree.membersDepth members ≤ levels) (hrange : Tree.membersInRange members) (blank : Blank)
    (rest : Bytes) :
    parseObject (Parser.parseValue levels)
        ([byte ','].intercalate (Tree.memberTexts members) ++ (blank.val ++ closeBrace :: rest)) =
      .ok (.object (Tree.lastWins (Tree.memberValues members)), rest) := by
  have hbrace : isWhitespace closeBrace = false := by decide
  have hshrinks := shrinks_objectRound (consumes_parseValue levels)
  rw [Tree.memberTexts_eq_map, Tree.memberValues_eq_map]
  cases members with
  | nil => simp [parseObject, skipWhitespace_blank, skipWhitespace_cons hbrace, Tree.lastWins]
  | cons m ms =>
    have hloop := loop_items hshrinks (List.cons_ne_nil m ms)
      (fun m' hm out more => objectRound_next hreads ((Tree.depth_le_of_mem_members hm).trans hdepth)
        (Tree.inRange_of_mem_members hrange m' hm) out more)
      (fun m' hm out => objectRound_done hreads ((Tree.depth_le_of_mem_members hm).trans hdepth)
        (Tree.inRange_of_mem_members hrange m' hm) out blank rest) (.object [])
    rw [← List.foldl_map
      (f := fun m : Padded (List Character) × Padded Tree => (stringBytes m.1.inner, m.2.inner.value))
      (g := fun (out : Json) m => out.set m.1 m.2), foldl_set, foldl_setMember] at hloop
    obtain ⟨more, hmore⟩ := exists_intercalate [byte ','] (Tree.memberText m) (ms.map Tree.memberText)
    generalize htext : [byte ','].intercalate ((m :: ms).map Tree.memberText) ++
      (blank.val ++ closeBrace :: rest) = text at hloop ⊢
    have hskip : (skipWhitespace text).head? = some 0x22 := by
      rw [← htext, List.map_cons, hmore, Tree.memberText, Padded.wrap, List.append_assoc, List.append_assoc,
        List.append_assoc, List.append_assoc, skipWhitespace_string]
      rfl
    have hopen : (skipWhitespace text).head? ≠ some closeBrace := by
      rw [hskip]
      decide
    simp only [parseObject, if_neg hopen]
    refine (loop_congr hshrinks ?_).trans hloop
    simp only [objectRound, skipWhitespace_idem]

theorem parseStarting_number (pv : Bytes → Parser.Reading Json) {c : UInt8}
    (hc : CNumber.isDigit c = true ∨ c = byte '-') (rest : Bytes) :
    parseStarting pv c rest = Parser.parseNumber (c :: rest) := by
  have hne : ∀ d, CNumber.isDigit d = false → d ≠ byte '-' → c ≠ d := by
    rintro d hd hminus rfl
    rcases hc with hc | hc
    · exact absurd (hc.symm.trans hd) (by decide)
    · exact hminus hc
  rw [parseStarting, if_neg (hne _ (by decide) (by decide)), if_neg (hne _ (by decide) (by decide)),
    if_neg (hne _ (by decide) (by decide)), if_neg (hne _ (by decide) (by decide)),
    if_neg (hne _ (by decide) (by decide)), if_neg (hne _ (by decide) (by decide))]

theorem readsTrees_succ (hreads : ReadsTrees levels) : ReadsTrees (levels + 1) := by
  intro t before rest hdepth hrange hends
  cases t with
  | null =>
    have htext : Tree.null.text = byte 'n' :: ascii "ull" := by decide
    rw [htext, List.cons_append, parseValue_start levels before (by decide)]
    exact literal_append "null" .null rest
  | bool value =>
    cases value with
    | false =>
      have htext : (Tree.bool false).text = byte 'f' :: ascii "alse" := by decide
      rw [htext, List.cons_append, parseValue_start levels before (by decide)]
      exact literal_append "false" (.bool false) rest
    | true =>
      have htext : (Tree.bool true).text = byte 't' :: ascii "rue" := by decide
      rw [htext, List.cons_append, parseValue_start levels before (by decide)]
      exact literal_append "true" (.bool true) rest
  | number token =>
    obtain ⟨c, tail, hcons, hc⟩ := token.exists_cons_text
    obtain ⟨d, tail', hcons', hblank, -⟩ := (Tree.number token).exists_cons_text
    obtain rfl : c = d := (List.cons.inj (hcons.symm.trans hcons')).1
    have hnumber := parseNumber_text hrange hends
    rw [hcons, List.cons_append] at hnumber
    rw [Tree.text, hcons, List.cons_append, parseValue_start levels before hblank, parseStarting_number _ hc, hnumber]
    rfl
  | string characters =>
    have hstring := parseString_text characters rest
    rw [Tree.text, stringText, List.cons_append, List.cons_append, parseValue_start levels before (by decide)]
    have hstarting : ∀ more, parseStarting (Parser.parseValue levels) 0x22 more =
        (Parser.parseString (0x22 :: more)).map fun read => (.string read.1, read.2) := fun more => rfl
    rw [hstarting]
    exact congrArg (Except.map fun read => (Json.string read.1, read.2)) hstring
  | array elements blank =>
    have harray := parseArray_text hreads (Nat.le_of_succ_le_succ hdepth) hrange blank rest
    have htext : (Tree.array elements blank).text ++ rest = byte '[' ::
        ([byte ','].intercalate (Tree.elementTexts elements) ++ (blank.val ++ byte ']' :: rest)) := by
      simp [Tree.text]
    rw [htext, parseValue_start levels before (by decide)]
    exact harray
  | object members blank =>
    have hobject := parseObject_text hreads (Nat.le_of_succ_le_succ hdepth) hrange blank rest
    have htext : (Tree.object members blank).text ++ rest = openBrace ::
        ([byte ','].intercalate (Tree.memberTexts members) ++ (blank.val ++ closeBrace :: rest)) := by
      simp [Tree.text, openBrace, closeBrace]
    rw [htext, parseValue_start levels before (by decide)]
    exact hobject

theorem readsTrees (levels : ℕ) : ReadsTrees levels := by
  induction levels with
  | zero =>
    intro t before rest hdepth
    exact absurd t.depth_pos (by omega)
  | succ levels ih => exact readsTrees_succ ih

end Values

/-- Arrays and objects end with their closing bracket. -/
def Tree.IsContainer : Tree → Prop
  | .array _ _ => True
  | .object _ _ => True
  | _ => False

theorem Tree.IsContainer.delimited {t : Tree} (h : t.IsContainer) (rest : Bytes) : t.Delimited rest := by
  cases t with
  | array _ _ | object _ _ => trivial
  | null | bool _ | number _ | string _ => cases h

theorem stops_of_blank (blank : Blank) : Stops isNumberByte blank.val := by
  intro c hc
  rcases blank.property c (List.mem_of_mem_head? hc) with rfl | rfl | rfl | rfl <;> decide

theorem parse_text (before after : Blank) {t : Tree} (hdepth : t.depth ≤ 64) (hrange : t.InRange) :
    parse (before.val ++ t.text ++ after.val) = (t.value, []) := by
  have hread := readsTrees 64 t before after.val hdepth hrange (t.delimited_of_stops (stops_of_blank after))
  have hskip : skipWhitespace after.val = [] := by
    have hall := skipWhitespace_blank after []
    rwa [List.append_nil] at hall
  rw [List.append_assoc]
  simp only [Json.parse, hread, hskip, ne_eq, not_true_eq_false, if_false]

theorem parse_trailing (before after : Blank) {t : Tree} (hdepth : t.depth ≤ 64) (hrange : t.InRange)
    (hcontainer : t.IsContainer) {more : Bytes} (hmore : ∃ c ∈ more, ¬ IsBlank c) :
    parse (before.val ++ t.text ++ after.val ++ more) = (.null, ascii "trailing data after JSON document") := by
  have hread := readsTrees 64 t before (after.val ++ more) hdepth hrange (hcontainer.delimited _)
  have hskip : skipWhitespace (after.val ++ more) ≠ [] := by
    obtain ⟨c, hc, hblank⟩ := hmore
    rw [skipWhitespace_blank]
    intro hnil
    exact hblank (isWhitespace_iff.mp (List.dropWhile_eq_nil_iff.mp hnil c hc))
  rw [List.append_assoc, List.append_assoc]
  simp only [Json.parse, hread, hskip, ne_eq, not_false_eq_true, if_true]

/-- Every text of JSON with at most 64 levels of nesting is read as the value it denotes. If
it is an array or an object and something other than blanks follows, that is an error. -/
theorem accepts_json (before after : Blank) (t : Tree) (hdepth : t.depth ≤ 64) (hrange : t.InRange) :
    parse (before.val ++ t.text ++ after.val) = (t.value, []) ∧
      (t.IsContainer → ∀ more : Bytes, (∃ c ∈ more, ¬ IsBlank c) →
        (parse (before.val ++ t.text ++ after.val ++ more)).1 = .null ∧
          (parse (before.val ++ t.text ++ after.val ++ more)).2 ≠ []) := by
  refine ⟨parse_text before after hdepth hrange, fun hcontainer more hmore => ?_⟩
  rw [parse_trailing before after hdepth hrange hcontainer hmore]
  exact ⟨rfl, by decide⟩

/-- A name that is given twice, by an escape the second time. -/
theorem accepts_json_twice :
    parse (ascii "\x7b\"a\": 1,\"\\u0061\":true\x7d") = (.object [(ascii "a", .bool true)], []) ∧
      (parse (ascii "\x7b\"a\": 1,\"\\u0061\":true\x7d]")).1 = .null := by
  let empty : Blank := ⟨[], by simp⟩
  let one : NumberToken := ⟨false, ⟨[byte '1'], by decide +kernel⟩, none, none, by decide⟩
  let name : Character := .unescaped (byte 'a') (by unfold Unescaped; decide)
  let escaped : Character := .scalar ⟨⟨0, false⟩, ⟨0, false⟩, ⟨6, false⟩, ⟨1, false⟩⟩ (by decide)
  let t : Tree := .object [(⟨empty, [name], empty⟩, ⟨⟨[0x20], by simp [IsBlank]⟩, .number one, empty⟩),
    (⟨empty, [escaped], empty⟩, ⟨empty, .bool true, empty⟩)] empty
  have hrange : t.InRange := ⟨⟨by decide +kernel, by decide +kernel⟩, trivial, trivial⟩
  obtain ⟨hread, hmore⟩ := accepts_json empty empty t (by decide) hrange
  have htext : t.text = ascii "\x7b\"a\": 1,\"\\u0061\":true\x7d" := by decide
  have hvalue : t.value = .object [(ascii "a", .bool true)] := rfl
  rw [hvalue, htext] at hread
  have hnull := (hmore trivial [byte ']'] ⟨byte ']', by simp, by unfold IsBlank; decide⟩).1
  rw [htext] at hnull
  exact ⟨hread, hnull⟩

end NetworkHealth.Daemon.Json.Grammar
