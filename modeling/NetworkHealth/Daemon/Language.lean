import NetworkHealth.Daemon.Accepts
import NetworkHealth.Daemon.Dialect

/-! The language of the parser: the texts it accepts are those of its dialect, with at most 64
levels of nesting, and each is read as the value it denotes. -/
namespace NetworkHealth.Daemon.Json.Grammar.Dialect
open NetworkHealth.Daemon.Json.Parser
open CNumber (byte Stops)

theorem exists_blank (text : Bytes) : ∃ blank : Blank, text = blank.val ++ skipWhitespace text :=
  ⟨⟨text.takeWhile isWhitespace, fun _ hc => isWhitespace_iff.mp (List.mem_takeWhile_imp hc)⟩,
    List.takeWhile_append_dropWhile.symm⟩

/-- What stands after an item. -/
theorem separator_cases {closing : UInt8} {unterminated expected : String} {out : Json} {text : Bytes}
    {r : Round (Json × Bytes)} (h : separator closing unterminated expected out text = .ok r) :
    ∃ (blank : Blank) (rest : Bytes), text = blank.val ++ byte ',' :: rest ∧ r = .next (out, rest) ∨
      text = blank.val ++ closing :: rest ∧ r = .done (out, rest) := by
  obtain ⟨blank, htext⟩ := exists_blank text
  unfold separator at h
  split at h
  · cases h
  · rename_i c rest hskip
    rw [hskip] at htext
    split_ifs at h with hcomma hclosing
    · cases h
      exact ⟨blank, rest, Or.inl ⟨hcomma ▸ htext, rfl⟩⟩
    · cases h
      exact ⟨blank, rest, Or.inr ⟨hclosing ▸ htext, rfl⟩⟩
    · cases h

section Sound
variable {levels : ℕ}

/-- What is read as a value denotes it. -/
def Recognises (levels : ℕ) (pv : Bytes → Parser.Reading Json) : Prop :=
  ∀ text v rest, pv text = .ok (v, rest) →
    ∃ (before : Blank) (inner : Bytes), text = before.val ++ inner ++ rest ∧ Denotes levels inner v

variable {pv : Bytes → Parser.Reading Json}

/-- An element of an array, with what stands after it. -/
theorem arrayRound_cases (hpv : Recognises levels pv) {out : Json} {text : Bytes} {r : Round (Json × Bytes)}
    (h : arrayRound pv (out, text) = .ok r) : ∃ (e : Padded (Bytes × Json)) (rest : Bytes),
      Denotes levels e.inner.1 e.inner.2 ∧
      (text = e.wrap e.inner.1 ++ byte ',' :: rest ∧ r = .next (out.push e.inner.2, rest) ∨
        text = e.wrap e.inner.1 ++ byte ']' :: rest ∧ r = .done (out.push e.inner.2, rest)) := by
  obtain ⟨⟨v, after⟩, hvalue, hseparator⟩ := bind_ok h
  obtain ⟨before, inner, htext, hdenotes⟩ := hpv _ _ _ hvalue
  obtain ⟨blank, rest, hcases⟩ := separator_cases hseparator
  dsimp only at htext hcases
  refine ⟨⟨before, (inner, v), blank⟩, rest, hdenotes, ?_⟩
  refine hcases.imp (fun hcomma => ⟨?_, hcomma.2⟩) fun hclosing => ⟨?_, hclosing.2⟩
  · rw [htext, hcomma.1, Padded.wrap]
    simp
  · rw [htext, hclosing.1, Padded.wrap]
    simp

/-- The texts of the elements, with commas between them. -/
def elementsText (elements : List (Padded (Bytes × Json))) : Bytes :=
  [byte ','].intercalate (elements.map fun e => e.wrap e.inner.1)

theorem elementsText_cons {e : Padded (Bytes × Json)} {es : List (Padded (Bytes × Json))} (h : es ≠ []) :
    elementsText (e :: es) = e.wrap e.inner.1 ++ byte ',' :: elementsText es := by
  obtain ⟨e', es, rfl⟩ := List.exists_cons_of_ne_nil h
  simp [elementsText, List.intercalate_cons_cons]

/-- The elements that the array loop reads from where it stands. -/
theorem exists_elements (hconsumes : Consumes pv) (hpv : Recognises levels pv) {found : List Json}
    {text rest : Bytes} {v : Json}
    (h : NetworkHealth.loop (arrayRound pv) exhausted left (.array found, text) = .ok (v, rest)) :
    ∃ elements : List (Padded (Bytes × Json)), elements ≠ [] ∧ (∀ e ∈ elements, Denotes levels e.inner.1 e.inner.2) ∧
      text = elementsText elements ++ byte ']' :: rest ∧ v = .array (found ++ elements.map fun e => e.inner.2) := by
  let post : Json × Bytes → Json × Bytes → Prop := fun s last => ∀ found, s.1 = .array found →
    ∃ elements : List (Padded (Bytes × Json)), elements ≠ [] ∧ (∀ e ∈ elements, Denotes levels e.inner.1 e.inner.2) ∧
      s.2 = elementsText elements ++ byte ']' :: last.2 ∧ last.1 = .array (found ++ elements.map fun e => e.inner.2)
  refine loop_relates post (shrinks_arrayRound hconsumes) ?_ ?_ h found rfl
  · rintro ⟨out, text⟩ last hround found rfl
    obtain ⟨e, rest, hdenotes, ⟨-, hr⟩ | ⟨htext, hr⟩⟩ := arrayRound_cases hpv hround
    · cases hr
    · cases hr
      refine ⟨[e], List.cons_ne_nil _ _, by simpa using hdenotes, ?_, rfl⟩
      rw [htext, elementsText, List.map_singleton, List.intercalate_singleton]
  · rintro ⟨out, text⟩ s' last hround hlater found rfl
    obtain ⟨e, rest, hdenotes, ⟨htext, hr⟩ | ⟨-, hr⟩⟩ := arrayRound_cases hpv hround
    · cases hr
      obtain ⟨elements, hne, hall, hrest, hlast⟩ := hlater (found ++ [e.inner.2]) rfl
      dsimp only at hrest
      refine ⟨e :: elements, List.cons_ne_nil _ _, List.forall_mem_cons.mpr ⟨hdenotes, hall⟩, ?_, ?_⟩
      · rw [htext, elementsText_cons hne, hrest]
        simp
      · rw [hlast]
        simp
    · cases hr

theorem denotes_array (hconsumes : Consumes pv) (hpv : Recognises levels pv) {text rest : Bytes} {v : Json}
    (h : parseArray pv text = .ok (v, rest)) :
    ∃ inner, byte '[' :: text = inner ++ rest ∧ Denotes (levels + 1) inner v := by
  obtain ⟨blank, htext⟩ := exists_blank text
  simp only [parseArray] at h
  split_ifs at h with hempty
  · obtain ⟨tail, htail⟩ := List.head?_eq_some_iff.mp hempty
    rw [htail] at h htext
    cases h
    refine ⟨_, ?_, Denotes.array levels [] blank (by simp)⟩
    rw [htext]
    simp
  · obtain ⟨elements, hne, hall, hrest, rfl⟩ := exists_elements hconsumes hpv h
    obtain ⟨e, es, rfl⟩ := List.exists_cons_of_ne_nil hne
    -- the blank before the first element is part of it
    let first : Padded (Bytes × Json) := ⟨blank.append e.before, e.inner, e.after⟩
    have hfirst : elementsText (first :: es) = blank.val ++ elementsText (e :: es) := by
      cases es with
      | nil => simp [elementsText, first, Padded.wrap, Blank.append]
      | cons e' es =>
        rw [elementsText_cons (List.cons_ne_nil _ _), elementsText_cons (List.cons_ne_nil _ _)]
        simp [first, Padded.wrap, Blank.append]
    refine ⟨_, ?_, Denotes.array levels (first :: es) ⟨[], by simp⟩ ?_⟩
    · rw [htext, hrest, ← List.append_assoc, ← hfirst]
      simp [elementsText]
    · intro e' he'
      rcases List.mem_cons.mp he' with rfl | he'
      · exact hall e List.mem_cons_self
      · exact hall e' (List.mem_cons_of_mem _ he')

abbrev Member := Padded (List Character) × Padded (Bytes × Json)

def memberText (m : Member) : Bytes := m.1.wrap (stringText m.1.inner) ++ byte ':' :: m.2.wrap m.2.inner.1

def Member.pair (m : Member) : Bytes × Json := (stringBytes m.1.inner, m.2.inner.2)

/-- A member of an object, with what stands after it. -/
theorem objectRound_cases (hpv : Recognises levels pv) {out : Json} {text : Bytes} {r : Round (Json × Bytes)}
    (h : objectRound pv (out, text) = .ok r) : ∃ (m : Member) (rest : Bytes),
      Denotes levels m.2.inner.1 m.2.inner.2 ∧
      (text = memberText m ++ byte ',' :: rest ∧ r = .next (out.set m.pair.1 m.pair.2, rest) ∨
        text = memberText m ++ closeBrace :: rest ∧ r = .done (out.set m.pair.1 m.pair.2, rest)) := by
  obtain ⟨⟨key, afterKey⟩, hkey, h⟩ := bind_ok h
  obtain ⟨first, hfirst⟩ := exists_blank text
  obtain ⟨characters, hstring, rfl⟩ := exists_string hkey
  obtain ⟨second, hsecond⟩ := exists_blank afterKey
  dsimp only at hstring h
  split_ifs at h with hcolon
  · cases h
  obtain ⟨tail, htail⟩ := List.head?_eq_some_iff.mp (not_not.mp hcolon)
  rw [htail] at hsecond h
  obtain ⟨⟨v, after⟩, hvalue, hseparator⟩ := bind_ok h
  obtain ⟨before, inner, hinner, hdenotes⟩ := hpv _ _ _ hvalue
  obtain ⟨blank, rest, hcases⟩ := separator_cases hseparator
  rw [List.tail_cons] at hinner
  dsimp only at hcases
  refine ⟨(⟨first, characters, second⟩, ⟨before, (inner, v), blank⟩), rest, hdenotes, ?_⟩
  refine hcases.imp (fun hcomma => ⟨?_, hcomma.2⟩) fun hclosing => ⟨?_, hclosing.2⟩
  · rw [hfirst, hstring, hsecond, hinner, hcomma.1]
    simp [memberText, Padded.wrap]
  · rw [hfirst, hstring, hsecond, hinner, hclosing.1]
    simp [memberText, Padded.wrap]

def membersText (members : List Member) : Bytes := [byte ','].intercalate (members.map memberText)

theorem membersText_cons {m : Member} {ms : List Member} (h : ms ≠ []) :
    membersText (m :: ms) = memberText m ++ byte ',' :: membersText ms := by
  obtain ⟨m', ms, rfl⟩ := List.exists_cons_of_ne_nil h
  simp [membersText, List.intercalate_cons_cons]

/-- The members that the object loop reads from where it stands. -/
theorem exists_members (hconsumes : Consumes pv) (hpv : Recognises levels pv) {text rest : Bytes} {v : Json}
    (h : NetworkHealth.loop (objectRound pv) exhausted left (.object [], text) = .ok (v, rest)) :
    ∃ members : List Member, members ≠ [] ∧ (∀ m ∈ members, Denotes levels m.2.inner.1 m.2.inner.2) ∧
      text = membersText members ++ closeBrace :: rest ∧ v = .object (Tree.lastWins (members.map Member.pair)) := by
  let post : Json × Bytes → Json × Bytes → Prop := fun s last => ∀ found, s.1 = .object (Tree.lastWins found) →
    ∃ members : List Member, members ≠ [] ∧ (∀ m ∈ members, Denotes levels m.2.inner.1 m.2.inner.2) ∧
      s.2 = membersText members ++ closeBrace :: last.2 ∧
      last.1 = .object (Tree.lastWins (found ++ members.map Member.pair))
  have hset : ∀ found (m : Member), (Json.object (Tree.lastWins found)).set m.pair.1 m.pair.2 =
      .object (Tree.lastWins (found ++ [m.pair])) := fun found m =>
    congrArg Json.object (lastWins_append found m.pair.1 m.pair.2).symm
  refine loop_relates post (shrinks_objectRound hconsumes) ?_ ?_ h [] rfl
  · rintro ⟨out, text⟩ last hround found rfl
    obtain ⟨m, rest, hdenotes, ⟨-, hr⟩ | ⟨htext, hr⟩⟩ := objectRound_cases hpv hround
    · cases hr
    · cases hr
      refine ⟨[m], List.cons_ne_nil _ _, by simpa using hdenotes, ?_, hset found m⟩
      rw [htext, membersText, List.map_singleton, List.intercalate_singleton]
  · rintro ⟨out, text⟩ s' last hround hlater found rfl
    obtain ⟨m, rest, hdenotes, ⟨htext, hr⟩ | ⟨-, hr⟩⟩ := objectRound_cases hpv hround
    · cases hr
      obtain ⟨members, hne, hall, hrest, hlast⟩ := hlater (found ++ [m.pair]) (hset found m)
      dsimp only at hrest
      refine ⟨m :: members, List.cons_ne_nil _ _, List.forall_mem_cons.mpr ⟨hdenotes, hall⟩, ?_, ?_⟩
      · rw [htext, membersText_cons hne, hrest]
        simp
      · rw [hlast]
        simp
    · cases hr

theorem denotes_object (hconsumes : Consumes pv) (hpv : Recognises levels pv) {text rest : Bytes} {v : Json}
    (h : parseObject pv text = .ok (v, rest)) :
    ∃ inner, openBrace :: text = inner ++ rest ∧ Denotes (levels + 1) inner v := by
  obtain ⟨blank, htext⟩ := exists_blank text
  simp only [parseObject] at h
  split_ifs at h with hempty
  · obtain ⟨tail, htail⟩ := List.head?_eq_some_iff.mp hempty
    rw [htail] at h htext
    cases h
    refine ⟨_, ?_, Denotes.object levels [] blank (by simp)⟩
    rw [htext]
    simp
  · obtain ⟨members, hne, hall, hrest, rfl⟩ := exists_members hconsumes hpv h
    obtain ⟨m, ms, rfl⟩ := List.exists_cons_of_ne_nil hne
    -- the blank before the first name is part of its member
    let first : Member := (⟨blank.append m.1.before, m.1.inner, m.1.after⟩, m.2)
    have hfirst : membersText (first :: ms) = blank.val ++ membersText (m :: ms) := by
      cases ms with
      | nil => simp [membersText, memberText, first, Padded.wrap, Blank.append]
      | cons m' ms =>
        rw [membersText_cons (List.cons_ne_nil _ _), membersText_cons (List.cons_ne_nil _ _)]
        simp [memberText, first, Padded.wrap, Blank.append]
    refine ⟨openBrace :: membersText (first :: ms) ++ [] ++ [closeBrace], ?_,
      Denotes.object levels (first :: ms) ⟨[], by simp⟩ ?_⟩
    · rw [htext, hrest, ← List.append_assoc, ← hfirst]
      simp
    · intro m' hm'
      rcases List.mem_cons.mp hm' with rfl | hm'
      · exact hall m List.mem_cons_self
      · exact hall m' (List.mem_cons_of_mem _ hm')

theorem exists_literal {word : String} {value v : Json} {text rest : Bytes}
    (h : literal word value text = .ok (v, rest)) : text = ascii word ++ rest ∧ v = value := by
  unfold literal at h
  split_ifs at h with hword
  · cases h
  · cases h
    have hsplit := List.take_append_drop (ascii word).length text
    rw [not_not.mp hword] at hsplit
    exact ⟨hsplit.symm, rfl⟩

/-- Everything that is read was in the language, with as many levels as there were. -/
theorem recognises_parseValue (levels : ℕ) : Recognises levels (Parser.parseValue levels) := by
  induction levels with
  | zero =>
    intro text v rest h
    cases h
  | succ levels ih =>
    intro text v rest h
    have hconsumes := consumes_parseValue levels
    obtain ⟨before, htext⟩ := exists_blank text
    simp only [Parser.parseValue, parseValueInner] at h
    split at h
    · cases h
    · rename_i c tail hskip
      rw [hskip] at htext
      suffices hinner : ∃ inner, c :: tail = inner ++ rest ∧ Denotes (levels + 1) inner v by
        obtain ⟨inner, hcons, hdenotes⟩ := hinner
        exact ⟨before, inner, by rw [htext, hcons, List.append_assoc], hdenotes⟩
      unfold parseStarting at h
      split_ifs at h with hnull htrue hfalse hquote hbracket hbrace
      · obtain ⟨hcons, rfl⟩ := exists_literal h
        exact ⟨_, hcons, Denotes.null levels⟩
      · obtain ⟨hcons, rfl⟩ := exists_literal h
        exact ⟨_, hcons, Denotes.bool levels true⟩
      · obtain ⟨hcons, rfl⟩ := exists_literal h
        exact ⟨_, hcons, Denotes.bool levels false⟩
      · obtain ⟨⟨bytes, after⟩, hread, h⟩ := map_ok h
        cases h
        obtain ⟨characters, hcons, rfl⟩ := exists_string hread
        exact ⟨_, hcons, Denotes.string levels characters⟩
      · rw [hbracket]
        exact denotes_array hconsumes ih h
      · rw [hbrace]
        exact denotes_object hconsumes ih h
      · obtain ⟨n, hrange, rfl, hcons⟩ := exists_number h
        exact ⟨_, hcons, Denotes.number levels n hrange⟩

end Sound

section Complete
variable {levels : ℕ}

/-- What may follow the text of a value: a number goes on as long as there are bytes that a number
may have. -/
def Delimited (rest : Bytes) : Json → Prop
  | .number _ => Stops isNumberByte rest
  | _ => True

theorem delimited_of_stops {rest : Bytes} (h : Stops isNumberByte rest) (v : Json) : Delimited rest v := by
  cases v with
  | number q => exact h
  | null | bool _ | infinite | string _ | array _ | object _ => trivial

/-- A text is read as a value, whatever blanks precede it. -/
def ReadsAs (levels : ℕ) (text : Bytes) (v : Json) : Prop :=
  ∀ (before : Blank) (rest : Bytes), Delimited rest v →
    Parser.parseValue levels (before.val ++ (text ++ rest)) = .ok (v, rest)

/-- A value in blanks, with something after it that is no part of a number. -/
theorem ReadsAs.wrap {e : Padded (Bytes × Json)} (h : ReadsAs levels e.inner.1 e.inner.2) {c : UInt8}
    (hc : isNumberByte c = false) (blank : Blank) (rest : Bytes) :
    Parser.parseValue levels (e.wrap e.inner.1 ++ (blank.val ++ c :: rest)) =
      .ok (e.inner.2, (e.after.append blank).val ++ c :: rest) := by
  have hread := h e.before _ (delimited_of_stops (stops_blank hc (e.after.append blank) rest) e.inner.2)
  have htext : e.wrap e.inner.1 ++ (blank.val ++ c :: rest) =
      e.before.val ++ (e.inner.1 ++ ((e.after.append blank).val ++ c :: rest)) := by
    simp only [Padded.wrap, Blank.append, List.append_assoc]
  rw [htext, hread]

theorem arrayRound_element {e : Padded (Bytes × Json)} (h : ReadsAs levels e.inner.1 e.inner.2) (out : Json) {c : UInt8}
    (hc : isNumberByte c = false) (blank : Blank) (rest : Bytes) :
    arrayRound (Parser.parseValue levels) (out, e.wrap e.inner.1 ++ (blank.val ++ c :: rest)) =
      separator (byte ']') "unterminated array" "expected ',' or ']'" (out.push e.inner.2)
        ((e.after.append blank).val ++ c :: rest) := by
  rw [arrayRound, h.wrap hc]
  rfl

theorem skipWhitespace_stringText (blank : Blank) (characters : List Character) (rest : Bytes) :
    skipWhitespace (blank.val ++ (stringText characters ++ rest)) = stringText characters ++ rest := by
  rw [skipWhitespace_blank, stringText, List.cons_append, List.cons_append, skipWhitespace_cons (by decide)]

theorem objectRound_item {m : Member} (h : ReadsAs levels m.2.inner.1 m.2.inner.2) (out : Json) {c : UInt8}
    (hc : isNumberByte c = false) (blank : Blank) (rest : Bytes) :
    objectRound (Parser.parseValue levels) (out, memberText m ++ (blank.val ++ c :: rest)) =
      separator closeBrace "unterminated object" "expected ',' or '\x7d'" (out.set m.pair.1 m.pair.2)
        ((m.2.after.append blank).val ++ c :: rest) := by
  have hcolon : isWhitespace (byte ':') = false := by decide
  have htext : memberText m ++ (blank.val ++ c :: rest) = m.1.before.val ++ (stringText m.1.inner ++
      (m.1.after.val ++ byte ':' :: (m.2.wrap m.2.inner.1 ++ (blank.val ++ c :: rest)))) := by
    simp only [memberText, Padded.wrap, List.append_assoc, List.cons_append]
  rw [htext, objectRound, skipWhitespace_stringText, parseString_text, Except.bind]
  simp only [skipWhitespace_blank, skipWhitespace_cons hcolon, List.head?_cons, ne_eq, not_true_eq_false, if_false,
    List.tail_cons, h.wrap hc, Except.bind]
  rfl

theorem isWhitespace_of_digit {c : UInt8} (h : CNumber.isDigit c = true) : isWhitespace c = false := by
  have hall : ∀ n : Fin 256, CNumber.isDigit (UInt8.ofFin n) = true → isWhitespace (UInt8.ofFin n) = false := by
    decide +kernel
  exact hall c.toFin h

/-- The text of a value starts with no blank and closes no array. -/
theorem exists_cons_of_denotes {text : Bytes} {v : Json} (h : Denotes levels text v) :
    ∃ c rest, text = c :: rest ∧ isWhitespace c = false ∧ c ≠ byte ']' := by
  cases h with
  | null => exact ⟨byte 'n', ascii "ull", by decide, by decide, by decide⟩
  | bool levels value =>
    cases value
    · exact ⟨byte 'f', ascii "alse", by decide, by decide, by decide⟩
    · exact ⟨byte 't', ascii "rue", by decide, by decide, by decide⟩
  | number levels token =>
    obtain ⟨c, rest, hcons, hc⟩ := token.exists_cons_text
    refine ⟨c, rest, hcons, ?_⟩
    rcases hc with hdigit | rfl | rfl | rfl
    · exact ⟨isWhitespace_of_digit hdigit, ne_of_digit hdigit (by decide)⟩
    all_goals decide
  | string levels characters => exact ⟨0x22, _, rfl, by decide, by decide⟩
  | array levels elements blank => exact ⟨byte '[', _, rfl, by decide, by decide⟩
  | object levels members blank => exact ⟨0x7b, _, rfl, by decide, by decide⟩

theorem pos_of_denotes {text : Bytes} {v : Json} (h : Denotes levels text v) : 0 < levels := by
  cases h <;> exact Nat.succ_pos _

theorem arrayRound_next {e : Padded (Bytes × Json)} (h : ReadsAs levels e.inner.1 e.inner.2) (out : Json)
    (more : Bytes) :
    arrayRound (Parser.parseValue levels) (out, e.wrap e.inner.1 ++ byte ',' :: more) =
      .ok (.next (out.push e.inner.2, more)) :=
  (arrayRound_element h out (c := byte ',') (by decide) ⟨[], by simp⟩ more).trans (separator_comma _ _ _)

theorem arrayRound_done {e : Padded (Bytes × Json)} (h : ReadsAs levels e.inner.1 e.inner.2) (out : Json)
    (blank : Blank) (rest : Bytes) :
    arrayRound (Parser.parseValue levels) (out, e.wrap e.inner.1 ++ (blank.val ++ byte ']' :: rest)) =
      .ok (.done (out.push e.inner.2, rest)) :=
  (arrayRound_element h out (by decide) blank rest).trans (separator_closing (by decide) (by decide) _ _ _)

theorem parseArray_elements {elements : List (Padded (Bytes × Json))}
    (hdenotes : ∀ e ∈ elements, Denotes levels e.inner.1 e.inner.2)
    (hreads : ∀ e ∈ elements, ReadsAs levels e.inner.1 e.inner.2) (blank : Blank) (rest : Bytes) :
    parseArray (Parser.parseValue levels) (elementsText elements ++ (blank.val ++ byte ']' :: rest)) =
      .ok (.array (elements.map fun e => e.inner.2), rest) := by
  have hbracket : isWhitespace (byte ']') = false := by decide
  have hshrinks := shrinks_arrayRound (consumes_parseValue levels)
  cases elements with
  | nil => simp [elementsText, parseArray, skipWhitespace_blank, skipWhitespace_cons hbracket]
  | cons e es =>
    have hloop := loop_items hshrinks (List.cons_ne_nil e es)
      (fun e' he out more => arrayRound_next (hreads e' he) out more)
      (fun e' he out => arrayRound_done (hreads e' he) out blank rest) (.array [])
    rw [Json.foldl_push, List.nil_append] at hloop
    -- the blanks before the first element are skipped before the loop, and again in it
    obtain ⟨more, hmore⟩ := exists_intercalate [byte ','] (e.wrap e.inner.1) (es.map fun e => e.wrap e.inner.1)
    obtain ⟨c, tail, hcons, hblank, hne⟩ := exists_cons_of_denotes (hdenotes e List.mem_cons_self)
    obtain ⟨n, rfl⟩ := Nat.exists_eq_add_of_lt (pos_of_denotes (hdenotes e List.mem_cons_self))
    unfold elementsText
    generalize htext : [byte ','].intercalate ((e :: es).map fun e => e.wrap e.inner.1) ++
      (blank.val ++ byte ']' :: rest) = text at hloop ⊢
    have hskip : (skipWhitespace text).head? = some c := by
      rw [← htext, List.map_cons, hmore, Padded.wrap, hcons, List.append_assoc, List.append_assoc, List.append_assoc,
        skipWhitespace_blank, List.cons_append, skipWhitespace_cons hblank, List.head?_cons]
    have hopen : (skipWhitespace text).head? ≠ some (byte ']') := by
      rw [hskip]
      simpa using hne
    simp only [parseArray, if_neg hopen]
    refine (loop_congr hshrinks ?_).trans hloop
    simp only [arrayRound, zero_add, parseValue_skipWhitespace]

theorem objectRound_next {m : Member} (h : ReadsAs levels m.2.inner.1 m.2.inner.2) (out : Json) (more : Bytes) :
    objectRound (Parser.parseValue levels) (out, memberText m ++ byte ',' :: more) =
      .ok (.next (out.set m.pair.1 m.pair.2, more)) :=
  (objectRound_item h out (c := byte ',') (by decide) ⟨[], by simp⟩ more).trans (separator_comma _ _ _)

theorem objectRound_done {m : Member} (h : ReadsAs levels m.2.inner.1 m.2.inner.2) (out : Json) (blank : Blank)
    (rest : Bytes) :
    objectRound (Parser.parseValue levels) (out, memberText m ++ (blank.val ++ closeBrace :: rest)) =
      .ok (.done (out.set m.pair.1 m.pair.2, rest)) :=
  (objectRound_item h out (by decide) blank rest).trans (separator_closing (by decide) (by decide) _ _ _)

theorem parseObject_members {members : List Member} (hreads : ∀ m ∈ members, ReadsAs levels m.2.inner.1 m.2.inner.2)
    (blank : Blank) (rest : Bytes) :
    parseObject (Parser.parseValue levels) (membersText members ++ (blank.val ++ closeBrace :: rest)) =
      .ok (.object (Tree.lastWins (members.map Member.pair)), rest) := by
  have hbrace : isWhitespace closeBrace = false := by decide
  have hshrinks := shrinks_objectRound (consumes_parseValue levels)
  cases members with
  | nil => simp [membersText, parseObject, skipWhitespace_blank, skipWhitespace_cons hbrace, Tree.lastWins]
  | cons m ms =>
    have hloop := loop_items hshrinks (List.cons_ne_nil m ms)
      (fun m' hm out more => objectRound_next (hreads m' hm) out more)
      (fun m' hm out => objectRound_done (hreads m' hm) out blank rest) (.object [])
    rw [← List.foldl_map (f := Member.pair) (g := fun (out : Json) m => out.set m.1 m.2), foldl_set,
      foldl_setMember] at hloop
    obtain ⟨more, hmore⟩ := exists_intercalate [byte ','] (memberText m) (ms.map memberText)
    unfold membersText
    generalize htext : [byte ','].intercalate ((m :: ms).map memberText) ++
      (blank.val ++ closeBrace :: rest) = text at hloop ⊢
    have hskip : (skipWhitespace text).head? = some 0x22 := by
      rw [← htext, List.map_cons, hmore, memberText, Padded.wrap, List.append_assoc, List.append_assoc,
        List.append_assoc, List.append_assoc, skipWhitespace_stringText]
      rfl
    have hopen : (skipWhitespace text).head? ≠ some closeBrace := by
      rw [hskip]
      decide
    simp only [parseObject, if_neg hopen]
    refine (loop_congr hshrinks ?_).trans hloop
    simp only [objectRound, skipWhitespace_idem]

theorem parseStarting_number (pv : Bytes → Parser.Reading Json) {c : UInt8}
    (hc : CNumber.isDigit c = true ∨ c = byte '.' ∨ c = byte '-' ∨ c = byte '+') (rest : Bytes) :
    parseStarting pv c rest = Parser.parseNumber (c :: rest) := by
  have hne : ∀ d, CNumber.isDigit d = false → d ≠ byte '.' → d ≠ byte '-' → d ≠ byte '+' → c ≠ d := by
    rintro d hd hpoint hminus hplus rfl
    rcases hc with hdigit | h | h | h
    · exact absurd (hdigit.symm.trans hd) (by decide)
    · exact hpoint h
    · exact hminus h
    · exact hplus h
  unfold parseStarting
  simp only [if_neg (hne _ (by decide) (by decide) (by decide) (by decide) : c ≠ byte 'n'),
    if_neg (hne _ (by decide) (by decide) (by decide) (by decide) : c ≠ byte 't'),
    if_neg (hne _ (by decide) (by decide) (by decide) (by decide) : c ≠ byte 'f'),
    if_neg (hne _ (by decide) (by decide) (by decide) (by decide) : c ≠ quote),
    if_neg (hne _ (by decide) (by decide) (by decide) (by decide) : c ≠ byte '['),
    if_neg (hne _ (by decide) (by decide) (by decide) (by decide) : c ≠ openBrace)]

/-- What denotes a value is read as that value. -/
theorem readsAs_of_denotes {text : Bytes} {v : Json} (h : Denotes levels text v) : ReadsAs levels text v := by
  induction h with
  | null levels =>
    intro before rest _
    have htext : ascii "null" = byte 'n' :: ascii "ull" := by decide
    rw [htext, List.cons_append, parseValue_start levels before (by decide)]
    exact literal_append "null" .null rest
  | bool levels value =>
    intro before rest _
    cases value with
    | false =>
      have htext : ascii "false" = byte 'f' :: ascii "alse" := by decide
      rw [if_neg Bool.false_ne_true, htext, List.cons_append, parseValue_start levels before (by decide)]
      exact literal_append "false" (.bool false) rest
    | true =>
      have htext : ascii "true" = byte 't' :: ascii "rue" := by decide
      rw [if_pos rfl, htext, List.cons_append, parseValue_start levels before (by decide)]
      exact literal_append "true" (.bool true) rest
  | number levels token hrange =>
    intro before rest hstops
    obtain ⟨c, tail, hcons, hc⟩ := token.exists_cons_text
    obtain ⟨d, tail', hcons', hblank, -⟩ := exists_cons_of_denotes (Denotes.number levels token hrange)
    obtain rfl : c = d := (List.cons.inj (hcons.symm.trans hcons')).1
    have hnumber := parseNumber_text hrange hstops
    rw [hcons, List.cons_append] at hnumber ⊢
    rw [parseValue_start levels before hblank, parseStarting_number _ hc, hnumber]
  | string levels characters =>
    intro before rest _
    have hstarting : ∀ more, parseStarting (Parser.parseValue levels) 0x22 more =
        (Parser.parseString (0x22 :: more)).map fun read => (.string read.1, read.2) := fun more => rfl
    rw [stringText, List.cons_append, List.cons_append, parseValue_start levels before (by decide), hstarting]
    exact congrArg (Except.map fun read => (Json.string read.1, read.2)) (parseString_text characters rest)
  | array levels elements blank hdenotes ih =>
    intro before rest _
    have htext : byte '[' :: [byte ','].intercalate (elements.map fun e => e.wrap e.inner.1) ++ blank.val ++ [byte ']'] ++
        rest = byte '[' :: (elementsText elements ++ (blank.val ++ byte ']' :: rest)) := by
      simp [elementsText]
    rw [htext, parseValue_start levels before (by decide)]
    exact parseArray_elements hdenotes ih blank rest
  | object levels members blank hdenotes ih =>
    intro before rest _
    have htext : openBrace :: [byte ','].intercalate (members.map memberText) ++ blank.val ++ [closeBrace] ++ rest =
        openBrace :: (membersText members ++ (blank.val ++ closeBrace :: rest)) := by
      simp [membersText]
    refine (congrArg (fun t => Parser.parseValue (levels + 1) (before.val ++ t)) htext).trans ?_
    rw [parseValue_start levels before (by decide)]
    exact parseObject_members ih blank rest

end Complete

/-- A text is a document of the dialect, with blanks around its value. -/
def IsDocument (text : Bytes) (v : Json) : Prop :=
  ∃ (before : Blank) (inner : Bytes) (after : Blank),
    text = before.val ++ inner ++ after.val ∧ Denotes 64 inner v

theorem failureText_ne_nil (failure : Failure) (size : ℕ) : failure.text size ≠ [] := by
  have hoffset : ascii " at offset " ≠ [] := by decide
  simp [Failure.text, hoffset]

/-- The end of a text is reached exactly if only blanks are left. -/
theorem skipWhitespace_eq_nil {rest : Bytes} : skipWhitespace rest = [] ↔ ∃ after : Blank, rest = after.val := by
  constructor
  · intro h
    obtain ⟨after, hrest⟩ := exists_blank rest
    rw [h, List.append_nil] at hrest
    exact ⟨after, hrest⟩
  · rintro ⟨after, rfl⟩
    have hall := skipWhitespace_blank after []
    rwa [List.append_nil] at hall

theorem parse_of_isDocument {text : Bytes} {v : Json} (h : IsDocument text v) : Json.parse text = (v, []) := by
  obtain ⟨before, inner, after, rfl, hdenotes⟩ := h
  have hread := readsAs_of_denotes hdenotes before after.val (delimited_of_stops (stops_of_blank after) v)
  have hskip : skipWhitespace after.val = [] := skipWhitespace_eq_nil.mpr ⟨after, rfl⟩
  rw [List.append_assoc]
  simp only [Json.parse, hread, hskip, ne_eq, not_true_eq_false, if_false]

/-- A text is either a document, or nothing is read and there is an error. -/
theorem parse_cases (text : Bytes) :
    (∃ v, IsDocument text v) ∨ (Json.parse text).1 = .null ∧ (Json.parse text).2 ≠ [] := by
  cases hread : Parser.parseValue 64 text with
  | error failure =>
    have hparse : Json.parse text = (.null, failure.text text.length) := by simp only [Json.parse, hread]
    rw [hparse]
    exact Or.inr ⟨rfl, failureText_ne_nil failure _⟩
  | ok read =>
    obtain ⟨v, rest⟩ := read
    obtain ⟨before, inner, htext, hdenotes⟩ := recognises_parseValue 64 text v rest hread
    by_cases hskip : skipWhitespace rest = []
    · obtain ⟨after, rfl⟩ := skipWhitespace_eq_nil.mp hskip
      exact Or.inl ⟨v, before, inner, after, htext, hdenotes⟩
    · have hparse : Json.parse text = (.null, ascii "trailing data after JSON document") := by
        simp only [Json.parse, hread, ne_eq, hskip, not_false_eq_true, if_true]
      rw [hparse]
      exact Or.inr ⟨rfl, by decide⟩

/-- The parser reads a text as a value exactly if it is a document of its dialect that denotes that
value, so no text denotes two, and it reports an error on every other text. -/
theorem parse_language (text : Bytes) :
    (∀ v, Json.parse text = (v, []) ↔ IsDocument text v) ∧
      ((Json.parse text).2 ≠ [] ↔ ∀ v, ¬ IsDocument text v) ∧
      ((Json.parse text).2 ≠ [] → (Json.parse text).1 = .null) := by
  have hnone : (Json.parse text).2 ≠ [] → ∀ v, ¬ IsDocument text v := by
    intro herror v hdocument
    exact herror (congrArg Prod.snd (parse_of_isDocument hdocument))
  rcases parse_cases text with ⟨v, hdocument⟩ | ⟨hnull, herror⟩
  · have hparse := parse_of_isDocument hdocument
    refine ⟨fun w => ⟨fun hw => ?_, parse_of_isDocument⟩, ⟨hnone, fun h => absurd hdocument (h v)⟩, fun herror =>
      absurd hdocument (hnone herror v)⟩
    rw [hparse] at hw
    cases hw
    exact hdocument
  · refine ⟨fun w => ⟨fun hw => absurd (congrArg Prod.snd hw) herror, parse_of_isDocument⟩,
      ⟨hnone, fun _ => herror⟩, fun _ => hnull⟩

end NetworkHealth.Daemon.Json.Grammar.Dialect
