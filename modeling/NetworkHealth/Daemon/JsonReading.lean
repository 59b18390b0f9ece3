import NetworkHealth.Daemon.JsonText

/-! What the parser does in one round of its loops, and that every reading leaves less of the
text than there was, so that the loops never run out of rounds. -/
namespace NetworkHealth.Daemon.Json.Parser
open CNumber (byte)

section Consumption

theorem length_hexDigits {n out x : ℕ} {text rest : Bytes} (h : hexDigits n out text = .ok (x, rest)) :
    rest.length + n = text.length := by
  induction n generalizing out text with
  | zero =>
    cases h
    rfl
  | succ n ih =>
    cases text with
    | nil => cases h
    | cons c text =>
      simp only [hexDigits] at h
      cases hc : hexValue c with
      | none =>
        rw [hc] at h
        cases h
      | some d =>
        rw [hc] at h
        have hlen := ih h
        simp only [List.length_cons]
        omega

theorem length_parseHex4 {text rest : Bytes} {x : ℕ} (h : parseHex4 text = .ok (x, rest)) :
    rest.length + 4 = text.length := by
  unfold parseHex4 at h
  split_ifs at h
  · cases h
  · exact length_hexDigits h

/-- The bind of two readings, taken apart. -/
theorem bind_ok {ε α β : Type} {x : Except ε α} {f : α → Except ε β} {b : β} (h : x.bind f = .ok b) :
    ∃ a, x = .ok a ∧ f a = .ok b := by
  cases x with
  | error e => cases h
  | ok a => exact ⟨a, rfl, h⟩

theorem map_ok {ε α β : Type} {x : Except ε α} {f : α → β} {b : β} (h : x.map f = .ok b) :
    ∃ a, x = .ok a ∧ f a = b := by
  cases x with
  | error e => cases h
  | ok a =>
    cases h
    exact ⟨a, rfl, rfl⟩

theorem length_unicodeEscape {text bytes rest : Bytes} (h : unicodeEscape text = .ok (bytes, rest)) :
    rest.length < text.length := by
  obtain ⟨first, hfirst, h⟩ := bind_ok h
  have hlen := length_parseHex4 hfirst
  split_ifs at h with hpair
  · obtain ⟨next, hnext, h⟩ := map_ok h
    have hlenNext := length_parseHex4 hnext
    rw [List.length_drop] at hlenNext
    cases h
    omega
  · cases h
    omega

theorem length_stringRound {s : Bytes × Bytes} {r : Round (Bytes × Bytes)} (h : stringRound s = .ok r) :
    left r.state < left s := by
  obtain ⟨out, text⟩ := s
  cases text with
  | nil => cases h
  | cons c text =>
    simp only [stringRound] at h
    split_ifs at h with hquote hplain
    · cases h
      simp [left]
    · cases h
      simp [left]
    · cases text with
      | nil => cases h
      | cons esc text =>
        simp only at h
        split_ifs at h
        · obtain ⟨read, hread, rfl⟩ := map_ok h
          have hlen := length_unicodeEscape hread
          simp only [left, Round.state_next, List.length_cons]
          omega
        · cases hesc : simpleEscape esc with
          | none =>
            rw [hesc] at h
            cases h
          | some b =>
            rw [hesc] at h
            cases h
            simp only [left, Round.state_next, List.length_cons]
            omega

theorem shrinks_stringRound : Shrinks stringRound left := fun _ _ h => length_stringRound h

theorem length_parseCharacters {s last : Bytes × Bytes} (h : parseCharacters s = .ok last) :
    left last < left s := by
  refine loop_ok (fun t => left t ≤ left s) (fun t => left t < left s) shrinks_stringRound ?_ ?_ (le_refl _) h
  · intro t t' ht hround
    exact (length_stringRound hround).le.trans ht
  · intro t t' ht hround
    exact (length_stringRound hround).trans_le ht

theorem length_parseString {text bytes rest : Bytes} (h : parseString text = .ok (bytes, rest)) :
    rest.length < text.length := by
  unfold parseString at h
  split_ifs at h with hquote
  · cases h
  · have hlen := length_parseCharacters h
    simp only [left, List.length_tail] at hlen
    omega

theorem length_parseNumber {text rest : Bytes} {value : Json} (h : parseNumber text = .ok (value, rest)) :
    rest.length < text.length := by
  simp only [parseNumber] at h
  split_ifs at h with htoken
  · cases h
  · split at h
    · cases h
    · split_ifs at h <;> cases h
      rw [List.take_eq_nil_iff] at htoken
      omega

theorem length_literal {word : String} {value v : Json} {text rest : Bytes} (hword : 0 < (ascii word).length)
    (h : literal word value text = .ok (v, rest)) : rest.length < text.length := by
  unfold literal at h
  split_ifs at h with hprefix
  · cases h
  · cases h
    rw [not_not] at hprefix
    have hlen := congrArg List.length hprefix
    rw [List.length_take] at hlen
    rw [List.length_drop]
    omega

theorem length_skipWhitespace (text : Bytes) : (skipWhitespace text).length ≤ text.length :=
  (List.dropWhile_suffix _).length_le

theorem length_separator {closing : UInt8} {unterminated expected : String} {out : Json} {text : Bytes}
    {r : Round (Json × Bytes)} (h : separator closing unterminated expected out text = .ok r) :
    left r.state < text.length := by
  have hskip := length_skipWhitespace text
  unfold separator at h
  split at h
  · cases h
  · rename_i c rest heq
    rw [heq, List.length_cons] at hskip
    split_ifs at h <;> cases h <;> simp only [left, Round.state_next, Round.state_done] <;> omega

/-- Reading a value leaves less of the text. -/
def Consumes (pv : Bytes → Reading Json) : Prop := ∀ text v rest, pv text = .ok (v, rest) → rest.length < text.length

variable {pv : Bytes → Reading Json}

theorem length_arrayRound (hpv : Consumes pv) {s : Json × Bytes} {r : Round (Json × Bytes)}
    (h : arrayRound pv s = .ok r) :
    left r.state < left s := by
  obtain ⟨item, hitem, h⟩ := bind_ok h
  exact (length_separator h).trans (hpv _ _ _ hitem)

theorem length_objectRound (hpv : Consumes pv) {s : Json × Bytes} {r : Round (Json × Bytes)}
    (h : objectRound pv s = .ok r) :
    left r.state < left s := by
  obtain ⟨key, hkey, h⟩ := bind_ok h
  have hlenKey := length_parseString hkey
  have hskip := length_skipWhitespace s.2
  have hskipKey := length_skipWhitespace key.2
  simp only at h
  split_ifs at h with hcolon
  · cases h
  · obtain ⟨value, hvalue, h⟩ := bind_ok h
    have hlen := hpv _ _ _ hvalue
    rw [List.length_tail] at hlen
    have hsep := length_separator h
    have hle : value.2.length < s.2.length := by omega
    exact hsep.trans hle

theorem shrinks_arrayRound (hpv : Consumes pv) : Shrinks (arrayRound pv) left := fun _ _ h => length_arrayRound hpv h

theorem shrinks_objectRound (hpv : Consumes pv) : Shrinks (objectRound pv) left := fun _ _ h =>
  length_objectRound hpv h

/-- A loop each round of which leaves less, leaves less. -/
theorem length_loop {round : Json × Bytes → Except Failure (Round (Json × Bytes))}
    (hround : ∀ s r, round s = .ok r → left r.state < left s)
    {s last : Json × Bytes} (h : loop round exhausted left s = .ok last) : left last < left s := by
  refine loop_ok (fun t => left t ≤ left s) (fun t => left t < left s) (fun _ _ h => hround _ _ h) ?_ ?_ (le_refl _) h
  · intro t t' ht hok
    exact (hround _ _ hok).le.trans ht
  · intro t t' ht hok
    exact (hround _ _ hok).trans_le ht

theorem length_parseArray (hpv : Consumes pv) {text rest : Bytes} {value : Json}
    (h : parseArray pv text = .ok (value, rest)) : rest.length ≤ text.length := by
  have hskip := length_skipWhitespace text
  simp only [parseArray] at h
  split_ifs at h
  · cases h
    rw [List.length_tail]
    omega
  · have hlen := length_loop (fun _ _ h => length_arrayRound hpv h) h
    exact hlen.le.trans hskip

theorem length_parseObject (hpv : Consumes pv) {text rest : Bytes} {value : Json}
    (h : parseObject pv text = .ok (value, rest)) : rest.length ≤ text.length := by
  have hskip := length_skipWhitespace text
  simp only [parseObject] at h
  split_ifs at h
  · cases h
    rw [List.length_tail]
    omega
  · have hlen := length_loop (fun _ _ h => length_objectRound hpv h) h
    exact hlen.le.trans hskip

theorem consumes_parseValue (levels : ℕ) : Consumes (parseValue levels) := by
  induction levels with
  | zero =>
    intro text v rest h
    cases h
  | succ levels ih =>
    intro text v rest h
    have hskip := length_skipWhitespace text
    simp only [parseValue, parseValueInner] at h
    split at h
    · cases h
    · rename_i c tail heq
      rw [heq] at hskip
      refine lt_of_lt_of_le ?_ hskip
      unfold parseStarting at h
      split_ifs at h
      · exact length_literal (by decide) h
      · exact length_literal (by decide) h
      · exact length_literal (by decide) h
      · obtain ⟨read, hread, h⟩ := map_ok h
        cases h
        exact length_parseString hread
      · exact Nat.lt_succ_of_le (length_parseArray ih h)
      · exact Nat.lt_succ_of_le (length_parseObject ih h)
      · exact length_parseNumber h

end Consumption

section Rounds

theorem fail_ne {α : Type} {message : String} (h : ascii message ≠ []) (rest : Bytes) :
    (fail message rest : Except Failure α) ≠ .error exhausted := by
  intro he
  exact h (congrArg Failure.message (Except.error.inj he))

theorem bind_ne {ε α β : Type} {x : Except ε α} {f : α → Except ε β} {e : ε} (h : x ≠ .error e)
    (hf : ∀ a, f a ≠ .error e) : x.bind f ≠ .error e := by
  cases x with
  | error e' => exact fun he => h (by cases he; rfl)
  | ok a => exact hf a

theorem map_ne {ε α β : Type} {x : Except ε α} {f : α → β} {e : ε} (h : x ≠ .error e) : x.map f ≠ .error e := by
  cases x with
  | error e' => exact fun he => h (by cases he; rfl)
  | ok a => nofun

theorem hexDigits_ne {n : ℕ} {text : Bytes} (h : n ≤ text.length) (out : ℕ) :
    hexDigits n out text ≠ .error exhausted := by
  induction n generalizing out text with
  | zero => nofun
  | succ n ih =>
    cases text with
    | nil => simp at h
    | cons c rest =>
      simp only [hexDigits]
      cases hexValue c with
      | none => exact fail_ne (by decide) rest
      | some d => exact ih (Nat.le_of_succ_le_succ h) _

theorem parseHex4_ne (text : Bytes) : parseHex4 text ≠ .error exhausted := by
  unfold parseHex4
  split_ifs with hlen
  · exact fail_ne (by decide) text
  · exact hexDigits_ne (not_lt.mp hlen) 0

theorem unicodeEscape_ne (text : Bytes) : unicodeEscape text ≠ .error exhausted := by
  refine bind_ne (parseHex4_ne text) fun read => ?_
  split_ifs
  · exact map_ne (parseHex4_ne _)
  · nofun

theorem stringRound_ne (s : Bytes × Bytes) : stringRound s ≠ .error exhausted := by
  obtain ⟨out, text⟩ := s
  cases text with
  | nil => exact fail_ne (by decide) []
  | cons c rest =>
    simp only [stringRound]
    split_ifs
    · nofun
    · nofun
    · cases rest with
      | nil => exact fail_ne (by decide) []
      | cons esc rest =>
        simp only
        split_ifs
        · exact map_ne (unicodeEscape_ne rest)
        · cases simpleEscape esc with
          | none => exact fail_ne (by decide) rest
          | some b => nofun

theorem parseString_ne (text : Bytes) : parseString text ≠ .error exhausted := by
  unfold parseString
  split_ifs
  · exact fail_ne (by decide) text
  · exact loop_ne_exhausted shrinks_stringRound stringRound_ne _

theorem separator_ne {closing : UInt8} {unterminated expected : String} (hu : ascii unterminated ≠ [])
    (he : ascii expected ≠ []) (out : Json) (text : Bytes) :
    separator closing unterminated expected out text ≠ .error exhausted := by
  unfold separator
  split
  · exact fail_ne hu []
  · split_ifs
    · nofun
    · nofun
    · exact fail_ne he _

theorem parseNumber_ne (text : Bytes) : parseNumber text ≠ .error exhausted := by
  simp only [parseNumber]
  split_ifs
  · exact fail_ne (by decide) _
  · split
    · exact fail_ne (by decide) _
    · split_ifs
      · exact fail_ne (by decide) _
      · nofun

theorem literal_ne (word : String) (value : Json) (text : Bytes) : literal word value text ≠ .error exhausted := by
  unfold literal
  split_ifs
  · exact fail_ne (by decide) text
  · nofun

theorem arrayRound_ne (hpv : ∀ text, pv text ≠ .error exhausted) (s : Json × Bytes) :
    arrayRound pv s ≠ .error exhausted :=
  bind_ne (hpv s.2) fun _ => separator_ne (by decide) (by decide) _ _

theorem objectRound_ne (hpv : ∀ text, pv text ≠ .error exhausted) (s : Json × Bytes) :
    objectRound pv s ≠ .error exhausted := by
  refine bind_ne (parseString_ne _) fun key => ?_
  simp only
  split_ifs
  · exact fail_ne (by decide) _
  · exact bind_ne (hpv _) fun value => separator_ne (by decide) (by decide) _ _

/-- The loops of the parser end before they run out of rounds, whatever the text. -/
theorem parseValue_ne_exhausted (levels : ℕ) (text : Bytes) : parseValue levels text ≠ .error exhausted := by
  induction levels generalizing text with
  | zero => exact fail_ne (by decide) text
  | succ levels ih =>
    have hconsumes := consumes_parseValue levels
    simp only [parseValue, parseValueInner]
    split
    · exact fail_ne (by decide) []
    · unfold parseStarting
      split_ifs
      · exact literal_ne _ _ _
      · exact literal_ne _ _ _
      · exact literal_ne _ _ _
      · exact map_ne (parseString_ne _)
      · simp only [parseArray]
        split_ifs
        · nofun
        · exact loop_ne_exhausted (shrinks_arrayRound hconsumes) (arrayRound_ne ih) _
      · simp only [parseObject]
        split_ifs
        · nofun
        · exact loop_ne_exhausted (shrinks_objectRound hconsumes) (objectRound_ne ih) _
      · exact parseNumber_ne _

end Rounds

section Characters

/-- A piece of a string that is read on its own, whatever follows. -/
def Reads (text bytes : Bytes) : Prop :=
  ∀ out rest, parseCharacters (out, text ++ rest) = parseCharacters (out ++ bytes, rest)

theorem Reads.nil : Reads [] [] := by
  intro out rest
  rw [List.append_nil, List.nil_append]

theorem Reads.append {text bytes text' bytes' : Bytes} (h : Reads text bytes) (h' : Reads text' bytes') :
    Reads (text ++ text') (bytes ++ bytes') := by
  intro out rest
  rw [List.append_assoc, h, h', List.append_assoc]

theorem Reads.flatMap {α : Type} {text bytes : α → Bytes} {items : List α}
    (h : ∀ item ∈ items, Reads (text item) (bytes item)) : Reads (items.flatMap text) (items.flatMap bytes) := by
  induction items with
  | nil => exact Reads.nil
  | cons item rest ih =>
    rw [List.flatMap_cons, List.flatMap_cons]
    exact (h item List.mem_cons_self).append (ih fun item hitem => h item (List.mem_cons_of_mem _ hitem))

theorem reads_plain {c : UInt8} (hquote : c ≠ quote) (hbackslash : c ≠ backslash) : Reads [c] [c] := by
  intro out rest
  apply loop_next shrinks_stringRound
  simp only [List.cons_append, List.nil_append, stringRound, if_neg hquote, if_pos hbackslash]

theorem reads_simple {esc b : UInt8} (h : simpleEscape esc = some b) : Reads [backslash, esc] [b] := by
  intro out rest
  have hu : esc ≠ byte 'u' := by
    rintro rfl
    cases h
  apply loop_next shrinks_stringRound
  have hquote : backslash ≠ quote := by decide
  simp only [List.cons_append, List.nil_append, stringRound, if_neg hquote, ne_eq, not_true_eq_false, if_false,
    if_neg hu, h]

theorem parseCharacters_unicode {text bytes rest : Bytes} (h : unicodeEscape text = .ok (bytes, rest)) (out : Bytes) :
    parseCharacters (out, backslash :: byte 'u' :: text) = parseCharacters (out ++ bytes, rest) := by
  apply loop_next shrinks_stringRound
  have hquote : backslash ≠ quote := by decide
  simp only [stringRound, if_neg hquote, ne_eq, not_true_eq_false, if_false, if_true, h, Except.map]

theorem parseString_of_reads {text bytes : Bytes} (h : Reads text bytes) (rest : Bytes) :
    parseString (quote :: text ++ quote :: rest) = .ok (bytes, rest) := by
  have hhead : (quote :: text ++ quote :: rest).head? = some quote := rfl
  rw [parseString, if_neg (not_not.mpr hhead), List.cons_append, List.tail_cons, h]
  exact loop_done rfl

end Characters

end NetworkHealth.Daemon.Json.Parser
