import NetworkHealth.Library.JsonIndent

/-! Texts that a JavaScript engine reads as a value, whoever wrote them: the parts of a compact
text are put together as its values are. -/
namespace NetworkHealth

/-- A text with no blank before it, and which does not start with what closes an array. -/
def Starts (text : CodeUnits) : Prop := ∃ c rest, text = c :: rest ∧ isJsonSpace c = false ∧ c ≠ unit ']'

/-- A literal in its quotation marks, as the string it stands for. -/
def StringReadsAs (text value : CodeUnits) : Prop :=
  ∃ body, text = quotationMark :: body ∧ ∀ rest, parseString (body ++ rest) = some (value, rest)

theorem parseMember_name {α : Type} {value : CodeUnits → Option (α × CodeUnits)} {t k u rest after : CodeUnits}
    {a : α} (hname : StringReadsAs k u) (h : value (t ++ rest) = some (a, after)) :
    parseMember value (k ++ unit ':' :: t ++ rest) = some ((u, a), after) := by
  obtain ⟨body, rfl, hread⟩ := hname
  have hquote : isJsonSpace quotationMark = false := by decide
  have hcolon : isJsonSpace (unit ':') = false := by decide
  simp only [List.cons_append, List.append_assoc, parseMember, skipSpace_cons hquote, if_true, hread,
    Option.bind_eq_bind, Option.bind_some, skipSpace_cons hcolon, h]

theorem StringReadsAs.starts {text value : CodeUnits} (h : StringReadsAs text value) : Starts text := by
  obtain ⟨body, rfl, -⟩ := h
  exact ⟨quotationMark, body, rfl, by decide, by decide⟩

variable {F : Type} [NumberFormat F]

theorem StringReadsAs.readsAs {text value : CodeUnits} (h : StringReadsAs text value) (fuel : ℕ) :
    ReadsAs (F := F) (fuel + 1) text (.string value) := by
  obtain ⟨body, rfl, hread⟩ := h
  intro rest _
  have hspace : isJsonSpace quotationMark = false := by decide
  have hbracket : quotationMark ≠ unit '[' := by decide
  have hbrace : quotationMark ≠ openBrace := by decide
  simp only [List.cons_append, parseValue, skipSpace_cons hspace, if_neg hbracket, if_neg hbrace, if_true, hread rest]
  rfl

theorem readsAs_null (fuel : ℕ) : ReadsAs (F := F) (fuel + 1) (units "null") .null := fun _ _ => rfl

theorem readsAs_bool (fuel : ℕ) (value : Bool) :
    ReadsAs (F := F) (fuel + 1) (if value then units "true" else units "false") (.bool value) := by
  intro rest _
  cases value <;> rfl

theorem starts_number {text : CodeUnits} {q : ℚ} (h : jsonNumber text = some q) : Starts text := by
  obtain ⟨-, c, rest, rfl, hc⟩ := all_jsonNumber h
  refine ⟨c, rest, rfl, ?_⟩
  rcases hc with hdigit | rfl
  · exact ⟨isJsonSpace_of_isDigit hdigit, ne_of_isDigit hdigit (by decide)⟩
  · exact ⟨by decide, by decide⟩

theorem readsAs_number {text : CodeUnits} {q : ℚ} (h : jsonNumber text = some q) (fuel : ℕ) :
    ReadsAs (F := F) (fuel + 1) text (.number (NumberFormat.nearest q)) := by
  intro rest hrest
  obtain ⟨hall, c, tail, hcons, hc⟩ := all_jsonNumber h
  have htake : (text ++ rest).takeWhile isNumberUnit = text := by
    rw [List.takeWhile_append_of_pos (List.all_eq_true.mp hall)]
    cases rest with
    | nil => simp
    | cons d rest => simp [hrest d rfl]
  have hdrop : (text ++ rest).dropWhile isNumberUnit = rest := by
    rw [List.dropWhile_append_of_pos (List.all_eq_true.mp hall)]
    cases rest with
    | nil => simp
    | cons d rest => simp [hrest d rfl]
  have hnumber : parseNumber (F := F) (text ++ rest) = some (.number (NumberFormat.nearest q), rest) := by
    simp only [parseNumber, htake, hdrop, h, Option.map_some]
  have hother : isJsonSpace c = false ∧ ∀ d, isDigit d = false → d ≠ unit '-' → c ≠ d := by
    rcases hc with hdigit | rfl
    · exact ⟨isJsonSpace_of_isDigit hdigit, fun d hd _ => ne_of_isDigit hdigit hd⟩
    · exact ⟨by decide, fun d _ hd => hd.symm⟩
  obtain ⟨hspace, hne⟩ := hother
  rw [hcons, List.cons_append] at hnumber ⊢
  simp only [parseValue, skipSpace_cons hspace, hnumber,
    if_neg (hne (unit '[') (by decide) (by decide)), if_neg (hne openBrace (by decide) (by decide)),
    if_neg (hne quotationMark (by decide) (by decide)), if_neg (hne (unit 'n') (by decide) (by decide)),
    if_neg (hne (unit 't') (by decide) (by decide)), if_neg (hne (unit 'f') (by decide) (by decide))]

section Containers
variable {α : Type} {fuel : ℕ} {items : List α} {text : α → CodeUnits} {value : α → JsonValue F}

theorem readsAs_array (hitems : ∀ a ∈ items, ReadsAs fuel (text a) (value a)) (hstarts : ∀ a ∈ items, Starts (text a))
    (hfuel : items.length ≤ fuel) :
    ReadsAs (fuel + 1) (unit '[' :: commaSeparated (items.map text) ++ [unit ']']) (.array (items.map value)) := by
  intro rest _
  have hread : parseBracket (parseValue fuel) (unit ']') fuel (commaSeparated (items.map text) ++ unit ']' :: rest) =
      some (items.map value, rest) := by
    apply @parseBracket_commaSeparated _ _ _ [] (by decide) (by decide) (by simp)
    · rw [List.forall₂_map_left_iff, List.forall₂_map_right_iff, List.forall₂_same]
      intro a ha c tail hc
      have hnext : c = unit ']' ∨ c = unit ',' ∨ isJsonSpace c = true := Or.imp_right (Or.imp_right (by simp)) hc
      exact (hitems a ha).before (by decide) hnext tail
    · intro t ht
      obtain ⟨a, ha, rfl⟩ := List.mem_map.mp (List.mem_of_mem_head? ht)
      exact hstarts a ha
    · simpa using hfuel
  have hspace : isJsonSpace (unit '[') = false := by decide
  simp only [List.cons_append, List.append_assoc, List.nil_append, parseValue, skipSpace_cons hspace, if_true, hread]
  rfl

variable {name key : α → CodeUnits}

theorem readsAs_object (hnames : ∀ a ∈ items, StringReadsAs (name a) (key a))
    (hitems : ∀ a ∈ items, ReadsAs fuel (text a) (value a)) (hfuel : items.length ≤ fuel) :
    ReadsAs (fuel + 1) (openBrace :: commaSeparated (items.map fun a => name a ++ unit ':' :: text a) ++ [closeBrace])
      (.object (items.map fun a => (key a, value a))) := by
  intro rest _
  have hread : parseBracket (parseMember (parseValue fuel)) closeBrace fuel
      (commaSeparated (items.map fun a => name a ++ unit ':' :: text a) ++ closeBrace :: rest) =
      some (items.map fun a => (key a, value a), rest) := by
    apply @parseBracket_commaSeparated _ _ _ [] (by decide) (by decide) (by simp)
    · rw [List.forall₂_map_left_iff, List.forall₂_map_right_iff, List.forall₂_same]
      intro a ha c tail hc
      have hnext : c = closeBrace ∨ c = unit ',' ∨ isJsonSpace c = true := Or.imp_right (Or.imp_right (by simp)) hc
      exact parseMember_name (hnames a ha) ((hitems a ha).before (by decide) hnext tail)
    · intro t ht
      obtain ⟨a, ha, rfl⟩ := List.mem_map.mp (List.mem_of_mem_head? ht)
      obtain ⟨body, hname, -⟩ := hnames a ha
      exact ⟨quotationMark, _, by rw [hname, List.cons_append], by decide, by decide⟩
    · simpa using hfuel
  have hspace : isJsonSpace openBrace = false := by decide
  have hbracket : openBrace ≠ unit '[' := by decide
  simp only [List.cons_append, List.append_assoc, List.nil_append, parseValue, skipSpace_cons hspace, if_neg hbracket,
    if_true, hread]
  rfl

end Containers

/-- A text that is read with its own length as fuel is a document. -/
theorem parse_of_readsAs {text : CodeUnits} {v : JsonValue F} (h : ReadsAs (text.length + 1) text v) :
    JsonValue.parse text = some v := by
  have hread := h [] (by simp)
  have hspace : skipSpace [] = [] := rfl
  rw [List.append_nil] at hread
  simp only [JsonValue.parse, hread, Option.bind_eq_bind, Option.bind_some, hspace, if_true]

end NetworkHealth
