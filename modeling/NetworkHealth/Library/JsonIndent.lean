import NetworkHealth.Library.JsonText

/-! JSON texts with an item to a line, as `JSON.stringify` writes them with an indentation. They
are read back like the others. -/
namespace NetworkHealth
variable {F : Type} [NumberFormat F]

def lineBreak (gap : CodeUnits) (depth : ℕ) : CodeUnits := unit '\n' :: (List.replicate depth gap).flatten

/-- What follows an opening bracket. -/
def bracketBody (gap : CodeUnits) (depth : ℕ) (close : UInt16) : List CodeUnits → CodeUnits
  | [] => [close]
  | ts => commaSeparated (ts.map (lineBreak gap (depth + 1) ++ ·)) ++ lineBreak gap depth ++ [close]

namespace JsonValue

mutual

/-- `JSON.stringify(value, null, gap)`, at a depth. -/
def indented (gap : CodeUnits) : ℕ → JsonValue F → CodeUnits
  | depth, array items => unit '[' :: bracketBody gap depth (unit ']') (indentedItems gap (depth + 1) items)
  | depth, object members => openBrace :: bracketBody gap depth closeBrace (indentedMembers gap (depth + 1) members)
  | _, null => stringify (F := F) null
  | _, bool value => stringify (F := F) (bool value)
  | _, number value => stringify (number value)
  | _, string value => stringify (F := F) (string value)

def indentedItems (gap : CodeUnits) : ℕ → List (JsonValue F) → List CodeUnits
  | _, [] => []
  | depth, value :: rest => indented gap depth value :: indentedItems gap depth rest

def indentedMembers (gap : CodeUnits) : ℕ → List (CodeUnits × JsonValue F) → List CodeUnits
  | _, [] => []
  | depth, (key, value) :: rest =>
    (quote key ++ units ": " ++ indented gap depth value) :: indentedMembers gap depth rest

end

variable (gap : CodeUnits) (depth : ℕ)

theorem indentedItems_eq_map (items : List (JsonValue F)) :
    indentedItems gap depth items = items.map (indented gap depth) := by
  induction items with
  | nil => rfl
  | cons value rest ih => simp [indentedItems, ih]

theorem indentedMembers_eq_map (members : List (CodeUnits × JsonValue F)) :
    indentedMembers gap depth members = members.map fun m => quote m.1 ++ units ": " ++ indented gap depth m.2 := by
  induction members with
  | nil => rfl
  | cons member rest ih => simp [indentedMembers, ih]

end JsonValue

section ReadBack
variable {α : Type} {gap : CodeUnits} {depth : ℕ}

theorem isNumberUnit_of_isJsonSpace {c : UInt16} (h : isJsonSpace c = true) : isNumberUnit c = false := by
  simp only [isJsonSpace, Bool.or_eq_true, decide_eq_true_eq] at h
  rcases h with ((rfl | rfl) | rfl) | rfl <;> decide

theorem isJsonSpace_of_mem_lineBreak (hgap : ∀ c ∈ gap, isJsonSpace c = true) (depth : ℕ) :
    ∀ c ∈ lineBreak gap depth, isJsonSpace c = true := by
  intro c hc
  rcases List.mem_cons.mp hc with rfl | hc
  · decide
  · obtain ⟨piece, hpiece, hmem⟩ := List.mem_flatten.mp hc
    rw [(List.mem_replicate.mp hpiece).2] at hmem
    exact hgap c hmem

theorem parseValue_space {space : CodeUnits} (h : ∀ c ∈ space, isJsonSpace c = true) (fuel : ℕ) (cs : CodeUnits) :
    parseValue (F := F) fuel (space ++ cs) = parseValue fuel cs := by
  cases fuel with
  | zero => rfl
  | succ fuel => rw [parseValue, parseValue, skipSpace_append h]

theorem parseMember_space {space : CodeUnits} (h : ∀ c ∈ space, isJsonSpace c = true)
    (value : CodeUnits → Option (α × CodeUnits)) (cs : CodeUnits) :
    parseMember value (space ++ cs) = parseMember value cs := by
  rw [parseMember, parseMember, skipSpace_append h]

theorem parseBracket_space {space : CodeUnits} (h : ∀ c ∈ space, isJsonSpace c = true)
    (item : CodeUnits → Option (α × CodeUnits)) (close : UInt16) (fuel : ℕ) (cs : CodeUnits) :
    parseBracket item close fuel (space ++ cs) = parseBracket item close fuel cs := by
  rw [parseBracket, parseBracket, skipSpace_append h]

/-- A body is read back item by item: the first line break stands before the list, each other one
before its item, and the last one before the closing bracket. -/
theorem parseBracket_bracketBody {item : CodeUnits → Option (α × CodeUnits)} {close : UInt16}
    (hgap : ∀ c ∈ gap, isJsonSpace c = true) (hclose : isJsonSpace close = false) (hcomma : close ≠ unit ',')
    (hskip : ∀ space cs, (∀ c ∈ space, isJsonSpace c = true) → item (space ++ cs) = item cs)
    {ts : List CodeUnits} {as : List α} (hitem : List.Forall₂ (fun t a => ∀ c rest,
      c = close ∨ c = unit ',' ∨ isJsonSpace c = true → item (t ++ c :: rest) = some (a, c :: rest)) ts as)
    (hhead : ∀ t ∈ ts, ∃ c rest, t = c :: rest ∧ isJsonSpace c = false ∧ c ≠ close) {fuel : ℕ}
    (hfuel : ts.length ≤ fuel) (rest : CodeUnits) :
    parseBracket item close fuel (bracketBody gap depth close ts ++ rest) = some (as, rest) := by
  have hinner := isJsonSpace_of_mem_lineBreak hgap (depth + 1)
  have houter := isJsonSpace_of_mem_lineBreak hgap depth
  cases hitem with
  | nil => simp [bracketBody, parseBracket, skipSpace_cons hclose]
  | @cons t a ts as ht hts =>
    have hfirst : commaSeparated ((t :: ts).map (lineBreak gap (depth + 1) ++ ·)) =
        lineBreak gap (depth + 1) ++ commaSeparated (t :: ts.map (lineBreak gap (depth + 1) ++ ·)) := by
      cases ts <;> simp [commaSeparated]
    have hnext : ∀ c : UInt16, c = close ∨ c = unit ',' ∨ c ∈ lineBreak gap depth →
        c = close ∨ c = unit ',' ∨ isJsonSpace c = true := fun c => Or.imp_right (Or.imp_right (houter c))
    have hitems : List.Forall₂ (fun t a => ∀ c rest, c = close ∨ c = unit ',' ∨ c ∈ lineBreak gap depth →
        item (t ++ c :: rest) = some (a, c :: rest)) (t :: ts.map (lineBreak gap (depth + 1) ++ ·)) (a :: as) := by
      refine .cons (fun c rest hc => ht c rest (hnext c hc)) ?_
      rw [List.forall₂_map_left_iff]
      refine hts.imp fun t a ht c rest hc => ?_
      rw [List.append_assoc, hskip _ _ hinner]
      exact ht c rest (hnext c hc)
    have hread := parseBracket_commaSeparated hclose hcomma houter hitems
      (by simpa using hhead t (by simp)) (by simpa using hfuel) rest
    rw [bracketBody, hfirst, List.append_assoc, List.append_assoc, List.append_assoc, parseBracket_space hinner]
    · exact hread
    · simp

section Bounds
variable (gap : CodeUnits) (depth : ℕ)

theorem count_le_bracketBody (close : UInt16) (ts : List CodeUnits) :
    ts.length ≤ (bracketBody gap depth close ts).length := by
  cases ts with
  | nil => simp
  | cons t ts =>
    have hcount := count_le_commaSeparated ((t :: ts).map (lineBreak gap (depth + 1) ++ ·))
    rw [List.length_map] at hcount
    simp only [bracketBody, List.length_append, List.length_cons, List.length_nil] at hcount ⊢
    omega

theorem length_lt_bracketBody (close : UInt16) {t : CodeUnits} {ts : List CodeUnits} (h : t ∈ ts) :
    t.length < (bracketBody gap depth close ts).length := by
  have hle := length_le_commaSeparated (List.mem_map_of_mem (f := (lineBreak gap (depth + 1) ++ ·)) h)
  cases ts with
  | nil => cases h
  | cons u us =>
    simp only [bracketBody, List.length_append, List.length_cons, List.length_nil] at hle ⊢
    omega

/-- The first unit is that of the text without line breaks. -/
theorem indented_head (v : JsonValue F) : ∃ c rest, v.indented gap depth = c :: rest ∧
    isJsonSpace c = false ∧ c ≠ unit ']' := by
  cases v with
  | array items => exact ⟨unit '[', _, by rw [JsonValue.indented], by decide, by decide⟩
  | object members => exact ⟨openBrace, _, by rw [JsonValue.indented], by decide, by decide⟩
  | null => simpa only [JsonValue.indented] using stringify_head (F := F) .null
  | bool value => simpa only [JsonValue.indented] using stringify_head (F := F) (.bool value)
  | number value => simpa only [JsonValue.indented] using stringify_head (.number value)
  | string value => simpa only [JsonValue.indented] using stringify_head (F := F) (.string value)

end Bounds

/-- What may follow an item is no part of a number. -/
theorem isNumberUnit_of_follows {close c : UInt16} (hclose : isNumberUnit close = false)
    (hc : c = close ∨ c = unit ',' ∨ isJsonSpace c = true) : isNumberUnit c = false := by
  rcases hc with rfl | rfl | hspace
  · exact hclose
  · decide
  · exact isNumberUnit_of_isJsonSpace hspace

/-- The reader gives a text back as a value, whatever follows it. -/
def ReadsAs (fuel : ℕ) (text : CodeUnits) (v : JsonValue F) : Prop :=
  ∀ rest : CodeUnits, (∀ c ∈ rest.head?, isNumberUnit c = false) → parseValue fuel (text ++ rest) = some (v, rest)

theorem ReadsAs.before {fuel : ℕ} {text : CodeUnits} {v : JsonValue F} (h : ReadsAs fuel text v) {close c : UInt16}
    (hclose : isNumberUnit close = false) (hc : c = close ∨ c = unit ',' ∨ isJsonSpace c = true) (rest : CodeUnits) :
    parseValue fuel (text ++ c :: rest) = some (v, c :: rest) :=
  h (c :: rest) (by simpa using isNumberUnit_of_follows hclose hc)

theorem parseBracket_indentedItems (hgap : ∀ c ∈ gap, isJsonSpace c = true) {fuel : ℕ} {items : List (JsonValue F)}
    (h : ∀ v ∈ items, ReadsAs fuel (v.indented gap (depth + 1)) v.plain) (hfuel : items.length ≤ fuel)
    (rest : CodeUnits) : parseBracket (parseValue fuel) (unit ']') fuel
      (bracketBody gap depth (unit ']') (items.map (JsonValue.indented gap (depth + 1))) ++ rest) =
        some (items.map JsonValue.plain, rest) := by
  apply parseBracket_bracketBody hgap (by decide) (by decide) (fun space cs hspace => parseValue_space hspace fuel cs)
  · rw [List.forall₂_map_left_iff, List.forall₂_map_right_iff, List.forall₂_same]
    exact fun v hv c rest hc => (h v hv).before (by decide) hc rest
  · intro t ht
    obtain ⟨v, -, rfl⟩ := List.mem_map.mp ht
    exact indented_head gap (depth + 1) v
  · rwa [List.length_map]

theorem parseBracket_indentedMembers (hgap : ∀ c ∈ gap, isJsonSpace c = true) {fuel : ℕ}
    {members : List (CodeUnits × JsonValue F)}
    (h : ∀ m ∈ members, ReadsAs fuel (m.2.indented gap (depth + 1)) m.2.plain) (hfuel : members.length ≤ fuel)
    (rest : CodeUnits) : parseBracket (parseMember (parseValue fuel)) closeBrace fuel
      (bracketBody gap depth closeBrace
        (members.map fun m => quote m.1 ++ units ": " ++ m.2.indented gap (depth + 1)) ++ rest) =
        some (members.map fun m => (m.1, m.2.plain), rest) := by
  apply parseBracket_bracketBody hgap (by decide) (by decide) (fun space cs hspace => parseMember_space hspace _ cs)
  · rw [List.forall₂_map_left_iff, List.forall₂_map_right_iff, List.forall₂_same]
    intro m hm c rest hc
    have hblank : ∀ c ∈ units " ", isJsonSpace c = true := List.all_eq_true.mp (by decide)
    have hvalue : parseValue fuel (units " " ++ m.2.indented gap (depth + 1) ++ c :: rest) =
        some (m.2.plain, c :: rest) := by
      rw [List.append_assoc, parseValue_space hblank]
      exact (h m hm).before (by decide) hc rest
    have hmember := parseMember_text hvalue m.1
    simpa [units] using hmember
  · intro t ht
    obtain ⟨m, -, rfl⟩ := List.mem_map.mp ht
    exact ⟨quotationMark, _, rfl, by decide, by decide⟩
  · rwa [List.length_map]

/-- The text is read back as the value it was made of, with its own length as fuel or more. -/
theorem readsAs_indented (hgap : ∀ c ∈ gap, isJsonSpace c = true) {fuel : ℕ} {v : JsonValue F} {depth : ℕ}
    (hfuel : (v.indented gap depth).length ≤ fuel) : ReadsAs fuel (v.indented gap depth) v.plain := by
  induction fuel generalizing v depth with
  | zero =>
    obtain ⟨c, tail, htext, -⟩ := indented_head gap depth v
    simp [htext] at hfuel
  | succ fuel ih =>
    intro rest hrest
    cases v with
    | array items =>
      rw [JsonValue.indented, JsonValue.indentedItems_eq_map, List.length_cons] at hfuel
      have hcount := count_le_bracketBody gap depth (unit ']') (items.map (JsonValue.indented gap (depth + 1)))
      rw [List.length_map] at hcount
      have hitems := parseBracket_indentedItems hgap (fun v hv => @ih v (depth + 1) (by
        have hlt := length_lt_bracketBody gap depth (unit ']')
          (List.mem_map_of_mem (f := JsonValue.indented gap (depth + 1)) hv)
        omega)) (by omega : items.length ≤ fuel) rest
      have hspace : isJsonSpace (unit '[') = false := by decide
      simp only [JsonValue.indented, JsonValue.indentedItems_eq_map, JsonValue.plain, JsonValue.plainItems_eq_map,
        List.cons_append, parseValue, skipSpace_cons hspace, if_true, hitems]
      rfl
    | object members =>
      rw [JsonValue.indented, JsonValue.indentedMembers_eq_map, List.length_cons] at hfuel
      have hcount := count_le_bracketBody gap depth closeBrace
        (members.map fun m => quote m.1 ++ units ": " ++ m.2.indented gap (depth + 1))
      rw [List.length_map] at hcount
      have hmembers := parseBracket_indentedMembers hgap (fun m hm => @ih m.2 (depth + 1) (by
        have hlt := length_lt_bracketBody gap depth closeBrace (List.mem_map_of_mem
          (f := fun m : CodeUnits × JsonValue F => quote m.1 ++ units ": " ++ m.2.indented gap (depth + 1)) hm)
        simp only [List.length_append] at hlt
        omega)) (by omega : members.length ≤ fuel) rest
      have hspace : isJsonSpace openBrace = false := by decide
      have hbracket : openBrace ≠ unit '[' := by decide
      simp only [JsonValue.indented, JsonValue.indentedMembers_eq_map, JsonValue.plain,
        JsonValue.plainMembers_eq_map, List.cons_append, parseValue, skipSpace_cons hspace, if_neg hbracket, if_true,
        hmembers]
      rfl
    | null =>
      rw [JsonValue.indented] at hfuel ⊢
      exact readsBack_of_length_le hfuel rest hrest
    | bool value =>
      rw [JsonValue.indented] at hfuel ⊢
      exact readsBack_of_length_le hfuel rest hrest
    | number value =>
      rw [JsonValue.indented] at hfuel ⊢
      exact readsBack_of_length_le hfuel rest hrest
    | string value =>
      rw [JsonValue.indented] at hfuel ⊢
      exact readsBack_of_length_le hfuel rest hrest

/-- `JSON.parse` after `JSON.stringify` with an indentation, with white space after the text. -/
theorem parse_indented (hgap : ∀ c ∈ gap, isJsonSpace c = true) (v : JsonValue F) {space : CodeUnits}
    (hspaces : ∀ c ∈ space, isJsonSpace c = true) : JsonValue.parse (v.indented gap 0 ++ space) = some v.plain := by
  have hlength : (v.indented gap 0).length ≤ (v.indented gap 0 ++ space).length + 1 := by
    rw [List.length_append]
    omega
  have hread := readsAs_indented hgap hlength space fun c hc =>
    isNumberUnit_of_isJsonSpace (hspaces c (List.mem_of_mem_head? hc))
  have hend : skipSpace space = [] := List.dropWhile_eq_nil_iff.mpr hspaces
  simp only [JsonValue.parse, hread, Option.bind_eq_bind, Option.bind_some, hend, if_true]

end ReadBack

end NetworkHealth
