import Mathlib.Data.List.Forall2
import Mathlib.Data.List.Nodup

/-! Tables from keys to positions, and lists that change at one position. A model that keeps
indices into its lists gets here what such an index finds. -/
namespace NetworkHealth
variable {κ α β γ : Type*}

section Lookup
variable [BEq κ] [LawfulBEq κ] {k : κ} {table : List (κ × β)}

theorem lookup_cons_ite {k' : κ} {v : β} [Decidable (k = k')] :
    List.lookup k ((k', v) :: table) = if k = k' then some v else table.lookup k := by
  split_ifs with h
  · rw [h, List.lookup_cons_self]
  · rw [List.lookup_cons, beq_eq_false_iff_ne.mpr h]

theorem mem_of_lookup {v : β} (h : table.lookup k = some v) : (k, v) ∈ table := by
  obtain ⟨before, after, rfl, -⟩ := List.lookup_eq_some_iff.mp h
  simp

theorem lookup_eq_none_iff_notMem : table.lookup k = none ↔ k ∉ table.map Prod.fst := by
  rw [List.lookup_eq_none_iff]
  constructor
  · intro h hk
    obtain ⟨entry, hentry, rfl⟩ := List.mem_map.mp hk
    simpa using h entry hentry
  · intro h entry hentry
    have hne : k ≠ entry.1 := fun he => h (he ▸ List.mem_map_of_mem hentry)
    simpa using hne

/-- If no key occurs twice, a lookup finds exactly the entries. -/
theorem lookup_eq_some_iff_mem (hkeys : (table.map Prod.fst).Nodup) {v : β} :
    table.lookup k = some v ↔ (k, v) ∈ table := by
  refine ⟨mem_of_lookup, fun hmem => ?_⟩
  cases hfound : table.lookup k with
  | none => exact absurd (List.mem_map_of_mem hmem) (lookup_eq_none_iff_notMem.mp hfound)
  | some v' =>
    have hsame := List.inj_on_of_nodup_map hkeys (mem_of_lookup hfound) hmem rfl
    rw [(Prod.mk.inj hsame).2]

/-- If no key occurs twice, it does not matter which end the search starts from. -/
theorem lookup_reverse (hkeys : (table.map Prod.fst).Nodup) : table.reverse.lookup k = table.lookup k := by
  have hreverse : (table.reverse.map Prod.fst).Nodup := by
    rw [List.map_reverse]
    exact List.nodup_reverse.mpr hkeys
  ext v
  rw [lookup_eq_some_iff_mem hreverse, lookup_eq_some_iff_mem hkeys, List.mem_reverse]

/-- Keys that are spelt another way are found as long as no two are spelt the same. -/
theorem lookup_map_key {κ' : Type*} [BEq κ'] [LawfulBEq κ'] {f : κ → κ'} {g : β → γ}
    (hkeys : ∀ entry ∈ table, f entry.1 = f k → entry.1 = k) :
    (table.map fun entry => (f entry.1, g entry.2)).lookup (f k) = (table.lookup k).map g := by
  classical
  induction table with
  | nil => rfl
  | cons entry rest ih =>
    obtain ⟨k', v⟩ := entry
    have hrest := ih fun e he => hkeys e (List.mem_cons_of_mem _ he)
    have hfirst := hkeys (k', v) List.mem_cons_self
    rw [List.map_cons, lookup_cons_ite, lookup_cons_ite, hrest]
    by_cases h : k = k'
    · rw [if_pos h, if_pos (congrArg f h), Option.map_some]
    · rw [if_neg h, if_neg fun hsame => h (hfirst hsame.symm).symm]

theorem getElem?_of_lookup_zipIdx {keys : List κ} {i : ℕ} (h : keys.zipIdx.lookup k = some i) :
    keys[i]? = some k :=
  List.mem_zipIdx_iff_getElem?.mp (mem_of_lookup h)

theorem lookup_zipIdx_eq_none_iff {keys : List κ} : keys.zipIdx.lookup k = none ↔ k ∉ keys := by
  rw [lookup_eq_none_iff_notMem, List.zipIdx_map_fst]

/-- The table of positions of distinct keys, in whatever order it was filled. -/
theorem lookup_reverse_zipIdx_iff {keys : List κ} (hkeys : keys.Nodup) {i : ℕ} :
    keys.zipIdx.reverse.lookup k = some i ↔ keys[i]? = some k := by
  rw [lookup_eq_some_iff_mem, List.mem_reverse, List.mem_zipIdx_iff_getElem?]
  rw [List.map_reverse, List.zipIdx_map_fst]
  exact List.nodup_reverse.mpr hkeys

/-- Keys of which none occurs twice. -/
theorem eraseDups_of_nodup {keys : List κ} (h : keys.Nodup) : keys.eraseDups = keys := by
  induction keys with
  | nil => rfl
  | cons key rest ih =>
    obtain ⟨hnotMem, hrest⟩ := List.nodup_cons.mp h
    have hfilter : rest.filter (fun other => !other == key) = rest := by
      refine List.filter_eq_self.mpr fun other hother => ?_
      have hne : other ≠ key := fun he => hnotMem (he ▸ hother)
      simpa using hne
    rw [List.eraseDups_cons, hfilter, ih hrest]

end Lookup

/-- A map that does not look at the positions. -/
theorem map_fst_zipIdx (f : α → β) (xs : List α) : xs.zipIdx.map (fun slot => f slot.1) = xs.map f := by
  have hcomp : (fun slot : α × ℕ => f slot.1) = f ∘ Prod.fst := rfl
  rw [hcomp, ← List.map_map, List.zipIdx_map_fst]

theorem map_modify {f : α → α} {g : α → β} {f' : β → β} (h : ∀ a, g (f a) = f' (g a)) (l : List α)
    (i : ℕ) : (l.modify i f).map g = (l.map g).modify i f' := by
  ext1 j
  simp only [List.getElem?_map, List.getElem?_modify]
  cases l[j]? <;> simp; split_ifs <;> simp [h]

/-- What a change does not touch, it does not touch in the list. -/
theorem map_modify_eq {f : α → α} {g : α → β} (h : ∀ a, g (f a) = g a) (l : List α) (i : ℕ) :
    (l.modify i f).map g = l.map g := by
  have hid : (l.modify i f).map g = (l.map g).modify i id := map_modify h l i
  rwa [List.modify_id] at hid

theorem map_set_eq {f : α → β} {l : List α} {i : ℕ} {a b : α} (ha : l[i]? = some a) (hab : f b = f a) :
    (l.set i b).map f = l.map f := by
  ext1 j
  rw [List.getElem?_map, List.getElem?_map, List.getElem?_set]
  split_ifs with hij hlt
  · rw [← hij, ha, Option.map_some, Option.map_some, hab]
  · rw [← hij, List.getElem?_eq_none (Nat.not_lt.mp hlt)]
  · rfl

section Entries
variable {R : β → β → Prop}

/-- A list that changes at one position is related to what it was entry by entry. -/
theorem forall₂_set (hrefl : ∀ b, R b b) {xs : List β} {i : ℕ} {x y : β} (hi : xs[i]? = some x)
    (h : R x y) : List.Forall₂ R xs (xs.set i y) := by
  induction xs generalizing i with
  | nil => exact absurd hi (by simp)
  | cons first rest ih =>
    cases i with
    | zero =>
      obtain rfl : first = x := by simpa using hi
      exact .cons h (List.forall₂_same.mpr fun b _ => hrefl b)
    | succ i => exact .cons (hrefl first) (ih (by simpa using hi))

theorem set_eq_self {xs : List β} {i : ℕ} {x y : β} (hi : xs[i]? = some x) :
    xs.set i y = xs ↔ y = x := by
  constructor
  · intro h
    have hy := congrArg (·[i]?) h
    rw [List.getElem?_set_self (List.getElem?_eq_some_iff.mp hi).1, hi] at hy
    exact Option.some.inj hy
  · rintro rfl
    obtain ⟨hlt, rfl⟩ := List.getElem?_eq_some_iff.mp hi
    exact List.set_getElem_self hlt

theorem forall₂_trans (htrans : ∀ a b c, R a b → R b c → R a c) {xs ys zs : List β}
    (h : List.Forall₂ R xs ys) (h' : List.Forall₂ R ys zs) : List.Forall₂ R xs zs := by
  induction h generalizing zs with
  | nil => exact h'
  | cons hab _ ih =>
    cases h' with
    | cons hbc hrest => exact .cons (htrans _ _ _ hab hbc) (ih hrest)

theorem forall₂_antisymm (hanti : ∀ a b, R a b → R b a → b = a) {xs ys : List β}
    (h : List.Forall₂ R xs ys) (h' : List.Forall₂ R ys xs) : ys = xs := by
  induction h with
  | nil => rfl
  | cons hab _ ih =>
    cases h' with
    | cons hba hrest => rw [hanti _ _ hab hba, ih hrest]

end Entries
end NetworkHealth
