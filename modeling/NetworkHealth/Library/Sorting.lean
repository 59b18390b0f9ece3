import Mathlib.Data.List.Sort

/-! Sorting by a comparison that is an order on what is sorted, if not on everything. -/
namespace NetworkHealth
variable {α : Type*} {r : α → α → Prop} {as bs : List α}

/-- Any two entries can be put in order, and consistently so. -/
structure OrdersOn (r : α → α → Prop) (as : List α) : Prop where
  total : ∀ a ∈ as, ∀ b ∈ as, r a b ∨ r b a
  trans : ∀ a ∈ as, ∀ b ∈ as, ∀ c ∈ as, r a b → r b c → r a c

theorem OrdersOn.of_perm (h : OrdersOn r as) (hperm : as.Perm bs) : OrdersOn r bs where
  total a ha b hb := h.total a (hperm.mem_iff.mpr ha) b (hperm.mem_iff.mpr hb)
  trans a ha b hb c hc := h.trans a (hperm.mem_iff.mpr ha) b (hperm.mem_iff.mpr hb) c (hperm.mem_iff.mpr hc)

variable [DecidableRel r]

/-- The comparison sorts: it is an order of the members as such. -/
theorem OrdersOn.pairwise_insertionSort (h : OrdersOn r as) : (as.insertionSort r).Pairwise r := by
  let onMembers : {a // a ∈ as} → {a // a ∈ as} → Prop := fun a b => r a.1 b.1
  have : Std.Total onMembers := ⟨fun a b => h.total a.1 a.2 b.1 b.2⟩
  have : IsTrans _ onMembers := ⟨fun a b c => h.trans a.1 a.2 b.1 b.2 c.1 c.2⟩
  have hsorted : (as.attach.insertionSort onMembers).Pairwise onMembers := List.pairwise_insertionSort onMembers _
  have hmap : (as.attach.insertionSort onMembers).map Subtype.val = as.insertionSort r := by
    rw [List.map_insertionSort onMembers r _ _ fun _ _ _ _ => Iff.rfl, List.attach_map_subtype_val]
  rw [← hmap]
  exact List.pairwise_map.mpr hsorted

/-- Sorting what has been sorted changes nothing. -/
theorem OrdersOn.insertionSort_insertionSort (h : OrdersOn r as) :
    (as.insertionSort r).insertionSort r = as.insertionSort r := h.pairwise_insertionSort.insertionSort_eq

/-- Where no two entries are equal in order, the list comes out the same whatever order it was in. -/
theorem OrdersOn.insertionSort_eq_of_perm (h : OrdersOn r as)
    (hanti : ∀ a ∈ as, ∀ b ∈ as, r a b → r b a → a = b) (hperm : as.Perm bs) :
    as.insertionSort r = bs.insertionSort r := by
  refine List.Perm.eq_of_pairwise (fun a b ha hb => ?_) h.pairwise_insertionSort
    (h.of_perm hperm).pairwise_insertionSort
    (((List.perm_insertionSort r as).trans hperm).trans (List.perm_insertionSort r bs).symm)
  exact hanti a ((List.mem_insertionSort r).mp ha) b (hperm.mem_iff.mpr ((List.mem_insertionSort r).mp hb))

end NetworkHealth
