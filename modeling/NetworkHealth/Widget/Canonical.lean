import Mathlib.Data.List.Permutation
import NetworkHealth.Library.Sorting
import NetworkHealth.Widget.DestinationsPage
import NetworkHealth.Widget.Plasmoid

/-! The canonical spelling of a list of destinations as a canonical form: it is its own canonical
spelling, and where it cannot matter in which order a list is given it does not. -/
namespace NetworkHealth.Widget

/-- An entry whose fields, as far as it has them, are of their types. -/
structure WellTyped (entry : Value) : Prop where
  shape : entry = .null ∨ ∃ members, entry = .object members
  texts : ∀ key ∈ [units "id", units "name", units "address"], ∀ value, entry.field key = some value →
    ∃ text, value = .string text
  numbers : ∀ key ∈ [units "order", units "thresholdUs", units "sensitivity"], ∀ value,
    entry.field key = some value → ∃ x, value = .number (.finite x)
  flags : ∀ key ∈ [units "enabled", units "partTime"], ∀ value, entry.field key = some value →
    ∃ b, value = .bool b

/-- What entries are sorted by, where they say so themselves. -/
def sortKey (entry : Value) : Option Value × Option CodeUnits :=
  (entry.field (units "order"), textOr [] (entry.field (units "id")))

namespace Normalised
variable {collate : CodeUnits → CodeUnits → Ordering} {a b d : Normalised} {x y : Binary64}

/-- All the numbers are finite. -/
structure Finite (d : Normalised) : Prop where
  order : ∃ x, d.order = .finite x
  thresholdUs : ∃ x, d.thresholdUs = .finite x
  sensitivity : ∃ x, d.sensitivity = .finite x

theorem normalise_toValue (d : Normalised) (i : ℕ) : normalise d.toValue i = some d := by
  obtain ⟨id, name, address, order, thresholdUs, sensitivity, enabled, partTime⟩ := d
  cases enabled <;> cases partTime <;> rfl

theorem Finite.plain_toValue (h : d.Finite) : d.toValue.plain = d.toValue := by
  obtain ⟨id, name, address, order, thresholdUs, sensitivity, enabled, partTime⟩ := d
  obtain ⟨⟨x, rfl⟩, ⟨y, rfl⟩, ⟨z, rfl⟩⟩ := h
  cases partTime <;> rfl

theorem notAfter_iff (ha : a.order = .finite x) (hb : b.order = .finite y) :
    notAfter collate a b ↔ x < y ∨ x = y ∧ collate a.id b.id ≠ .gt := by
  unfold notAfter
  rw [ha, hb, Number.compareByDifference]
  cases hcompare : compare x y with
  | lt => simp [compare_lt_iff_lt.mp hcompare]
  | eq => simp [compare_eq_iff_eq.mp hcompare]
  | gt => simp [(compare_gt_iff_gt.mp hcompare).not_gt, (compare_gt_iff_gt.mp hcompare).ne']

theorem ordersOn_notAfter [Std.TransCmp collate] {ds : List Normalised} (h : ∀ d ∈ ds, d.Finite) :
    OrdersOn (notAfter collate) ds where
  total a ha b hb := by
    obtain ⟨x, hx⟩ := (h a ha).order
    obtain ⟨y, hy⟩ := (h b hb).order
    rw [notAfter_iff hx hy, notAfter_iff hy hx]
    rcases lt_trichotomy x y with hlt | heq | hgt
    · exact Or.inl (Or.inl hlt)
    · by_cases hab : collate a.id b.id = .gt
      · have hba : collate b.id a.id ≠ .gt := Std.OrientedCmp.not_gt_of_gt hab
        exact Or.inr (Or.inr ⟨heq.symm, hba⟩)
      · exact Or.inl (Or.inr ⟨heq, hab⟩)
    · exact Or.inr (Or.inl hgt)
  trans a ha b hb c hc hab hbc := by
    obtain ⟨x, hx⟩ := (h a ha).order
    obtain ⟨y, hy⟩ := (h b hb).order
    obtain ⟨z, hz⟩ := (h c hc).order
    rw [notAfter_iff hx hy] at hab
    rw [notAfter_iff hy hz] at hbc
    rw [notAfter_iff hx hz]
    rcases hab with hxy | ⟨rfl, hab⟩
    · rcases hbc with hyz | ⟨rfl, -⟩
      · exact Or.inl (hxy.trans hyz)
      · exact Or.inl hxy
    · rcases hbc with hyz | ⟨rfl, hbc⟩
      · exact Or.inl hyz
      · have hac := Std.TransCmp.isLE_trans (Ordering.isLE_iff_ne_gt.mpr hab) (Ordering.isLE_iff_ne_gt.mpr hbc)
        exact Or.inr ⟨rfl, Ordering.isLE_iff_ne_gt.mp hac⟩

/-- What is not after the other either way is equal in order and id. -/
theorem eq_of_notAfter [Std.OrientedCmp collate] (ha : a.order = .finite x) (hb : b.order = .finite y)
    (hab : notAfter collate a b) (hba : notAfter collate b a) : x = y ∧ collate a.id b.id = .eq := by
  rw [notAfter_iff ha hb] at hab
  rw [notAfter_iff hb ha] at hba
  rcases hab with hlt | ⟨rfl, hab⟩
  · rcases hba with hgt | ⟨rfl, -⟩
    · exact absurd hlt hgt.not_gt
    · exact absurd hlt (lt_irrefl _)
  · rcases hba with hgt | ⟨-, hba⟩
    · exact absurd hgt (lt_irrefl _)
    · exact ⟨rfl, Std.OrientedCmp.isLE_antisymm (Ordering.isLE_iff_ne_gt.mpr hab) (Ordering.isLE_iff_ne_gt.mpr hba)⟩

end Normalised

namespace WellTyped
variable {entry : Value}

theorem textOr (h : WellTyped entry) (key : CodeUnits) (hkey : key ∈ [units "id", units "name", units "address"]) :
    ∃ text, Widget.textOr [] (entry.field key) = some text := by
  cases hfield : entry.field key with
  | none => exact ⟨[], rfl⟩
  | some value =>
    obtain ⟨text, rfl⟩ := h.texts key hkey value hfield
    exact ⟨text, rfl⟩

theorem numberOr (h : WellTyped entry) (key : CodeUnits)
    (hkey : key ∈ [units "order", units "thresholdUs", units "sensitivity"]) (n : ℕ) (hn : n ≤ 2 ^ 53) :
    ∃ x, Widget.numberOr n (entry.field key) = some (.finite x) := by
  cases hfield : entry.field key with
  | none => exact ⟨Binary64.ofCount n hn, by rw [← Binary64.nearest_natCast hn]; rfl⟩
  | some value =>
    obtain ⟨x, rfl⟩ := h.numbers key hkey value hfield
    exact ⟨x, rfl⟩

/-- Such an entry has a normalised form, with finite numbers. -/
theorem normalise (h : WellTyped entry) {i : ℕ} (hi : i < rowLimit) :
    ∃ d, Normalised.normalise entry i = some d ∧ d.Finite := by
  obtain ⟨id, hid⟩ := h.textOr (units "id") (by simp)
  obtain ⟨name, hname⟩ := h.textOr (units "name") (by simp)
  obtain ⟨address, haddress⟩ := h.textOr (units "address") (by simp)
  obtain ⟨order, horder⟩ := h.numberOr (units "order") (by simp) (i + 1) hi
  obtain ⟨threshold, hthreshold⟩ := h.numberOr (units "thresholdUs") (by simp) 1000 (by decide)
  obtain ⟨sensitivity, hsensitivity⟩ := h.numberOr (units "sensitivity") (by simp) 3 (by decide)
  push_cast at horder hthreshold hsensitivity
  refine ⟨⟨id, name, address, .finite order, .finite threshold, .finite sensitivity,
    !isBool false (entry.field (units "enabled")), isBool true (entry.field (units "partTime"))⟩, ?_,
    ⟨order, rfl⟩, ⟨threshold, rfl⟩, ⟨sensitivity, rfl⟩⟩
  simp only [Normalised.normalise, hid, hname, haddress, horder, hthreshold, hsensitivity, Option.bind_eq_bind,
    Option.bind_some]

end WellTyped

variable {collate : CodeUnits → CodeUnits → Ordering} {l l' : List Value}

theorem exists_normalised (hl : ∀ entry ∈ l, WellTyped entry) (hlength : l.length ≤ rowLimit) :
    ∃ ds, l.zipIdx.mapM (fun p => Normalised.normalise p.1 p.2) = some ds ∧ ∀ d ∈ ds, d.Finite := by
  have hone : ∀ p ∈ l.zipIdx, ∃ d, Normalised.normalise p.1 p.2 = some d ∧ d.Finite := by
    intro p hp
    have hi : p.2 < l.length := by simpa using List.snd_lt_of_mem_zipIdx hp
    exact (hl p.1 (List.fst_mem_of_mem_zipIdx hp)).normalise (hi.trans_le hlength)
  have hsome := mapM_eq_filterMap fun p hp => (hone p hp).imp fun d h => h.1
  refine ⟨_, hsome, fun d hd => ?_⟩
  obtain ⟨p, hp, hnormalised⟩ := List.mem_filterMap.mp hd
  obtain ⟨d', hd', hfinite⟩ := hone p hp
  rw [hd'] at hnormalised
  rwa [← Option.some.inj hnormalised]

/-- Normalised entries are read back as they are from a spelling each of them is read back from. -/
theorem mapM_normalise {spell : Normalised → Value} (h : ∀ d i, Normalised.normalise (spell d) i = some d)
    (ds : List Normalised) :
    (ds.map spell).zipIdx.mapM (fun p => Normalised.normalise p.1 p.2) = some ds := by
  have hindexed : (ds.map spell).zipIdx = ds.mapIdx fun i d => (spell d, i) := by
    apply List.ext_getElem <;> simp
  rw [hindexed, mapM_mapIdx fun i d => h d i, List.map_id']

/-- Sorted destinations are read back from their spelling as they are. -/
theorem destinationList_sorted {ds : List Normalised} (h : ∀ d ∈ ds, d.Finite) :
    destinationList (JsonValue.array
      ((ds.insertionSort (Normalised.notAfter collate)).map Normalised.toValue)).stringify =
      (ds.insertionSort (Normalised.notAfter collate)).map Normalised.toValue := by
  rw [destinationList_stringify, List.map_map]
  apply List.map_congr_left
  intro d hd
  exact (h d ((List.mem_insertionSort _).mp hd)).plain_toValue

/-- The spelling of a sorted list is its own canonical spelling. -/
theorem canonicalDestinations_of_sorted [Std.TransCmp collate] {ds : List Normalised} (h : ∀ d ∈ ds, d.Finite)
    {text : CodeUnits} (htext : text = (JsonValue.array
      ((ds.insertionSort (Normalised.notAfter collate)).map Normalised.toValue)).stringify) :
    canonicalDestinations collate (destinationList text) = some text := by
  rw [htext, destinationList_sorted h, canonicalDestinations, mapM_normalise Normalised.normalise_toValue,
    Option.map_some, (Normalised.ordersOn_notAfter h).insertionSort_insertionSort]

section Permutations

theorem normalise_of_explicit {entry : Value} (h : (entry.field (units "order")).isSome) (i j : ℕ) :
    Normalised.normalise entry i = Normalised.normalise entry j := by
  obtain ⟨order, horder⟩ := Option.isSome_iff_exists.mp h
  simp only [Normalised.normalise, horder, numberOr, Option.getD_some]

/-- Where every entry says its order, its position plays no part. -/
theorem mapM_normalise_of_explicit (hl : ∀ entry ∈ l, WellTyped entry)
    (hexplicit : ∀ entry ∈ l, (entry.field (units "order")).isSome) :
    l.zipIdx.mapM (fun p => Normalised.normalise p.1 p.2) = some (l.filterMap fun entry =>
      Normalised.normalise entry 0) := by
  have hposition : ∀ p ∈ l.zipIdx, Normalised.normalise p.1 p.2 = Normalised.normalise p.1 0 := fun p hp =>
    normalise_of_explicit (hexplicit p.1 (List.fst_mem_of_mem_zipIdx hp)) p.2 0
  rw [mapM_eq_filterMap, List.filterMap_congr hposition]
  · conv_rhs => rw [← List.zipIdx_map_fst 0 l, List.filterMap_map]
    rfl
  · intro p hp
    obtain ⟨d, hd, -⟩ := (hl p.1 (List.fst_mem_of_mem_zipIdx hp)).normalise (i := 0) (by decide)
    exact ⟨d, (hposition p hp).trans hd⟩

/-- The key of an entry is found in its normalised form. -/
theorem sortKey_of_normalise {entry : Value} (h : WellTyped entry) (hexplicit : (entry.field (units "order")).isSome)
    {i : ℕ} {d : Normalised} (hd : Normalised.normalise entry i = some d) :
    sortKey entry = (some (.number d.order), some d.id) := by
  obtain ⟨order, horder⟩ := Option.isSome_iff_exists.mp hexplicit
  obtain ⟨x, rfl⟩ := h.numbers _ (by simp) order horder
  simp only [Normalised.normalise, Option.bind_eq_bind, Option.bind_eq_some_iff] at hd
  obtain ⟨id, hid, name, -, address, -, y, hy, threshold, -, sensitivity, -, hd⟩ := hd
  rw [horder] at hy
  obtain rfl := Option.some.inj hy
  rw [sortKey, horder, hid, ← Option.some.inj hd]

/-- Different keys, and ids that the comparison tells apart, put the entries in one order. -/
theorem insertionSort_of_explicit [Std.TransCmp collate] (hl : ∀ entry ∈ l, WellTyped entry)
    (hexplicit : ∀ entry ∈ l, (entry.field (units "order")).isSome) (hkeys : (l.map sortKey).Nodup)
    (hdistinguishes : ∀ a ∈ l, ∀ b ∈ l, ∀ x y, textOr [] (a.field (units "id")) = some x →
      textOr [] (b.field (units "id")) = some y → collate x y = .eq → x = y) (hperm : l.Perm l') :
    (l.filterMap fun entry => Normalised.normalise entry 0).insertionSort (Normalised.notAfter collate) =
      (l'.filterMap fun entry => Normalised.normalise entry 0).insertionSort (Normalised.notAfter collate) := by
  have hfinite : ∀ d ∈ l.filterMap (fun entry => Normalised.normalise entry 0), d.Finite := by
    intro d hd
    obtain ⟨entry, hentry, hnormalised⟩ := List.mem_filterMap.mp hd
    obtain ⟨d', hd', hfinite⟩ := (hl entry hentry).normalise (i := 0) (by decide)
    rw [hd'] at hnormalised
    rwa [← Option.some.inj hnormalised]
  refine (Normalised.ordersOn_notAfter hfinite).insertionSort_eq_of_perm ?_ (hperm.filterMap _)
  intro a ha b hb hab hba
  obtain ⟨x, hx⟩ := (hfinite a ha).order
  obtain ⟨y, hy⟩ := (hfinite b hb).order
  obtain ⟨rfl, hid⟩ := Normalised.eq_of_notAfter hx hy hab hba
  obtain ⟨ea, hea, hna⟩ := List.mem_filterMap.mp ha
  obtain ⟨eb, heb, hnb⟩ := List.mem_filterMap.mp hb
  have hka := sortKey_of_normalise (hl ea hea) (hexplicit ea hea) hna
  have hkb := sortKey_of_normalise (hl eb heb) (hexplicit eb heb) hnb
  have hids := hdistinguishes ea hea eb heb a.id b.id (congrArg Prod.snd hka) (congrArg Prod.snd hkb) hid
  have hentries : ea = eb := List.inj_on_of_nodup_map hkeys hea heb (by rw [hka, hkb, hx, hy, hids])
  rw [hentries, hnb] at hna
  exact (Option.some.inj hna).symm

end Permutations

/-- A widget that has adopted a canonical spelling holds it as it is, and publishes nothing over it. -/
theorem Plasmoid.quiet_of_adopted {p : Plasmoid} {now : ℕ}
    (hcanonical : canonicalDestinations collate (destinationList p.file.json) = some p.file.json)
    (hadopts : (p.decision collate now).adopts = true) : (p.sync collate now).store.localJson = p.file.json ∧
      ∀ now', ((p.sync collate now).decision collate now').isPublish = false := by
  have hjson : (p.sync collate now).store.localJson = p.file.json := by
    rw [Plasmoid.sync_localJson, if_pos hadopts]
    exact congrArg (Option.getD · _) hcanonical
  refine ⟨hjson, fun now' => ?_⟩
  have hknows := (p.sync collate now).store.decision_knows ((p.sync collate now).setting collate) now' p.file
  change ((p.sync collate now).store.decision ((p.sync collate now).setting collate) now' p.file).isPublish = false
  cases hd : (p.sync collate now).store.decision ((p.sync collate now).setting collate) now' p.file <;>
    rw [hd] at hknows
  case publish revision => exact absurd hjson.symm hknows.2.1
  all_goals rfl

/-- The canonical spelling of a list is read as the normalised forms of its entries, sorted. It is its own
canonical spelling, so that a widget which adopts it holds it as it is and publishes nothing over it. If the
entries say their orders, no two of them with the same order and id, every permutation of the list is
spelled alike. -/
theorem canonical_form [Std.TransCmp collate] (hl : ∀ entry ∈ l, WellTyped entry) (hlength : l.length ≤ rowLimit) :
    ∃ text, canonicalDestinations collate l = some text ∧
      (∃ ds sorted : List Normalised,
        List.Forall₂ (fun p d => Normalised.normalise p.1 p.2 = some d) l.zipIdx ds ∧ sorted.Perm ds ∧
        sorted.Pairwise (Normalised.notAfter collate) ∧ destinationList text = sorted.map Normalised.toValue) ∧
      canonicalDestinations collate (destinationList text) = some text ∧
      (∀ (p : Plasmoid) (now : ℕ), p.file.json = text → (p.decision collate now).adopts = true →
        (p.sync collate now).store.localJson = text ∧
          ∀ now', ((p.sync collate now).decision collate now').isPublish = false) ∧
      ((∀ entry ∈ l, (entry.field (units "order")).isSome) → (l.map sortKey).Nodup →
        (∀ a ∈ l, ∀ b ∈ l, ∀ x y, textOr [] (a.field (units "id")) = some x →
          textOr [] (b.field (units "id")) = some y → collate x y = .eq → x = y) →
        ∀ l', l.Perm l' → canonicalDestinations collate l' = some text) := by
  obtain ⟨ds, hds, hfinite⟩ := exists_normalised hl hlength
  have htext : canonicalDestinations collate l = some (JsonValue.array
      ((ds.insertionSort (Normalised.notAfter collate)).map Normalised.toValue)).stringify := by
    rw [canonicalDestinations, hds, Option.map_some]
  have hcanonical := @canonicalDestinations_of_sorted collate _ ds hfinite _ rfl
  refine ⟨_, htext, ⟨ds, _, forall₂_of_mapM hds, List.perm_insertionSort _ ds,
    (Normalised.ordersOn_notAfter hfinite).pairwise_insertionSort, destinationList_sorted hfinite⟩, hcanonical, ?_, ?_⟩
  · intro p now hfile hadopts
    rw [← hfile] at hcanonical ⊢
    exact Plasmoid.quiet_of_adopted hcanonical hadopts
  · intro hexplicit hkeys hdistinguishes l' hperm
    rw [← htext, canonicalDestinations, canonicalDestinations,
      mapM_normalise_of_explicit hl hexplicit,
      mapM_normalise_of_explicit (fun e he => hl e (hperm.mem_iff.mpr he))
        (fun e he => hexplicit e (hperm.mem_iff.mpr he)),
      Option.map_some, Option.map_some, insertionSort_of_explicit hl hexplicit hkeys hdistinguishes hperm]

/-- Two entries and the two ways to list them. -/
theorem canonical_form_pair :
    let entry (order : ℕ) (id : String) (h : order ≤ 2 ^ 53) : Value :=
      .object [(units "id", .string (units id)), (units "order", .number (.finite (.ofCount order h)))]
    let destination (order : ℕ) (id : String) (h : order ≤ 2 ^ 53) : Normalised :=
      ⟨units id, [], [], .finite (.ofCount order h), Binary64.nearest 1000, Binary64.nearest 3, true, false⟩
    let first := entry 1 "a" (by decide)
    let second := entry 2 "b" (by decide)
    ∃ text, canonicalDestinations compare [second, first] = some text ∧
      destinationList text = [destination 1 "a" (by decide), destination 2 "b" (by decide)].map Normalised.toValue ∧
      canonicalDestinations compare [first, second] = some text := by
  intro entry destination first second
  have hid : ∀ order id h, (entry order id h).field (units "id") = some (.string (units id)) := fun _ _ _ => rfl
  have horder : ∀ order id h, (entry order id h).field (units "order") = some (.number (.finite (.ofCount order h))) :=
    fun _ _ _ => rfl
  have habsent : ∀ order id h, ∀ key ∈ ["name", "address", "thresholdUs", "sensitivity", "enabled", "partTime"],
      (entry order id h).field (units key) = none := by
    intro order id h key hkey
    simp only [List.mem_cons, List.not_mem_nil, or_false] at hkey
    rcases hkey with rfl | rfl | rfl | rfl | rfl | rfl <;> rfl
  have htyped : ∀ order id h, WellTyped (entry order id h) := by
    intro order id h
    refine ⟨Or.inr ⟨_, rfl⟩, ?_, ?_, ?_⟩ <;> simp [hid, horder, habsent]
  have hentries : ∀ e ∈ [second, first], WellTyped e := by simp [first, second, htyped]
  obtain ⟨text, htext, ⟨ds, sorted, hds, hperm', hsorted, hread⟩, -, -, hperm⟩ :=
    @canonical_form compare _ _ hentries (by decide)
  refine ⟨text, htext, ?_, hperm ?_ ?_ ?_ _ (.swap _ _ _)⟩
  · have hnormalised : ∀ order id h i, Normalised.normalise (entry order id h) i = some (destination order id h) :=
      fun _ _ _ _ => rfl
    obtain rfl : ds = [destination 2 "b" (by decide), destination 1 "a" (by decide)] := by
      cases hds with
      | cons hsecond hrest =>
        cases hrest with
        | cons hfirst hrest =>
          cases hrest
          rw [← Option.some.inj ((hnormalised 2 "b" (by decide) 0).symm.trans hsecond),
            ← Option.some.inj ((hnormalised 1 "a" (by decide) 1).symm.trans hfirst)]
    have hafter : ¬ Normalised.notAfter compare (destination 2 "b" (by decide)) (destination 1 "a" (by decide)) := by
      rw [Normalised.notAfter_iff rfl rfl]
      decide
    obtain rfl | rfl := List.perm_pair.mp hperm'
    · exact absurd (List.rel_of_pairwise_cons hsorted List.mem_cons_self) hafter
    · exact hread
  · simp [first, second, horder]
  · have hids : (JsonValue.string (units "b") : Value).toText ≠ (JsonValue.string (units "a") : Value).toText := by
      decide
    simp [sortKey, first, second, horder, hid, textOr, hids]
  · intro a _ b _ x y _ _ hxy
    exact Std.LawfulEqCmp.eq_of_compare hxy

end NetworkHealth.Widget
