import Mathlib.Data.List.DropRight
import Mathlib.Data.List.Forall2
import Mathlib.Algebra.Order.Ring.Nat

/-! Loops that walk a list, thread a state and collect a result for every entry. A model
writes the body of its loop and gets the loop's rules. -/
namespace NetworkHealth
variable {σ α β : Type*}

/-- Walks the list from the front. -/
def mapAccum (f : σ → α → σ × β) : σ → List α → σ × List β
  | s, [] => (s, [])
  | s, a :: as => ((mapAccum f (f s a).1 as).1, (f s a).2 :: (mapAccum f (f s a).1 as).2)

variable {f : σ → α → σ × β}

@[simp] theorem mapAccum_nil (s : σ) : mapAccum f s [] = (s, []) := rfl

@[simp] theorem mapAccum_cons (s : σ) (a : α) (as : List α) :
    mapAccum f s (a :: as) =
      ((mapAccum f (f s a).1 as).1, (f s a).2 :: (mapAccum f (f s a).1 as).2) := rfl

@[simp] theorem mapAccum_length (s : σ) (as : List α) :
    (mapAccum f s as).2.length = as.length := by
  induction as generalizing s with
  | nil => rfl
  | cons a as ih => simp [ih]

theorem mapAccum_append (s : σ) (as bs : List α) :
    mapAccum f s (as ++ bs) = ((mapAccum f (mapAccum f s as).1 bs).1,
      (mapAccum f s as).2 ++ (mapAccum f (mapAccum f s as).1 bs).2) := by
  induction as generalizing s with
  | nil => rfl
  | cons a as ih => simp [ih]

/-- A loop none of whose turns does anything does nothing. -/
theorem mapAccum_eq_self {f : σ → α → σ × α} {as : List α} (h : ∀ s, ∀ a ∈ as, f s a = (s, a)) (s : σ) :
    mapAccum f s as = (s, as) := by
  induction as with
  | nil => rfl
  | cons a as ih =>
    rw [mapAccum_cons, h s a (by simp), ih fun s b hb => h s b (by simp [hb])]

/-- What every turn of the loop keeps, the loop keeps. -/
theorem mapAccum_keeps (Inv : σ → Prop) (as : List α) (hstep : ∀ s, ∀ a ∈ as, Inv s → Inv (f s a).1)
    {s : σ} (hs : Inv s) : Inv (mapAccum f s as).1 := by
  induction as generalizing s with
  | nil => exact hs
  | cons a as ih =>
    exact ih (fun s b hb => hstep s b (by simp [hb])) (hstep s a (by simp) hs)

/-- What every turn keeps and some turn brings about holds in the end. -/
theorem mapAccum_reaches (Inv : σ → Prop) {as : List α} (hkeep : ∀ s, ∀ a ∈ as, Inv s → Inv (f s a).1)
    {a : α} (ha : a ∈ as) (hreach : ∀ s, Inv (f s a).1) (s : σ) : Inv (mapAccum f s as).1 := by
  obtain ⟨before, after, rfl⟩ := List.append_of_mem ha
  clear ha
  induction before generalizing s with
  | nil => exact mapAccum_keeps Inv after (fun t b hb => hkeep t b (by simp [hb])) (hreach s)
  | cons first before ih => exact ih _ fun t b hb => hkeep t b (List.mem_cons_of_mem _ hb)

/-- Every result of the loop comes from one turn, in a state that has the invariant. -/
theorem exists_of_mem_mapAccum (Inv : σ → Prop) (as : List α)
    (hstep : ∀ s, ∀ a ∈ as, Inv s → Inv (f s a).1) {s : σ} (hs : Inv s) {b : β}
    (hb : b ∈ (mapAccum f s as).2) : ∃ a ∈ as, ∃ t, Inv t ∧ b = (f t a).2 := by
  induction as generalizing s with
  | nil => exact absurd hb (by simp)
  | cons a as ih =>
    rcases List.mem_cons.mp hb with rfl | hrest
    · exact ⟨a, by simp, s, hs, rfl⟩
    · obtain ⟨c, hc, t, ht, rfl⟩ := ih (fun s b hb => hstep s b (by simp [hb]))
        (hstep s a (by simp) hs) hrest
      exact ⟨c, by simp [hc], t, ht, rfl⟩

/-- The result at an index comes from the turn at that index. -/
theorem getElem?_mapAccum {as : List α} {i : ℕ} {a : α} (ha : as[i]? = some a) (s : σ) :
    ∃ t, (mapAccum f s as).2[i]? = some (f t a).2 := by
  induction as generalizing s i with
  | nil => simp at ha
  | cons first rest ih =>
    cases i with
    | zero =>
      obtain rfl : first = a := by simpa using ha
      exact ⟨s, rfl⟩
    | succ i => exact ih (by simpa using ha) _

/-- Where only one turn of a loop touches a part of the state, the loop does to it what that turn does. -/
theorem mapAccum_at {γ : Type*} (part : σ → γ) {as : List α} {i : ℕ} {a : α} (ha : as[i]? = some a)
    (hkeep : ∀ j b, as[j]? = some b → j ≠ i → ∀ s, part (f s b).1 = part s) (s : σ) :
    ∃ t, part t = part s ∧ (mapAccum f s as).2[i]? = some (f t a).2 ∧ part (mapAccum f s as).1 = part (f t a).1 := by
  induction as generalizing s i with
  | nil => simp at ha
  | cons first rest ih =>
    cases i with
    | zero =>
      obtain rfl : first = a := by simpa using ha
      refine ⟨s, rfl, rfl, mapAccum_keeps (fun t => part t = part (f s first).1) rest (fun t b hb ht => ?_) rfl⟩
      obtain ⟨j, hj⟩ := List.mem_iff_getElem?.mp hb
      exact (hkeep (j + 1) b hj (Nat.succ_ne_zero j) t).trans ht
    | succ i =>
      obtain ⟨t, ht, hget, hpart⟩ := ih (by simpa using ha)
        (fun j b hb hj s => hkeep (j + 1) b hb (fun he => hj (Nat.succ.inj he)) s) (f s first).1
      exact ⟨t, ht.trans (hkeep 0 first rfl (Nat.succ_ne_zero i).symm s), hget, hpart⟩

/-- What the results of all turns satisfy, entry by entry. -/
theorem forall_mem_mapAccum_iff {P : β → Prop} {Q : α → Prop} {as : List α}
    (h : ∀ s, ∀ a ∈ as, P (f s a).2 ↔ Q a) (s : σ) :
    (∀ b ∈ (mapAccum f s as).2, P b) ↔ ∀ a ∈ as, Q a := by
  induction as generalizing s with
  | nil => simp
  | cons a as ih =>
    rw [mapAccum_cons, List.forall_mem_cons, List.forall_mem_cons, h s a (by simp),
      ih fun s b hb => h s b (by simp [hb])]

/-- A loop over the image of a list is the image of the loop, if every turn is. -/
theorem mapAccum_hom {σ' α' β' : Type*} {f' : σ' → α' → σ' × β'} (u : σ → σ') (g : α → α') (h : β → β')
    (hf : ∀ s a, f' (u s) (g a) = (u (f s a).1, h (f s a).2)) (s : σ) (as : List α) :
    mapAccum f' (u s) (as.map g) = (u (mapAccum f s as).1, (mapAccum f s as).2.map h) := by
  induction as generalizing s with
  | nil => rfl
  | cons a as ih =>
    rw [List.map_cons, mapAccum_cons, hf, ih]
    rfl

/-- Two loops over lists that look alike keep what their turns keep. -/
theorem mapAccum_rel {σ' α' β' γ : Type*} {f' : σ' → α' → σ' × β'} (R : σ → σ' → Prop) (g : α → γ) (h : α' → γ)
    (hf : ∀ s s' a b, R s s' → g a = h b → R (f s a).1 (f' s' b).1) {s : σ} {s' : σ'} (hs : R s s')
    {as : List α} {bs : List α'} (hab : as.map g = bs.map h) : R (mapAccum f s as).1 (mapAccum f' s' bs).1 := by
  induction as generalizing s s' bs with
  | nil =>
    obtain rfl := List.map_eq_nil_iff.mp hab.symm
    exact hs
  | cons a as ih =>
    obtain ⟨b, bs, rfl, hhead, htail⟩ := List.map_eq_cons_iff.mp hab.symm
    exact ih (hf s s' a b hs hhead.symm) htail.symm

/-- What the turns make of the entries of a list, the loop makes of the list. -/
theorem map_mapAccum_of_mem {γ : Type*} {g : α → γ} {h : β → γ} {as : List α}
    (hf : ∀ s, ∀ a ∈ as, h (f s a).2 = g a) (s : σ) : (mapAccum f s as).2.map h = as.map g := by
  induction as generalizing s with
  | nil => rfl
  | cons a as ih =>
    rw [mapAccum_cons, List.map_cons, List.map_cons, hf s a (by simp), ih fun s b hb => hf s b (by simp [hb])]

/-- What the loop leaves alone in every entry, it leaves alone in the list. -/
theorem map_mapAccum {γ : Type*} (g : α → γ) (h : β → γ) (hf : ∀ s a, h (f s a).2 = g a) (s : σ)
    (as : List α) : (mapAccum f s as).2.map h = as.map g :=
  map_mapAccum_of_mem (fun s a _ => hf s a) s

/-- A walk that may fail, and has not, got each result from its entry. -/
theorem forall₂_of_mapM {α β : Type} {f : α → Option β} {as : List α} {bs : List β}
    (h : as.mapM f = some bs) : List.Forall₂ (fun a b => f a = some b) as bs := by
  induction as generalizing bs with
  | nil =>
    obtain rfl : [] = bs := by simpa using h
    exact List.Forall₂.nil
  | cons a as ih =>
    simp only [List.mapM_cons, Option.bind_eq_bind, Option.bind_eq_some_iff] at h
    obtain ⟨b, hb, bs', hbs, hcons⟩ := h
    obtain rfl : b :: bs' = bs := by simpa using hcons
    exact List.Forall₂.cons hb (ih hbs)

/-- A walk that succeeds at every entry succeeds. -/
theorem exists_mapM_eq_some {α β : Type} {f : α → Option β} {as : List α}
    (h : ∀ a ∈ as, ∃ b, f a = some b) : ∃ bs, as.mapM f = some bs := by
  induction as with
  | nil => exact ⟨[], rfl⟩
  | cons a as ih =>
    obtain ⟨b, hb⟩ := h a (by simp)
    obtain ⟨bs, hbs⟩ := ih fun c hc => h c (by simp [hc])
    exact ⟨b :: bs, by simp [List.mapM_cons, hb, hbs]⟩

/-- A walk over entries made from others, giving each back in another shape. -/
theorem mapM_mapIdx {α β γ : Type} {f : ℕ → α → β} {g : β → Option γ} {h : α → γ}
    (hg : ∀ i a, g (f i a) = some (h a)) (as : List α) : (as.mapIdx f).mapM g = some (as.map h) := by
  induction as generalizing f with
  | nil => rfl
  | cons a as ih =>
    rw [List.mapIdx_cons, List.mapM_cons, hg, ih fun i b => hg (i + 1) b]
    rfl

/-- A walk that fails nowhere, over entries made from others and their indices. -/
theorem mapM_zipIdx_map {α β γ : Type} {h : α → β} {f : β → ℕ → Option γ} {g : ℕ → α → γ}
    (hf : ∀ a i, f (h a) i = some (g i a)) (as : List α) (n : ℕ) :
    ((as.map h).zipIdx n).mapM (fun p => f p.1 p.2) = some (as.mapIdx fun i => g (n + i)) := by
  induction as generalizing n with
  | nil => rfl
  | cons a as ih =>
    rw [List.map_cons, List.zipIdx_cons, List.mapM_cons, hf, ih (n + 1), List.mapIdx_cons]
    simp only [Nat.add_assoc, Nat.add_comm 1]
    rfl

/-- A walk over entries and their indices fails exactly where one of the entries does. -/
theorem isSome_mapM_zipIdx {α β : Type} {f : α → ℕ → Option β} {ok : α → Prop} (hf : ∀ a i, (f a i).isSome ↔ ok a)
    (as : List α) (n : ℕ) : ((as.zipIdx n).mapM fun p => f p.1 p.2).isSome ↔ ∀ a ∈ as, ok a := by
  induction as generalizing n with
  | nil => simp
  | cons a as ih =>
    rw [List.zipIdx_cons, List.mapM_cons, List.forall_mem_cons, ← hf a n, ← ih (n + 1)]
    cases f a n <;> cases (as.zipIdx (n + 1)).mapM (fun p => f p.1 p.2) <;> simp

/-- A walk that fails nowhere collects what a filter would. -/
theorem mapM_eq_filterMap {α β : Type} {f : α → Option β} {as : List α} (h : ∀ a ∈ as, ∃ b, f a = some b) :
    as.mapM f = some (as.filterMap f) := by
  induction as with
  | nil => rfl
  | cons a as ih =>
    obtain ⟨b, hb⟩ := h a (by simp)
    rw [List.mapM_cons, hb, ih fun c hc => h c (by simp [hc]), List.filterMap_cons_some hb]
    rfl

/-- What a filter collects, against the entries it collects something from. -/
theorem forall₂_filterMap (f : α → Option β) (as : List α) :
    List.Forall₂ (fun a b => f a = some b) (as.filter fun a => (f a).isSome) (as.filterMap f) := by
  induction as with
  | nil => exact .nil
  | cons a as ih =>
    cases h : f a with
    | none => simpa [h] using ih
    | some b => simpa [h] using ih

/-- A relation that, between related entries, only asks something of the first ones. -/
theorem forall₂_iff_forall {R S : α → β → Prop} {P : α → Prop} {as : List α} {bs : List β}
    (h : List.Forall₂ R as bs) (hP : ∀ a b, R a b → (S a b ↔ P a)) : List.Forall₂ S as bs ↔ ∀ a ∈ as, P a := by
  induction h with
  | nil => simp
  | cons hab _ ih => rw [List.forall₂_cons, List.forall_mem_cons, hP _ _ hab, ih]

/-- What has been trimmed at both ends stays as it is. -/
theorem rdropWhile_dropWhile_idempotent (p : α → Bool) (as : List α) :
    (((as.dropWhile p).rdropWhile p).dropWhile p).rdropWhile p = (as.dropWhile p).rdropWhile p := by
  have hfront : ((as.dropWhile p).rdropWhile p).dropWhile p = (as.dropWhile p).rdropWhile p := by
    refine List.dropWhile_eq_self_iff.mpr fun hpos => ?_
    have hinitial : (as.dropWhile p).rdropWhile p <+: as.dropWhile p := List.rdropWhile_prefix ..
    rw [hinitial.getElem hpos]
    have hkept : (as.dropWhile p).dropWhile p = as.dropWhile p := List.dropWhile_idempotent ..
    exact List.dropWhile_eq_self_iff.mp hkept _
  rw [hfront]
  exact List.rdropWhile_idempotent ..

/-- A loop that may fail: where each turn after the ones before it succeeds and keeps the invariant
of what is done, the loop does. -/
theorem foldlM_invariant {σ α : Type} {step : σ → α → Option σ} {start : σ} (Inv : List α → σ → Prop)
    (hstart : Inv [] start) {as : List α} (hstep : ∀ done a rest s, as = done ++ a :: rest →
      done.foldlM step start = some s → Inv done s → ∃ s', step s a = some s' ∧ Inv (done ++ [a]) s') :
    ∃ s, as.foldlM step start = some s ∧ Inv as s := by
  have hrest : ∀ rest done s, as = done ++ rest → done.foldlM step start = some s → Inv done s →
      ∃ s', rest.foldlM step s = some s' ∧ Inv as s' := by
    intro rest
    induction rest with
    | nil =>
      rintro done s has - hinv
      rw [List.append_nil] at has
      exact ⟨s, rfl, has ▸ hinv⟩
    | cons a rest ih =>
      intro done s has hdone hinv
      obtain ⟨s', hs', hinv'⟩ := hstep done a rest s has hdone hinv
      have hmore : (done ++ [a]).foldlM step start = some s' := by
        rw [List.foldlM_append, hdone]
        simp [hs']
      obtain ⟨s'', hs'', hinv''⟩ := ih (done ++ [a]) s' (by simpa using has) hmore hinv'
      exact ⟨s'', by simp [hs', hs''], hinv''⟩
  exact hrest as [] start rfl rfl hstart

/-- A loop that throws at the first entry it cannot take keeps what it has made of those before. -/
theorem foldlM_throwing {σ α : Type} (stops : α → Bool) (f : σ → α → σ) (as : List α) (s : σ) :
    as.foldlM (fun s a => if stops a = true then Except.error s else Except.ok (f s a)) s =
      if as.any stops = true then Except.error ((as.takeWhile fun a => !stops a).foldl f s)
      else Except.ok ((as.takeWhile fun a => !stops a).foldl f s) := by
  induction as generalizing s with
  | nil => rfl
  | cons a as ih =>
    rw [List.foldlM_cons]
    cases ha : stops a with
    | true => simp [ha, bind, Except.bind]
    | false =>
      simp only [Bool.false_eq_true, if_false, List.any_cons, ha, Bool.false_or, List.takeWhile_cons, Bool.not_false,
        if_true, List.foldl_cons]
      exact ih (f s a)

end NetworkHealth
