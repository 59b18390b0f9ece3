import Mathlib.Data.List.Basic
import Mathlib.Algebra.Order.Ring.Nat

/-! Machines that answer every input in every state, and what holds along their runs.
Nothing here is about a particular program: a model supplies the state, the inputs and
the step, and gets the run rules below. -/
namespace NetworkHealth

structure Machine (σ α : Type*) where
  step : σ → α → σ

namespace Machine
variable {σ α η : Type*} (M : Machine σ α)

/-- The state after a list of inputs, first input first. -/
def run (s : σ) (as : List α) : σ := as.foldl M.step s

@[simp] theorem run_nil (s : σ) : M.run s [] = s := rfl

@[simp] theorem run_cons (s : σ) (a : α) (as : List α) :
    M.run s (a :: as) = M.run (M.step s a) as := rfl

@[simp] theorem run_append (s : σ) (as bs : List α) :
    M.run s (as ++ bs) = M.run (M.run s as) bs := List.foldl_append ..

/-- Every input of the run is admitted by the state that receives it. -/
def Admits (ok : σ → α → Prop) : σ → List α → Prop
  | _, [] => True
  | s, a :: as => ok s a ∧ Admits ok (M.step s a) as

instance decidableAdmits (ok : σ → α → Prop) [∀ s a, Decidable (ok s a)] :
    ∀ (s : σ) (as : List α), Decidable (M.Admits ok s as)
  | _, [] => inferInstanceAs (Decidable True)
  | s, a :: as =>
    have := decidableAdmits ok (M.step s a) as
    inferInstanceAs (Decidable (ok s a ∧ M.Admits ok (M.step s a) as))

variable {M}

@[simp] theorem admits_append {ok : σ → α → Prop} {s : σ} {as bs : List α} :
    M.Admits ok s (as ++ bs) ↔ M.Admits ok s as ∧ M.Admits ok (M.run s as) bs := by
  induction as generalizing s with
  | nil => simp [Admits]
  | cons a as ih => simp [Admits, ih, and_assoc]

theorem admits_of_forall {ok : σ → α → Prop} {as : List α} (h : ∀ a ∈ as, ∀ s, ok s a) (s : σ) :
    M.Admits ok s as := by
  induction as generalizing s with
  | nil => trivial
  | cons a as ih => exact ⟨h a (by simp) s, ih (fun b hb => h b (by simp [hb])) _⟩

/-- What admitted steps keep, an admitted run keeps. -/
theorem run_invariant (Inv : σ → Prop) (ok : σ → α → Prop)
    (hstep : ∀ s a, Inv s → ok s a → Inv (M.step s a)) {s : σ} {as : List α}
    (hs : Inv s) (has : M.Admits ok s as) : Inv (M.run s as) := by
  induction as generalizing s with
  | nil => exact hs
  | cons a as ih => exact ih (hstep s a hs has.1) has.2

/-- A machine whose admitted steps are, seen from outside, steps of another: its runs are runs of that. -/
theorem run_refines {τ β : Type*} {N : Machine τ β} (seen : σ → τ) (does : α → β) (Inv : σ → Prop) (ok : σ → α → Prop)
    (hstep : ∀ s a, Inv s → ok s a → Inv (M.step s a) ∧ seen (M.step s a) = N.step (seen s) (does a)) {s : σ}
    {as : List α} (hs : Inv s) (has : M.Admits ok s as) :
    Inv (M.run s as) ∧ seen (M.run s as) = N.run (seen s) (as.map does) := by
  induction as generalizing s with
  | nil => exact ⟨hs, rfl⟩
  | cons a as ih =>
    obtain ⟨hinv, hseen⟩ := hstep s a hs has.1
    rw [List.map_cons, run_cons, run_cons, ← hseen]
    exact ih hinv has.2

/-- Two guards that agree under an invariant admit the same runs. -/
theorem admits_congr (Inv : σ → Prop) {ok ok' : σ → α → Prop} (hok : ∀ s a, Inv s → (ok s a ↔ ok' s a))
    (hstep : ∀ s a, Inv s → ok s a → Inv (M.step s a)) {s : σ} (hs : Inv s) (as : List α) :
    M.Admits ok s as ↔ M.Admits ok' s as := by
  induction as generalizing s with
  | nil => exact Iff.rfl
  | cons a as ih =>
    simp only [Admits, ← hok s a hs]
    exact and_congr_right fun ha => ih (hstep s a hs ha)

/-- The unguarded rule: what every step keeps, every run keeps. -/
theorem run_keeps (Inv : σ → Prop) (hstep : ∀ s a, Inv s → Inv (M.step s a)) {s : σ}
    (hs : Inv s) (as : List α) : Inv (M.run s as) := by
  induction as generalizing s with
  | nil => exact hs
  | cons a as ih => exact ih (hstep s a hs)

/-- The same rule for a loop that is written as a fold. -/
theorem foldl_keeps {f : σ → α → σ} (Inv : σ → Prop) (hstep : ∀ s a, Inv s → Inv (f s a)) {s : σ}
    (hs : Inv s) (as : List α) : Inv (as.foldl f s) :=
  run_keeps (M := ⟨f⟩) Inv hstep hs as

/-- Inputs that do nothing may be left out. -/
theorem foldl_filter_idle {f : σ → α → σ} (Inv : σ → Prop) (hstep : ∀ s a, Inv s → Inv (f s a)) {p : α → Bool}
    (hidle : ∀ s a, Inv s → p a = false → f s a = s) {s : σ} (hs : Inv s) (as : List α) :
    (as.filter p).foldl f s = as.foldl f s := by
  induction as generalizing s with
  | nil => rfl
  | cons a as ih =>
    cases ha : p a with
    | false => rw [List.filter_cons_of_neg (by simp [ha]), List.foldl_cons, hidle s a hs ha, ih hs]
    | true => rw [List.filter_cons_of_pos ha, List.foldl_cons, List.foldl_cons, ih (hstep s a hs)]

/-- A property holds in every state of a run exactly if the run is admitted, where under an
invariant a step keeps the property exactly if it is. -/
theorem forall_prefix_iff_admits (Inv : σ → Prop) {P : σ → Prop} {ok : σ → α → Prop}
    (hstep : ∀ s a, Inv s → Inv (M.step s a)) (hkeeps : ∀ s a, Inv s → P s → (P (M.step s a) ↔ ok s a)) {s : σ}
    (hs : Inv s) (hP : P s) (as : List α) : (∀ taken, taken <+: as → P (M.run s taken)) ↔ M.Admits ok s as := by
  induction as generalizing s with
  | nil =>
    refine iff_of_true (fun taken htaken => ?_) trivial
    rw [List.prefix_nil.mp htaken]
    exact hP
  | cons a as ih =>
    constructor
    · intro hall
      have hnext : P (M.step s a) := hall [a] (List.prefix_append [a] as)
      refine ⟨(hkeeps s a hs hP).mp hnext, (ih (hstep s a hs) hnext).mp fun taken htaken => ?_⟩
      exact hall (a :: taken) (List.cons_prefix_cons.mpr ⟨rfl, htaken⟩)
    · rintro ⟨ha, hrest⟩ taken htaken
      cases taken with
      | nil => exact hP
      | cons b taken =>
        obtain ⟨rfl, hrestTaken⟩ := List.cons_prefix_cons.mp htaken
        exact (ih (hstep s b hs) ((hkeeps s b hs hP).mpr ha)).mpr hrest taken hrestTaken

/-- Inputs that carry a time, handed over in the order of their times. -/
def Timed (time : α → ℕ) (start : ℕ) (as : List α) : Prop :=
  (start :: as.map time).Pairwise (· ≤ ·)

instance (time : α → ℕ) (start : ℕ) (as : List α) : Decidable (Timed time start as) :=
  inferInstanceAs (Decidable (List.Pairwise _ _))

/-- An invariant that may speak of the last time seen, along a timed run. -/
theorem run_timed (time : α → ℕ) (Inv : ℕ → σ → Prop)
    (hstep : ∀ t s a, Inv t s → t ≤ time a → Inv (time a) (M.step s a)) {t : ℕ} {s : σ}
    (hs : Inv t s) {as : List α} (has : Timed time t as) :
    ∃ t', t ≤ t' ∧ (∀ a ∈ as, time a ≤ t') ∧ Inv t' (M.run s as) := by
  induction as generalizing t s with
  | nil => exact ⟨t, le_rfl, by simp, hs⟩
  | cons a as ih =>
    have ha : t ≤ time a := List.rel_of_pairwise_cons has (by simp)
    obtain ⟨t', hle, hall, hinv⟩ := ih (hstep t s a hs ha) has.of_cons
    refine ⟨t', ha.trans hle, ?_, hinv⟩
    simpa using ⟨hle, hall⟩

/-- What an invariant grants every step, it grants a run. -/
theorem admits_of_invariant (Inv : σ → Prop) {ok : σ → α → Prop} (hok : ∀ s a, Inv s → ok s a)
    (hstep : ∀ s a, Inv s → Inv (M.step s a)) {s : σ} (hs : Inv s) (as : List α) : M.Admits ok s as := by
  induction as generalizing s with
  | nil => trivial
  | cons a as ih => exact ⟨hok s a hs, ih (hstep s a hs)⟩

/-- Along a timed run in which something is given of every step, two guards that agree under an
invariant admit the same runs. -/
theorem admits_congr_timed (time : α → ℕ) (Inv : ℕ → σ → Prop) {given ok ok' : σ → α → Prop}
    (hok : ∀ t s a, Inv t s → t ≤ time a → given s a → (ok s a ↔ ok' s a))
    (hstep : ∀ t s a, Inv t s → t ≤ time a → given s a → ok s a → Inv (time a) (M.step s a))
    {t : ℕ} {s : σ} (hs : Inv t s) {as : List α} (has : Timed time t as)
    (hgiven : M.Admits given s as) : M.Admits ok s as ↔ M.Admits ok' s as := by
  induction as generalizing t s with
  | nil => exact Iff.rfl
  | cons a as ih =>
    have ha : t ≤ time a := List.rel_of_pairwise_cons has (by simp)
    simp only [Admits, ← hok t s a hs ha hgiven.1]
    exact and_congr_right fun hgood => ih (hstep t s a hs ha hgiven.1 hgood) has.of_cons hgiven.2

variable (M)

/-- The states of a run that never ends. -/
def along (s : σ) (as : ℕ → α) : ℕ → σ
  | 0 => s
  | n + 1 => M.step (along s as n) (as n)

theorem along_eq_run (s : σ) (as : ℕ → α) (n : ℕ) : M.along s as n = M.run s ((List.range n).map as) := by
  induction n with
  | zero => rfl
  | succ n ih =>
    rw [along, ih, List.range_succ, List.map_append, run_append]
    rfl

/-- The number of steps of a run at which `p` holds. -/
def count (p : σ → α → Bool) : σ → List α → ℕ
  | _, [] => 0
  | s, a :: as => (if p s a then 1 else 0) + count p (M.step s a) as

@[simp] theorem count_append (p : σ → α → Bool) (s : σ) (as bs : List α) :
    M.count p s (as ++ bs) = M.count p s as + M.count p (M.run s as) bs := by
  induction as generalizing s with
  | nil => simp [count]
  | cons a as ih => simp [count, ih, Nat.add_assoc]

/-- The same machine with a history variable that reads every step and disturbs none. -/
def observe (see : η → σ → α → η) : Machine (σ × η) α :=
  ⟨fun s a => (M.step s.1 a, see s.2 s.1 a)⟩

@[simp] theorem observe_run_fst (see : η → σ → α → η) (s : σ × η) (as : List α) :
    ((M.observe see).run s as).1 = M.run s.1 as := by
  induction as generalizing s with
  | nil => rfl
  | cons a as ih => exact ih _

/-- What the history variable does not enter into is the same without it. -/
theorem observe_admits (see : η → σ → α → η) (ok : σ → α → Prop) (s : σ × η) (as : List α) :
    (M.observe see).Admits (fun s a => ok s.1 a) s as ↔ M.Admits ok s.1 as := by
  induction as generalizing s with
  | nil => exact Iff.rfl
  | cons a as ih => exact and_congr_right fun _ => ih _

/-- Two runs of one machine side by side, an input standing for one of each. -/
def twin {β : Type*} (first second : β → α) : Machine (σ × σ) β :=
  ⟨fun s b => (M.step s.1 (first b), M.step s.2 (second b))⟩

@[simp] theorem run_twin {β : Type*} (first second : β → α) (s : σ × σ) (bs : List β) :
    (M.twin first second).run s bs = (M.run s.1 (bs.map first), M.run s.2 (bs.map second)) := by
  induction bs generalizing s with
  | nil => rfl
  | cons b bs ih => exact ih _

/-- Some step of the run takes an input in a state that `p` relates to it. -/
def Occurs (p : σ → α → Prop) (s : σ) (as : List α) : Prop :=
  ∃ before a after, as = before ++ a :: after ∧ p (M.run s before) a

variable {M}

theorem occurs_cons {p : σ → α → Prop} {s : σ} {a : α} {as : List α} :
    M.Occurs p s (a :: as) ↔ p s a ∨ M.Occurs p (M.step s a) as := by
  constructor
  · rintro ⟨before, b, after, he, hp⟩
    cases before with
    | nil =>
      obtain ⟨rfl, -⟩ := List.cons.inj he
      exact Or.inl hp
    | cons first before =>
      obtain ⟨rfl, rfl⟩ := List.cons.inj he
      exact Or.inr ⟨before, b, after, rfl, hp⟩
  · rintro (hp | ⟨before, b, after, rfl, hp⟩)
    · exact ⟨[], a, as, rfl, hp⟩
    · exact ⟨a :: before, b, after, rfl, hp⟩

theorem occurs_concat {p : σ → α → Prop} {s : σ} {as : List α} {a : α} :
    M.Occurs p s (as ++ [a]) ↔ M.Occurs p s as ∨ p (M.run s as) a := by
  constructor
  · rintro ⟨before, b, after, he, hp⟩
    rcases List.eq_nil_or_concat after with rfl | ⟨after, c, rfl⟩
    · obtain ⟨rfl, hb⟩ := List.append_inj' he rfl
      cases hb
      exact Or.inr hp
    · rw [List.concat_eq_append, ← List.cons_append, ← List.append_assoc] at he
      exact Or.inl ⟨before, b, after, (List.append_inj' he rfl).1, hp⟩
  · rintro (⟨before, b, after, rfl, hp⟩ | hp)
    · exact ⟨before, b, after ++ [a], by simp, hp⟩
    · exact ⟨as, a, [], rfl, hp⟩

end Machine
end NetworkHealth
