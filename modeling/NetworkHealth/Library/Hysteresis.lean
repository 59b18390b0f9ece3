import Mathlib.Data.List.Basic
import Mathlib.Algebra.Order.Ring.Nat

/-! A shown value that follows a stream of verdicts reluctantly: it changes only when enough
equal verdicts in a row argue for the change, how many being set anew at every verdict.
Histories are newest first. -/
namespace NetworkHealth.Hysteresis
variable {α : Type*} [DecidableEq α]

/-- The length of the run of equal verdicts at the newest end. -/
def trailingRun : List α → ℕ
  | [] => 0
  | v :: past => (past.takeWhile (· = v)).length + 1

/-- The rule over a history of verdicts, each with the patience in force at it: the first is
shown at once, a later one only if its run is longer than the patience. -/
def ruled : List (α × ℕ) → Option α
  | [] => none
  | (v, patience) :: past =>
    match ruled past with
    | none => some v
    | some shown => if patience < trailingRun (v :: past.map Prod.fst) then some v else some shown

theorem trailingRun_cons_self (v : α) (past : List α) :
    trailingRun (v :: v :: past) = trailingRun (v :: past) + 1 := by
  simp [trailingRun]

theorem trailingRun_cons_of_ne {v w : α} (past : List α) (h : v ≠ w) :
    trailingRun (v :: w :: past) = 1 := by
  simp [trailingRun, h.symm]

theorem ruled_isSome (history : List (α × ℕ)) (h : history ≠ []) : (ruled history).isSome := by
  match history, h with
  | (v, patience) :: past, _ =>
    unfold ruled
    split
    · rfl
    · split <;> rfl

/-- What a shown value, a candidate and its streak say about the history. -/
def Encodes (shown candidate : α) (streak : ℕ) : List (α × ℕ) → Prop
  | [] => False
  | (v, patience) :: past => ruled ((v, patience) :: past) = some shown ∧ candidate = v ∧
      (v = shown ∧ streak = 0 ∨ v ≠ shown ∧ streak = trailingRun (v :: past.map Prod.fst))

theorem encodes_singleton (v : α) (patience : ℕ) : Encodes v v 0 [(v, patience)] :=
  ⟨rfl, rfl, Or.inl ⟨rfl, rfl⟩⟩

variable {shown candidate : α} {streak : ℕ} {history : List (α × ℕ)}

theorem Encodes.ruled_eq (h : Encodes shown candidate streak history) : ruled history = some shown := by
  cases history with
  | nil => exact h.elim
  | cons a past => exact h.1

/-- A verdict that agrees with what is shown. -/
theorem Encodes.agree (h : Encodes shown candidate streak history) (patience : ℕ) :
    Encodes shown shown 0 ((shown, patience) :: history) := by
  refine ⟨?_, rfl, Or.inl ⟨rfl, rfl⟩⟩
  unfold ruled
  rw [h.ruled_eq]
  simp

/-- The streak after a verdict that disagrees is the run it ends. -/
theorem Encodes.trailingRun_eq (h : Encodes shown candidate streak history) {v : α} (hv : v ≠ shown) :
    trailingRun (v :: history.map Prod.fst) = if v = candidate then streak + 1 else 1 := by
  match history, h with
  | (w, patience) :: past, ⟨_, hcandidate, hstreak⟩ =>
    subst hcandidate
    rw [List.map_cons]
    split_ifs with hvw
    · subst hvw
      rcases hstreak with ⟨he, -⟩ | ⟨-, hstreak⟩
      · exact absurd he hv
      · rw [trailingRun_cons_self, hstreak]
    · exact trailingRun_cons_of_ne _ hvw

/-- A verdict that disagrees and has not yet lasted. -/
theorem Encodes.doubt (h : Encodes shown candidate streak history) {v : α} (hv : v ≠ shown) {patience : ℕ}
    (hfew : ¬ patience < if v = candidate then streak + 1 else 1) :
    Encodes shown v (if v = candidate then streak + 1 else 1) ((v, patience) :: history) := by
  rw [← h.trailingRun_eq hv] at hfew ⊢
  refine ⟨?_, rfl, Or.inr ⟨hv, rfl⟩⟩
  unfold ruled
  rw [h.ruled_eq]
  exact if_neg hfew

/-- A verdict that disagrees for longer than the patience in force. -/
theorem Encodes.switch (h : Encodes shown candidate streak history) {v : α} (hv : v ≠ shown) {patience : ℕ}
    (hmany : patience < if v = candidate then streak + 1 else 1) :
    Encodes v v 0 ((v, patience) :: history) := by
  rw [← h.trailingRun_eq hv] at hmany
  refine ⟨?_, rfl, Or.inl ⟨rfl, rfl⟩⟩
  unfold ruled
  rw [h.ruled_eq]
  exact if_pos hmany

/-- The history ends with a run longer than the patience exactly if it starts, newest first,
with a window of that many equal verdicts. -/
theorem lt_trailingRun_iff {v : α} {past : List α} {n : ℕ} :
    n < trailingRun (v :: past) ↔ ∃ older, v :: past = List.replicate (n + 1) v ++ older := by
  induction past generalizing n with
  | nil =>
    constructor
    · intro h
      obtain rfl : n = 0 := by simpa [trailingRun] using h
      exact ⟨[], rfl⟩
    · rintro ⟨older, h⟩
      have hlen := congrArg List.length h
      simp at hlen
      simp [trailingRun]
      omega
  | cons w past ih =>
    cases n with
    | zero => simp [trailingRun]
    | succ n =>
      by_cases hvw : v = w
      · subst hvw
        rw [trailingRun_cons_self, Nat.add_lt_add_iff_right, ih]
        simp [List.replicate_succ]
      · rw [trailingRun_cons_of_ne _ hvw]
        simp [List.replicate_succ, Ne.symm hvw]

theorem ruled_of_lt {n : ℕ} {v : α} {past : List α} (h : n < trailingRun (v :: past)) :
    ruled ((v :: past).map (·, n)) = some v := by
  have hpast : (past.map (·, n)).map Prod.fst = past := by simp [Function.comp_def]
  rw [List.map_cons, ruled, hpast]
  split
  · rfl
  · exact if_pos h

theorem ruled_of_not_lt {n : ℕ} {v : α} {past : List α} (h : ¬ n < trailingRun (v :: past))
    (hpast : past ≠ []) : ruled ((v :: past).map (·, n)) = ruled (past.map (·, n)) := by
  have hfst : (past.map (·, n)).map Prod.fst = past := by simp [Function.comp_def]
  have hsome := ruled_isSome (past.map (·, n)) (by simpa using hpast)
  rw [List.map_cons, ruled, hfst]
  split
  · next hnone => rw [hnone] at hsome; exact absurd hsome (by simp)
  · next hshown => rw [if_neg h, hshown]

/-- With one patience throughout, the newest window longer than it is what is shown, and the
first verdict of all if there is none. -/
theorem ruled_constant (n : ℕ) (history : List α) :
    (∀ newer v older, history = newer ++ List.replicate (n + 1) v ++ older →
      (∀ newer' v' older', history = newer' ++ List.replicate (n + 1) v' ++ older' →
        newer.length ≤ newer'.length) →
      ruled (history.map (·, n)) = some v) ∧
    ((∀ newer v older, history ≠ newer ++ List.replicate (n + 1) v ++ older) →
      ruled (history.map (·, n)) = history.getLast?) := by
  induction history with
  | nil => exact ⟨fun newer v older h => by simp [List.replicate_succ] at h, fun _ => rfl⟩
  | cons a past ih =>
    by_cases hrun : n < trailingRun (a :: past)
    · obtain ⟨rest, hwindow⟩ := lt_trailingRun_iff.mp hrun
      rw [ruled_of_lt hrun]
      refine ⟨fun newer v older h hnewest => ?_, fun hnone => absurd hwindow (hnone [] a rest)⟩
      obtain rfl : newer = [] := by simpa using hnewest [] a rest hwindow
      rw [List.nil_append, List.replicate_succ, List.cons_append] at h
      rw [(List.cons.inj h).1]
    · have hshift : ∀ newer v older, a :: past = newer ++ List.replicate (n + 1) v ++ older →
          ∃ newer', newer = a :: newer' ∧ past = newer' ++ List.replicate (n + 1) v ++ older := by
        intro newer v older h
        cases newer with
        | nil =>
          have hv : a = v := by
            rw [List.nil_append, List.replicate_succ, List.cons_append] at h
            exact (List.cons.inj h).1
          subst hv
          exact absurd (lt_trailingRun_iff.mpr ⟨older, h⟩) hrun
        | cons b newer =>
          obtain ⟨rfl, hpast⟩ := List.cons.inj h
          exact ⟨newer, rfl, hpast⟩
      cases past with
      | nil =>
        refine ⟨fun newer v older h => ?_, fun _ => rfl⟩
        obtain ⟨newer', -, hpast⟩ := hshift newer v older h
        simp [List.replicate_succ] at hpast
      | cons b past =>
        rw [ruled_of_not_lt hrun (by simp)]
        refine ⟨fun newer v older h hnewest => ?_, fun hnone => ?_⟩
        · obtain ⟨newer, rfl, hpast⟩ := hshift newer v older h
          refine ih.1 newer v older hpast fun newer' v' older' h' => ?_
          have hle := hnewest (a :: newer') v' older' (by rw [h']; rfl)
          simpa using hle
        · rw [ih.2 fun newer v older h => hnone (a :: newer) v older (by rw [h]; rfl)]
          simp

/-- Verdicts that have agreed for longer than their patience are what is shown. -/
theorem ruled_of_agree {v : α} {n : ℕ} {newer : List (α × ℕ)} (hall : ∀ sample ∈ newer, sample = (v, n))
    (hmany : n < newer.length) (older : List (α × ℕ)) : ruled (newer ++ older) = some v := by
  obtain ⟨more, hlength⟩ : ∃ more, newer.length = n + more + 1 := ⟨newer.length - n - 1, by omega⟩
  have hreplicate : newer = (v, n) :: List.replicate (n + more) (v, n) := by
    rw [← List.replicate_succ, ← hlength]
    exact List.eq_replicate_iff.mpr ⟨rfl, hall⟩
  have hlong : n < trailingRun (v :: (List.replicate (n + more) (v, n) ++ older).map Prod.fst) := by
    refine lt_trailingRun_iff.mpr ⟨List.replicate more v ++ older.map Prod.fst, ?_⟩
    rw [List.map_append, List.map_replicate, List.replicate_succ, List.cons_append, ← List.append_assoc,
      List.replicate_append_replicate]
  rw [hreplicate, List.cons_append, ruled]
  split
  · rfl
  · exact if_pos hlong

end NetworkHealth.Hysteresis
