import Mathlib.Tactic.TypeStar
import Mathlib.Order.Basic

/-! Loops that use up what they read. A round either ends the loop, fails, or goes on with
less than it had, so that the size of what is left bounds the rounds. -/
namespace NetworkHealth

/-- How one round of a loop ends. -/
inductive Round (σ : Type*)
  | done (last : σ)
  | next (state : σ)

def Round.state {σ : Type*} : Round σ → σ
  | .done last => last
  | .next state => state

@[simp] theorem Round.state_done {σ : Type*} (last : σ) : (Round.done last).state = last := rfl
@[simp] theorem Round.state_next {σ : Type*} (state : σ) : (Round.next state).state = state := rfl

section Loop
variable {σ ε : Type*} (round : σ → Except ε (Round σ)) (exhausted : ε)

def loopFor : ℕ → σ → Except ε σ
  | 0, _ => .error exhausted
  | fuel + 1, s =>
    match round s with
    | .error e => .error e
    | .ok (.done last) => .ok last
    | .ok (.next s') => loopFor fuel s'

variable (size : σ → ℕ)

/-- The loop, with as many rounds as what is left allows. -/
def loop (s : σ) : Except ε σ := loopFor round exhausted (size s + 1) s

/-- Every round that goes on leaves less. -/
def Shrinks : Prop := ∀ s s', round s = .ok (.next s') → size s' < size s

variable {round exhausted size}

theorem loopFor_eq_of_lt (h : Shrinks round size) {fuel fuel' : ℕ} {s : σ} (hf : size s < fuel)
    (hf' : size s < fuel') : loopFor round exhausted fuel s = loopFor round exhausted fuel' s := by
  induction fuel generalizing fuel' s with
  | zero => omega
  | succ fuel ih =>
    cases fuel' with
    | zero => omega
    | succ fuel' =>
      simp only [loopFor]
      cases hround : round s with
      | error e => rfl
      | ok r =>
        cases r with
        | done last => rfl
        | next s' =>
          have hlt := h s s' hround
          exact ih (by omega) (by omega)

theorem loop_done {s last : σ} (h : round s = .ok (.done last)) : loop round exhausted size s = .ok last := by
  simp only [loop, loopFor, h]

theorem loop_error {s : σ} {e : ε} (h : round s = .error e) : loop round exhausted size s = .error e := by
  simp only [loop, loopFor, h]

theorem loop_next (hsize : Shrinks round size) {s s' : σ} (h : round s = .ok (.next s')) :
    loop round exhausted size s = loop round exhausted size s' := by
  have hlt := hsize s s' h
  have hround : loop round exhausted size s = loopFor round exhausted (size s) s' := by
    simp only [loop, loopFor, h]
  rw [hround]
  exact loopFor_eq_of_lt hsize (by omega) (by omega)

/-- Only what the first round makes of it counts. -/
theorem loop_congr (hsize : Shrinks round size) {s t : σ} (h : round s = round t) :
    loop round exhausted size s = loop round exhausted size t := by
  cases hround : round t with
  | error e => rw [loop_error hround, loop_error (h.trans hround)]
  | ok r =>
    cases r with
    | done last => rw [loop_done hround, loop_done (h.trans hround)]
    | next s' => rw [loop_next hsize hround, loop_next hsize (h.trans hround)]

/-- What every round keeps, and the last one turns into the result. -/
theorem loop_ok (inv post : σ → Prop) (hsize : Shrinks round size)
    (hnext : ∀ s s', inv s → round s = .ok (.next s') → inv s')
    (hdone : ∀ s last, inv s → round s = .ok (.done last) → post last) {s last : σ} (hs : inv s)
    (h : loop round exhausted size s = .ok last) : post last := by
  induction hn : size s using Nat.strongRecOn generalizing s with
  | ind n ih =>
    cases hround : round s with
    | error e =>
      rw [loop_error hround] at h
      cases h
    | ok r =>
      cases r with
      | done last' =>
        rw [loop_done hround] at h
        cases h
        exact hdone s _ hs hround
      | next s' =>
        rw [loop_next hsize hround] at h
        exact ih (size s') (hn ▸ hsize s s' hround) (hnext s s' hs hround) h rfl

/-- What relates a state to the result, if the last round establishes it and every other one
carries it back to where it started. -/
theorem loop_relates (post : σ → σ → Prop) (hsize : Shrinks round size)
    (hdone : ∀ s last, round s = .ok (.done last) → post s last)
    (hnext : ∀ s s' last, round s = .ok (.next s') → post s' last → post s last) {s last : σ}
    (h : loop round exhausted size s = .ok last) : post s last := by
  induction hn : size s using Nat.strongRecOn generalizing s with
  | ind n ih =>
    cases hround : round s with
    | error e =>
      rw [loop_error hround] at h
      cases h
    | ok r =>
      cases r with
      | done last' =>
        rw [loop_done hround] at h
        cases h
        exact hdone s _ hround
      | next s' =>
        rw [loop_next hsize hround] at h
        exact hnext s s' last hround (ih (size s') (hn ▸ hsize s s' hround) h rfl)

/-- The rounds never run out. -/
theorem loop_ne_exhausted (hsize : Shrinks round size) (hround : ∀ s, round s ≠ .error exhausted) (s : σ) :
    loop round exhausted size s ≠ .error exhausted := by
  induction hn : size s using Nat.strongRecOn generalizing s with
  | ind n ih =>
    cases h : round s with
    | error e =>
      rw [loop_error h]
      rintro ⟨⟩
      exact hround s h
    | ok r =>
      cases r with
      | done last =>
        rw [loop_done h]
        nofun
      | next s' =>
        rw [loop_next hsize h]
        exact ih (size s') (hn ▸ hsize s s' h) s' rfl

end Loop

end NetworkHealth
