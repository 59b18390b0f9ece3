import NetworkHealth.Library.Machine

/-! A letter box with a doorbell, between a sender and a receiver who never meet. The sender puts
a letter in and rings afterwards; the receiver silences the bell before emptying the box. Whatever
the order of their steps, no letter lies in the box without anybody going to know of it. -/
namespace NetworkHealth

structure Doorbell (α : Type*) where
  box : List α
  rings : ℕ
  /-- The sender has put a letter in and is about to ring. -/
  aboutToRing : Bool
  /-- The receiver has silenced the bell and is about to empty the box. -/
  aboutToEmpty : Bool

namespace Doorbell
variable {α : Type*}

inductive Move (α : Type*)
  | put (letter : α)
  | ring
  | silence
  | empty

def step (d : Doorbell α) : Move α → Doorbell α
  | .put letter => { d with box := d.box ++ [letter], aboutToRing := true }
  | .ring => { d with rings := d.rings + 1, aboutToRing := false }
  | .silence => { d with rings := 0, aboutToEmpty := true }
  | .empty => { d with box := [], aboutToEmpty := false }

/-- Nobody waits for a letter that is there. -/
def Heeded (d : Doorbell α) : Prop := d.box ≠ [] → 0 < d.rings ∨ d.aboutToRing = true ∨ d.aboutToEmpty = true

theorem heeded_step (d : Doorbell α) (move : Move α) : (d.step move).Heeded := by
  intro hbox
  cases move with
  | put letter => exact Or.inr (Or.inl rfl)
  | ring => exact Or.inl (Nat.succ_pos _)
  | silence => exact Or.inr (Or.inr rfl)
  | empty => exact absurd rfl hbox

/-- A machine whose steps are moves at the door, or none at all, keeps every letter heeded. -/
theorem heeded_run {σ β : Type*} {M : Machine σ β} (door : σ → Doorbell α)
    (hmove : ∀ s a, door (M.step s a) = door s ∨ ∃ move, door (M.step s a) = (door s).step move) {s : σ}
    (h : (door s).Heeded) (as : List β) : (door (M.run s as)).Heeded := by
  refine Machine.run_keeps (fun s => (door s).Heeded) (fun s a h => ?_) h as
  obtain hidle | ⟨move, hmove⟩ := hmove s a
  · rw [hidle]
    exact h
  · rw [hmove]
    exact heeded_step _ move

end Doorbell
end NetworkHealth
