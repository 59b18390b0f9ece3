import Mathlib.Data.List.Basic
import Mathlib.Algebra.Order.Ring.Nat

/-! Keys spelled by joining a free text and fields that never use the separator. The text
itself may contain it: the fields are cut off from the end. -/
namespace NetworkHealth
variable {α : Type*} {sep : α}

theorem append_separated_inj {a a' b b' : List α} (hb : sep ∉ b) (hb' : sep ∉ b')
    (h : a ++ sep :: b = a' ++ sep :: b') : a = a' ∧ b = b' := by
  rw [List.append_eq_append_iff] at h
  rcases h with ⟨c, ha, hc⟩ | ⟨c, ha, hc⟩
  · cases c with
    | nil => exact ⟨by simpa using ha.symm, by simpa using hc⟩
    | cons x c =>
      rw [List.cons_append, List.cons.injEq] at hc
      exact absurd (hc.2 ▸ by simp) hb
  · cases c with
    | nil => exact ⟨by simpa using ha, by simpa using hc.symm⟩
    | cons x c =>
      rw [List.cons_append, List.cons.injEq] at hc
      exact absurd (hc.2 ▸ by simp) hb'

/-- A text and two separated fields. -/
def separatedKey (sep : α) (text first second : List α) : List α :=
  text ++ sep :: (first ++ sep :: second)

theorem separatedKey_inj {t t' a a' b b' : List α} (ha : sep ∉ a) (ha' : sep ∉ a') (hb : sep ∉ b)
    (hb' : sep ∉ b') (h : separatedKey sep t a b = separatedKey sep t' a' b') :
    t = t' ∧ a = a' ∧ b = b' := by
  have hcut : (t ++ sep :: a) ++ sep :: b = (t' ++ sep :: a') ++ sep :: b' := by
    simpa [separatedKey] using h
  obtain ⟨htext, rfl⟩ := append_separated_inj hb hb' hcut
  obtain ⟨rfl, rfl⟩ := append_separated_inj ha ha' htext
  exact ⟨rfl, rfl, rfl⟩

end NetworkHealth
