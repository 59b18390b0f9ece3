import Mathlib.Data.List.Basic
import Mathlib.Algebra.Order.Ring.Nat

/-! The advisory lock of one file, as `flock` gives it. It belongs to an open file description, which
`fork` shares between processes, and it is gone with the last descriptor of that description. -/
namespace NetworkHealth

structure FileLock (P : Type*) where
  /-- Who has a descriptor, and the description that it stands for. -/
  descriptors : List (P × ℕ)
  opened : ℕ
  holder : Option ℕ
  opened_lt : ∀ e ∈ descriptors, e.2 < opened
  held : ∀ d, holder = some d → ∃ p, (p, d) ∈ descriptors

namespace FileLock
variable {P : Type*} [DecidableEq P] (l : FileLock P) {p q child : P} {d e : ℕ}

def unopened : FileLock P := ⟨[], 0, none, by simp, by simp⟩

/-- A description of its own. -/
def openFile (p : P) : FileLock P where
  descriptors := (p, l.opened) :: l.descriptors
  opened := l.opened + 1
  holder := l.holder
  opened_lt := by
    intro e he
    rcases List.mem_cons.mp he with rfl | he
    · exact Nat.lt_succ_self _
    · exact Nat.lt_succ_of_lt (l.opened_lt e he)
  held := by
    intro d hd
    obtain ⟨p, hp⟩ := l.held d hd
    exact ⟨p, List.mem_cons_of_mem _ hp⟩

/-- `LOCK_EX | LOCK_NB`, none if another description has the lock. -/
def lock (p : P) (d : ℕ) : Option (FileLock P) :=
  if h : (p, d) ∈ l.descriptors ∧ (l.holder = none ∨ l.holder = some d) then
    some { l with
      holder := some d
      held := by
        intro e he
        obtain rfl := Option.some.inj he
        exact ⟨p, h.1⟩ }
  else none

/-- The child has the descriptors of its parent. -/
def fork (p child : P) : FileLock P where
  descriptors := l.descriptors ++ (l.descriptors.filter (·.1 = p)).map fun e => (child, e.2)
  opened := l.opened
  holder := l.holder
  opened_lt := by
    intro e he
    rcases List.mem_append.mp he with he | he
    · exact l.opened_lt e he
    · obtain ⟨f, hf, rfl⟩ := List.mem_map.mp he
      exact l.opened_lt f (List.mem_filter.mp hf).1
  held := by
    intro d hd
    obtain ⟨p, hp⟩ := l.held d hd
    exact ⟨p, List.mem_append_left _ hp⟩

/-- A process closes what it has of the file, or ends. -/
def release (p : P) : FileLock P where
  descriptors := l.descriptors.filter (·.1 ≠ p)
  opened := l.opened
  holder := l.holder.filter fun d => (l.descriptors.filter (·.1 ≠ p)).any (·.2 = d)
  opened_lt e he := l.opened_lt e (List.mem_filter.mp he).1
  held := by
    intro d hd
    obtain ⟨e, he, hed⟩ := List.any_eq_true.mp (Option.filter_eq_some_iff.mp hd).2
    obtain rfl := of_decide_eq_true hed
    exact ⟨e.1, he⟩

variable {l}

omit [DecidableEq P] in
theorem mem_openFile : (q, e) ∈ (l.openFile p).descriptors ↔ q = p ∧ e = l.opened ∨ (q, e) ∈ l.descriptors := by
  rw [openFile, List.mem_cons, Prod.mk.injEq]

omit [DecidableEq P] in
theorem opened_not_mem : (q, l.opened) ∉ l.descriptors := fun h => Nat.lt_irrefl _ (l.opened_lt _ h)

theorem mem_fork : (q, e) ∈ (l.fork p child).descriptors ↔
    (q, e) ∈ l.descriptors ∨ q = child ∧ (p, e) ∈ l.descriptors := by
  simp only [fork, List.mem_append, List.mem_map, List.mem_filter, decide_eq_true_eq, Prod.mk.injEq]
  refine or_congr_right ⟨?_, ?_⟩
  · rintro ⟨⟨r, f⟩, ⟨hmem, rfl⟩, rfl, rfl⟩
    exact ⟨rfl, hmem⟩
  · rintro ⟨rfl, hmem⟩
    exact ⟨(p, e), ⟨hmem, rfl⟩, rfl, rfl⟩

theorem mem_release : (q, e) ∈ (l.release p).descriptors ↔ (q, e) ∈ l.descriptors ∧ q ≠ p := by
  simp only [release, List.mem_filter, decide_eq_true_eq]

/-- As long as another process has a descriptor, the lock stays where it is. -/
theorem holder_release (hheld : l.holder = some d) (hmem : (q, d) ∈ l.descriptors) (hne : q ≠ p) :
    (l.release p).holder = some d := by
  refine Option.filter_eq_some_iff.mpr ⟨hheld, List.any_eq_true.mpr ⟨(q, d), mem_release.mpr ⟨hmem, hne⟩, ?_⟩⟩
  exact decide_eq_true rfl

theorem lock_eq_some {l' : FileLock P} (h : l.lock p d = some l') :
    (p, d) ∈ l.descriptors ∧ (l.holder = none ∨ l.holder = some d) ∧ l'.descriptors = l.descriptors ∧
      l'.opened = l.opened ∧ l'.holder = some d := by
  unfold lock at h
  split_ifs at h with hfree
  obtain rfl := Option.some.inj h
  exact ⟨hfree.1, hfree.2, rfl, rfl, rfl⟩

/-- A lock that is refused is another's, and some process still has a descriptor of it. -/
theorem lock_eq_none (hmem : (p, d) ∈ l.descriptors) :
    l.lock p d = none ↔ ∃ e, e ≠ d ∧ l.holder = some e ∧ ∃ q, (q, e) ∈ l.descriptors := by
  unfold lock
  constructor
  · intro h
    split_ifs at h with hfree
    cases hholder : l.holder with
    | none => exact absurd ⟨hmem, Or.inl hholder⟩ hfree
    | some e =>
      refine ⟨e, ?_, rfl, l.held e hholder⟩
      rintro rfl
      exact hfree ⟨hmem, Or.inr hholder⟩
  · rintro ⟨e, hne, hholder, -⟩
    refine dif_neg fun hfree => ?_
    rcases hfree.2 with hnone | hsome
    · rw [hholder] at hnone
      cases hnone
    · rw [hholder] at hsome
      exact hne (Option.some.inj hsome)

end FileLock
end NetworkHealth
