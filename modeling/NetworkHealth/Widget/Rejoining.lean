import NetworkHealth.Widget.Sharing

/-! Rejoining the shared value. While sharing is off a widget remembers no revision, and after
it is switched on again only a sync that takes a shared value gives it one; until then the
widget has nothing to publish over. What was pending before the switch-off can be confirmed,
superseded or given up, and neither lets the widget publish by itself. -/
namespace NetworkHealth.Widget
variable {ι P : Type*} [DecidableEq ι] [DecidableEq P]

/-- A `sync()` of the widget that agrees with a published value or takes it over. -/
def Takes (k : Setting P) (w : ι) (n : Net ι P) (a : Action ι P) : Prop :=
  ∃ now, a = .sync w now ∧ 1 ≤ n.file.revision ∧ (n.decision k w now).takesShared = true

/-- Off, and with no revision remembered. -/
def Forgotten (s : Store P) : Prop := s.active = false ∧ s.syncedRevision = 0

variable {k : Setting P} {n : Net ι P} {w : ι} {a : Action ι P}

omit [DecidableEq P] in
theorem forgotten_share (s : Store P) : Forgotten (s.share false) := ⟨rfl, rfl⟩

/-- A switch changes its own widget's store. -/
theorem share_stores (k : Setting P) (n : Net ι P) (w : ι) (on : Bool) :
    (n.step k (.share w on)).stores w = (n.stores w).share on := Net.modify_stores_self n w _

/-- A store that is off does nothing. -/
theorem Forgotten.sync {s : Store P} (h : Forgotten s) (k : Setting P) (now : ℕ) (file : Shared P) :
    (s.sync k now file).1 = s := by
  have hdecision : s.decision k now file = .inactive := by simp [Store.decision, h.1]
  simp [Store.sync, hdecision]

theorem forgotten_step (h : Forgotten (n.stores w)) (hon : a ≠ .share w true) (hkeep : a ≠ .keep w) :
    Forgotten ((n.step k a).stores w) := by
  obtain he | ⟨json, rfl, he⟩ | ⟨now, rfl, he⟩ | ⟨rfl, he⟩ | ⟨on, rfl, he⟩ | ⟨rfl, he⟩ := n.step_store k a w
    <;> rw [he]
  · exact h
  · exact h
  · rwa [h.sync k now n.file]
  · unfold Store.load
    split_ifs
    · exact h
    · exact h
  · cases on with
    | false => exact forgotten_share _
    | true => exact absurd rfl hon
  · exact absurd rfl hkeep

/-- Only taking a published value or Keep This Widget's List gives a widget a revision. -/
theorem syncedRevision_step (h : (n.stores w).syncedRevision = 0) (hkeep : a ≠ .keep w)
    (htakes : ¬ Takes k w n a) : ((n.step k a).stores w).syncedRevision = 0 := by
  obtain he | ⟨json, rfl, he⟩ | ⟨now, rfl, he⟩ | ⟨rfl, he⟩ | ⟨on, rfl, he⟩ | ⟨rfl, he⟩ := n.step_store k a w
    <;> rw [he]
  · exact h
  · exact h
  · cases hd : ((n.stores w).decision k now n.file).takesShared with
    | false => exact (Store.sync_of_not_takesShared hd).1.trans h
    | true =>
      have hunpublished : n.file.revision = 0 := by
        by_contra hne
        exact htakes ⟨now, rfl, by omega, hd⟩
      exact (Store.sync_of_takesShared hd).1.trans hunpublished
  · unfold Store.load
    split_ifs
    · exact h
    · exact h
  · simp [Store.share, h]
  · exact absurd rfl hkeep

/-- A run in which the widget takes nothing leaves it without a revision. -/
theorem syncedRevision_run (h : (n.stores w).syncedRevision = 0) {as : List (Action ι P)}
    (hkeep : ∀ a ∈ as, a ≠ .keep w) (htakes : ¬ (sharing k).Occurs (Takes k w) n as) :
    (((sharing k).run n as).stores w).syncedRevision = 0 := by
  induction as generalizing n with
  | nil => exact h
  | cons a as ih =>
    rw [Machine.occurs_cons, not_or] at htakes
    rw [List.forall_mem_cons] at hkeep
    exact ih (syncedRevision_step h hkeep.1 htakes.1) hkeep.2 htakes.2

omit [DecidableEq ι] in
/-- Publishing over a published value takes its revision. -/
theorem syncedRevision_of_publish {now r : ℕ} (hpublish : n.decision k w now = .publish r)
    (hrevision : 1 ≤ n.file.revision) : (n.stores w).syncedRevision = n.file.revision := by
  have hknows := (n.stores w).decision_knows k now n.file
  rw [show (n.stores w).decision k now n.file = .publish r from hpublish] at hknows
  obtain ⟨-, -, -, hzero | hours⟩ := hknows
  · omega
  · exact hours.1

/-- For any number of widgets and from any state: after a widget's sharing has been switched
off and later on again, with Keep This Widget's List not chosen since, it publishes over a
published value only when a sync of its own has taken a published value since the switch-on. -/
theorem rejoining_never_overwrites (k : Setting P) (n : Net ι P) (w : ι)
    (before off on : List (Action ι P)) (now r : ℕ) (hoff : ∀ a ∈ off, a ≠ .share w true)
    (hkeep : ∀ a ∈ off ++ on, a ≠ .keep w) :
    let joined := (sharing k).run n (before ++ .share w false :: off ++ [.share w true])
    let m := (sharing k).run joined on
    m.decision k w now = .publish r → 1 ≤ m.file.revision →
      (sharing k).Occurs (Takes k w) joined on := by
  intro joined m hpublish hrevision
  by_contra htakes
  have hjoined : (joined.stores w).syncedRevision = 0 := by
    have hleft : Forgotten (((sharing k).run ((sharing k).run n (before ++ [.share w false])) off).stores w) :=
      Machine.run_invariant (fun n : Net ι P => Forgotten (n.stores w))
        (fun _ a => a ≠ .share w true ∧ a ≠ .keep w)
        (fun _ _ h ha => forgotten_step h ha.1 ha.2) (by simp [share_stores, forgotten_share])
        (Machine.admits_of_forall (fun a ha _ => ⟨hoff a ha, hkeep a (by simp [ha])⟩) _)
    simpa [joined, share_stores, Store.share] using hleft.2
  have hzero : (m.stores w).syncedRevision = 0 :=
    syncedRevision_run hjoined (fun a ha => hkeep a (by simp [ha])) htakes
  have hsame := syncedRevision_of_publish hpublish hrevision
  omega

/-- The widget rejoins a list that has moved on to revision 3, adopts it, and publishes its
next edit over it. -/
theorem rejoining_never_overwrites_run :
    let n : Net Bool String := ⟨⟨1, "[a]"⟩, fun _ => ⟨true, true, "[a]", 1, 0, 0, "[a]"⟩, []⟩
    let before : List (Action Bool String) := [.edit true "[b]", .sync true 0]
    let off : List (Action Bool String) := [.land 0, .sync false 100, .edit false "[c]", .sync false 200, .land 0]
    let joined := (sharing (.verbatim "[]")).run n (before ++ .share true false :: off ++ [.share true true])
    joined.file = ⟨3, "[c]"⟩ ∧
      (sharing (.verbatim "[]")).Occurs (Takes (.verbatim "[]") true) joined [.sync true 6000, .edit true "[d]"] := by
  intro n before off joined
  exact ⟨by decide, rejoining_never_overwrites (.verbatim "[]") n true before off
    [.sync true 6000, .edit true "[d]"] 6250 4 (by decide) (by decide) (by decide) (by decide)⟩

end NetworkHealth.Widget
