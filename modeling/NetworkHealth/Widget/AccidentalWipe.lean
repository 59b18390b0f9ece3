import Mathlib.Data.List.Induction
import NetworkHealth.Widget.Sharing

/-! An empty list replaces a non-empty shared one only after the user emptied it. The
guard of `sync` compares the list with the baseline, and the baseline is rewritten on
five paths; what ties them together is that every path leaves it equal to the list. -/
namespace NetworkHealth.Widget
variable {ι P : Type*} [DecidableEq ι] [DecidableEq P]

/-- A local edit that empties the list of a widget whose store is ready. -/
def Emptied (k : Setting P) (w : ι) (n : Net ι P) (a : Action ι P) : Prop :=
  (n.stores w).ready = true ∧ (n.stores w).localJson ≠ k.emptyJson ∧ a = .edit w k.emptyJson

/-- The widget's `sync()` publishes an empty list over a non-empty shared one. -/
def WipesSharedList (k : Setting P) (n : Net ι P) (w : ι) (now : ℕ) : Prop :=
  (∃ revision, n.decision k w now = .publish revision) ∧ (n.stores w).localJson = k.emptyJson ∧
    1 ≤ n.file.revision ∧ n.file.json ≠ k.emptyJson

/-- A sync either brings the baseline up to the list or changes neither. -/
theorem Store.sync_baseline (e : P) (now : ℕ) (shared : Shared P) (s : Store P) :
    let s' := (s.sync (.verbatim e) now shared).1
    s'.baseline = s'.localJson ∨ s'.baseline = s.baseline ∧ s'.localJson = s.localJson := by
  unfold Store.sync
  cases s.decision (.verbatim e) now shared <;> simp [Setting.verbatim, Store.publish]

/-- Only a local edit can move the list away from the baseline. -/
theorem Net.step_baseline (e : P) (n : Net ι P) (a : Action ι P) (w : ι) :
    let s := n.stores w
    let s' := (n.step (.verbatim e) a).stores w
    s'.baseline = s'.localJson ∨
      s'.baseline = s.baseline ∧ s'.ready = s.ready ∧
        (s'.localJson = s.localJson ∨ a = .edit w s'.localJson) := by
  obtain h | ⟨json, rfl, h⟩ | ⟨now, rfl, h⟩ | ⟨rfl, h⟩ | ⟨on, rfl, h⟩ | ⟨rfl, h⟩ :=
    n.step_store (.verbatim e) a w <;> simp only [h]
  · simp
  · simp [Store.edit]
  · rcases Store.sync_baseline e now n.file (n.stores w) with hs | ⟨hb, hl⟩
    · exact Or.inl hs
    · exact Or.inr ⟨hb, Store.sync_ready _ _ _ _, Or.inl hl⟩
  · by_cases hr : (n.stores w).ready <;> simp [Store.load, hr]
  · simp [Store.share]
  · simp [Store.keep]

/-- An empty list that differs from its baseline was emptied by the user. -/
theorem emptied_of_baseline_ne (e : P) (n : Net ι P) (w : ι)
    (hstart : (n.stores w).ready = false) (as : List (Action ι P)) :
    let s := ((sharing (.verbatim e)).run n as).stores w
    s.ready = true → s.localJson = e → s.baseline ≠ e →
      (sharing (.verbatim e)).Occurs (Emptied (.verbatim e) w) n as := by
  induction as using List.reverseRecOn with
  | nil => intro s hr; simp [s, hstart] at hr
  | append_singleton as a ih =>
    intro s hready hempty hbase
    rw [Machine.occurs_concat]
    simp only [Machine.run_append, Machine.run_cons, Machine.run_nil, sharing_step, s] at *
    generalize (sharing (.verbatim e)).run n as = m at *
    rcases m.step_baseline e a w with hb | ⟨hb, hr, hl | ha⟩
    · exact absurd (hb.trans hempty) hbase
    · exact Or.inl (ih (hr ▸ hready) (hl ▸ hempty) (hb ▸ hbase))
    · rw [hr] at hready
      rw [hb] at hbase
      by_cases hwas : (m.stores w).localJson = e
      · exact Or.inl (ih hready hwas hbase)
      · exact Or.inr ⟨hready, hwas, by rw [ha, hempty]; rfl⟩

/-- No accidental wipe: over any run of edits, syncs, landings in any order, losses and
toggles from stores that are not ready yet, an empty list is published over a non-empty
shared one only if the user emptied it after the store became ready. -/
theorem wipe_only_after_emptying (e : P) (n : Net ι P) (w : ι)
    (hstart : (n.stores w).ready = false) (as : List (Action ι P)) (now : ℕ)
    (hwipe : WipesSharedList (.verbatim e) ((sharing (.verbatim e)).run n as) w now) :
    (sharing (.verbatim e)).Occurs (Emptied (.verbatim e) w) n as := by
  obtain ⟨⟨revision, hdecision⟩, hempty, hrevision, hjson⟩ := hwipe
  have hactive := Store.active_of_decision (hdecision.trans_ne Decision.noConfusion)
  have hknows := Store.decision_knows (.verbatim e) now
    ((sharing (.verbatim e)).run n as).file (((sharing (.verbatim e)).run n as).stores w)
  rw [show Store.decision _ _ _ _ = _ from hdecision] at hknows
  obtain ⟨-, -, -, hzero | ⟨-, hguard⟩⟩ := hknows
  · omega
  · apply emptied_of_baseline_ne e n w hstart as hactive.2 hempty
    intro hbase
    have hwould := Store.wouldWipeSharedList_eq_true.mpr ⟨hempty, hjson, hempty.trans hbase.symm⟩
    exact Bool.noConfusion (hguard.symm.trans hwould)

/-- A widget starts empty, adopts the shared list, is emptied by its user and is about to
publish that. -/
theorem wipe_only_after_emptying_run :
    let store : Store String := ⟨true, false, "[]", 0, 0, 0, ""⟩
    (sharing (.verbatim "[]")).Occurs (Emptied (.verbatim "[]") ())
      ⟨⟨1, "[router]"⟩, fun _ => store, []⟩ [.load (), .sync () 0, .edit () "[]"] :=
  wipe_only_after_emptying "[]" _ () rfl _ 0 ⟨⟨2, by decide⟩, by decide, by decide, by decide⟩

end NetworkHealth.Widget
