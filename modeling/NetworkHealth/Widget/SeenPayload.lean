import Mathlib.Data.Fintype.EquivFin
import NetworkHealth.Widget.Sharing

/-! What a widget publishes over. `sync` compares revision numbers only, so a widget may
publish over a payload it has never seen when two writes carried the same number and the
second landed after the first had been taken. Short of that it publishes over exactly the
payload it last agreed with or adopted. -/
namespace NetworkHealth.Widget
variable {ι P : Type*} [DecidableEq ι] [DecidableEq P]

/-- The payload each widget last agreed with or adopted. -/
def seeing (k : Setting P) (seen : ι → P) (n : Net ι P) : Action ι P → ι → P
  | .sync w now =>
    if (n.decision k w now).takesShared then Function.update seen w n.file.json else seen
  | _ => seen

theorem seeing_edit (k : Setting P) (seen : ι → P) (n : Net ι P) (w : ι) (json : P) :
    seeing k seen n (.edit w json) = seen := rfl

theorem seeing_land (k : Setting P) (seen : ι → P) (n : Net ι P) (i : ℕ) :
    seeing k seen n (.land i) = seen := rfl

theorem seeing_sync (k : Setting P) (seen : ι → P) (n : Net ι P) (w : ι) (now : ℕ) (v : ι) :
    seeing k seen n (.sync w now) v =
      if v = w ∧ (n.decision k w now).takesShared then n.file.json else seen v := by
  rcases eq_or_ne v w with rfl | hv
  · simp only [seeing, true_and]; split_ifs <;> simp
  · simp only [seeing, hv, false_and, if_false]; split_ifs <;> simp [hv]

/-- The widgets with that payload on record. -/
def watched (k : Setting P) : Machine (Net ι P × (ι → P)) (Action ι P) :=
  (sharing k).observe (seeing k)

/-- The widget's `sync()` publishes over a payload it did not last agree with or adopt. -/
def PublishesUnseen (k : Setting P) (x : Net ι P × (ι → P)) (w : ι) (now : ℕ) : Prop :=
  (x.1.decision k w now).isPublish = true ∧ 1 ≤ x.1.file.revision ∧ x.2 w ≠ x.1.file.json

instance (k : Setting P) (x : Net ι P × (ι → P)) (w : ι) (now : ℕ) :
    Decidable (PublishesUnseen k x w now) := inferInstanceAs (Decidable (_ ∧ _))

/-- No widget already holds this write's revision number for another payload. -/
def NumberUnclaimed (x : Net ι P × (ι → P)) (write : Shared P) : Prop :=
  ∀ w, (x.1.stores w).syncedRevision = write.revision → x.2 w = write.json

/-- Edits, syncs, and landings of writes whose revision number is unclaimed. -/
def LandsUnclaimed (x : Net ι P × (ι → P)) : Action ι P → Prop
  | .edit _ _ => True
  | .sync _ _ => True
  | .land i => ∀ write, x.1.inFlight[i]? = some write → NumberUnclaimed x write
  | _ => False

/-- Edits and syncs. -/
def EditsOrSyncs : Action ι P → Prop
  | .edit _ _ => True
  | .sync _ _ => True
  | _ => False

/-- What a running widget's revision numbers stand for, `seen` being the payload it last
agreed with or adopted. -/
structure Informed (file : Shared P) (s : Store P) (seen : P) : Prop where
  active : s.active = true
  ready : s.ready = true
  seen : s.syncedRevision = file.revision → seen = file.json
  started : file.revision = 0 → s.syncedRevision = 0
  ahead : s.pendingRevision = 0 ∨ s.syncedRevision < s.pendingRevision

/-- The state of a run in which every landing was unclaimed. -/
structure WellInformed (x : Net ι P × (ι → P)) : Prop where
  informed : ∀ w, Informed x.1.file (x.1.stores w) (x.2 w)
  numbered : ∀ write ∈ x.1.inFlight, 1 ≤ write.revision

variable {k : Setting P} {file : Shared P} {s : Store P} {p : P}

omit [DecidableEq P] in
theorem Informed.edit (h : Informed file s p) (json : P) : Informed file (s.edit json) p :=
  ⟨h.active, h.ready, h.seen, h.started, h.ahead⟩

theorem Informed.sync (h : Informed file s p) (now : ℕ) :
    Informed file (s.sync k now file).1
      (if (s.decision k now file).takesShared then file.json else p) := by
  cases ht : (s.decision k now file).takesShared with
  | true =>
    obtain ⟨hsynced, hpend, -⟩ := Store.sync_of_takesShared ht
    exact ⟨by simp [h.active], by simp [h.ready], fun _ => rfl, fun h0 => hsynced.trans h0,
      Or.inl hpend⟩
  | false =>
    obtain ⟨hsynced, hpend⟩ := Store.sync_of_not_takesShared ht
    refine ⟨by simp [h.active], by simp [h.ready], fun he => h.seen (hsynced ▸ he),
      fun h0 => hsynced.trans (h.started h0), ?_⟩
    rw [hsynced]
    rcases hpend with hp | hp | ⟨hp, h0 | he⟩ <;> rw [hp]
    · exact h.ahead
    · exact Or.inl rfl
    · exact Or.inr (by have := h.started h0; omega)
    · exact Or.inr (by omega)

/-- An informed widget publishes over what it has seen. -/
theorem Informed.publishes_seen (h : Informed file s p) {now : ℕ} (hrevision : 1 ≤ file.revision)
    (hpublish : (s.decision k now file).isPublish = true) : p = file.json := by
  have hknows := s.decision_knows k now file
  cases hd : s.decision k now file <;> rw [hd] at hpublish hknows <;>
    simp [Decision.isPublish] at hpublish
  obtain ⟨-, -, -, hzero | ⟨hsynced, -⟩⟩ := hknows
  · omega
  · exact h.seen hsynced

variable {x : Net ι P × (ι → P)}

theorem WellInformed.step (h : WellInformed x) (a : Action ι P) (ha : LandsUnclaimed x a) :
    WellInformed ((watched k).step x a) := by
  cases a with
  | edit w json =>
    refine ⟨fun v => ?_, h.numbered⟩
    rcases eq_or_ne v w with rfl | hv
    · simpa [watched, Machine.observe, Net.step, seeing] using (h.informed v).edit json
    · simpa [watched, Machine.observe, Net.step, seeing, Net.modify_stores_of_ne _ _ hv]
        using h.informed v
  | sync w now =>
    refine ⟨fun v => ?_, ?_⟩
    · simp only [watched, Machine.observe, sharing_step, Net.step, seeing_sync, Net.sync_file]
      rcases eq_or_ne v w with rfl | hv
      · simpa [Net.decision] using (h.informed v).sync now
      · simpa [hv, Net.sync_stores_of_ne] using h.informed v
    · simp only [watched, Machine.observe, sharing_step, Net.step, Net.sync_inFlight,
        List.mem_append, Option.mem_toList]
      rintro write (hold | hnew)
      · exact h.numbered write hold
      · rw [Store.write_revision hnew]
        exact Nat.le_add_left 1 _
  | land i =>
    simp only [watched, Machine.observe, sharing_step, Net.step, seeing, Net.land]
    cases hi : x.1.inFlight[i]? with
    | none => exact h
    | some write =>
      have hone := h.numbered write (List.mem_of_getElem? hi)
      refine ⟨fun v => ?_, fun y hy => h.numbered y (List.mem_of_mem_eraseIdx hy)⟩
      obtain ⟨hactive, hready, -, -, hahead⟩ := h.informed v
      exact ⟨hactive, hready, ha write hi v, fun h0 => by simp only at h0; omega, hahead⟩
  | lose i => exact ha.elim
  | load w => exact ha.elim
  | share w on => exact ha.elim
  | keep w => exact ha.elim

omit [DecidableEq ι] [DecidableEq P] in
theorem InStep.wellInformed {n : Net ι P} (h : InStep n) :
    WellInformed (n, fun _ => n.file.json) :=
  ⟨fun w => ⟨h.active w, h.ready w, fun _ => rfl, fun h0 => (h.synced w).trans h0,
    Or.inl (h.pending w)⟩, by simp [h.inFlight]⟩

theorem WellInformed.run (h : WellInformed x) {as : List (Action ι P)}
    (has : (watched k).Admits LandsUnclaimed x as) : WellInformed ((watched k).run x as) :=
  Machine.run_invariant WellInformed LandsUnclaimed (fun _ a hx ha => hx.step a ha) h has

omit [DecidableEq ι] in
theorem WellInformed.not_publishesUnseen (k : Setting P) (h : WellInformed x) (w : ι) (now : ℕ) :
    ¬ PublishesUnseen k x w now := by
  rintro ⟨hpublish, hone, hunseen⟩
  exact hunseen ((h.informed w).publishes_seen hone hpublish)

/-- With no further landing nothing unseen comes into the file. -/
theorem WellInformed.run_editsOrSyncs (h : WellInformed x) {as : List (Action ι P)}
    (has : ∀ a ∈ as, EditsOrSyncs a) : WellInformed ((watched k).run x as) := by
  refine h.run (Machine.admits_of_forall (fun a ha y => ?_) x)
  have hkind := has a ha
  cases a <;> first | exact trivial | exact hkind.elim

omit [DecidableEq ι] in
/-- A widget in step by number publishes any edit other than emptying its list. -/
theorem isPublish_of_edit (k : Setting P) (now : ℕ) {file : Shared P} {s : Store P} {json : P}
    (hactive : s.active = true) (hready : s.ready = true) (hpend : s.pendingRevision = 0)
    (hsynced : s.syncedRevision = file.revision) (hjson : json ≠ file.json)
    (hempty : json ≠ k.emptyJson) : ((s.edit json).decision k now file).isPublish = true := by
  have hguard : (s.edit json).wouldWipeSharedList k file = false := by
    simp [Store.wouldWipeSharedList, Store.edit, hempty]
  rw [Store.decision, hguard]
  simp only [Store.edit, hactive, hready, hpend, hsynced, hjson.symm]
  split_ifs <;> simp_all [Decision.isPublish]

/-- A claimed number lets its holder publish over a payload it has never seen: it edits
its list, gives up on what it may have pending, and syncs. -/
theorem WellInformed.publishesUnseen_of_claimed [Infinite P] (k : Setting P) (h : WellInformed x)
    {i : ℕ} {write : Shared P} (hi : x.1.inFlight[i]? = some write)
    (hclaimed : ¬ NumberUnclaimed x write) :
    ∃ as : List (Action ι P), (∀ a ∈ as, EditsOrSyncs a) ∧
      ∃ w now, PublishesUnseen k ((watched k).run x (.land i :: as)) w now := by
  simp only [NumberUnclaimed, not_forall] at hclaimed
  obtain ⟨w, hsynced, hunseen⟩ := hclaimed
  obtain ⟨json, hjson⟩ := Infinite.exists_notMem_finset {write.json, k.emptyJson}
  simp only [Finset.mem_insert, Finset.mem_singleton, not_or] at hjson
  obtain ⟨hactive, hready, -, -, hahead⟩ := h.informed w
  have hone := h.numbered write (List.mem_of_getElem? hi)
  have hland : x.1.land i = ⟨write, x.1.stores, x.1.inFlight.eraseIdx i⟩ := by
    simp [Net.land, hi]
  rcases hahead with hpend | hahead
  · refine ⟨[.edit w json], by simp [EditsOrSyncs], w, 0, ?_, ?_, ?_⟩
    all_goals simp only [Machine.run_cons, Machine.run_nil, watched, Machine.observe,
      sharing_step, Net.step, seeing_edit, seeing_land, hland, Net.modify_file]
    · simpa [Net.decision] using
        isPublish_of_edit k 0 hactive hready hpend hsynced hjson.1 hjson.2
    · exact hone
    · exact hunseen
  · -- Its own revision is past the file's, so it first has to give up on that.
    have hexpired : ((x.1.stores w).edit json).decision k
        ((x.1.stores w).pendingSince + 5001) write = .expired := by
      have hpend : (x.1.stores w).pendingRevision ≠ 0 := by omega
      have hback : ¬ (x.1.stores w).pendingRevision ≤ write.revision := by omega
      simp [Store.decision, Store.edit, hactive, hready, hpend, hback]
    refine ⟨[.edit w json, .sync w ((x.1.stores w).pendingSince + 5001)],
      by simp [EditsOrSyncs], w, 0, ?_, ?_, ?_⟩
    all_goals simp only [Machine.run_cons, Machine.run_nil, watched, Machine.observe,
      sharing_step, Net.step, seeing_edit, seeing_land, seeing_sync, hland, Net.modify_file,
      Net.sync_file, Net.decision, Net.sync_stores_self, Net.modify_stores_self, Store.sync,
      hexpired]
    · exact isPublish_of_edit k 0 (s := { x.1.stores w with pendingRevision := 0 })
        hactive hready rfl hsynced hjson.1 hjson.2
    · exact hone
    · simpa [Decision.takesShared] using hunseen

/-- A widget publishes only over what it has seen, as long as no write lands under a
revision number that a widget already holds for another payload; and exactly then, since a
landing that does lets that widget publish over a payload it never saw. -/
theorem publishes_only_over_seen [Infinite P] (k : Setting P) {n : Net ι P} (hn : InStep n)
    {as : List (Action ι P)} (has : (watched k).Admits LandsUnclaimed (n, fun _ => n.file.json) as) :
    let x := (watched k).run (n, fun _ => n.file.json) as
    (∀ w now, ¬ PublishesUnseen k x w now) ∧
    ∀ i write, x.1.inFlight[i]? = some write →
      ((∀ bs : List (Action ι P), (∀ b ∈ bs, EditsOrSyncs b) →
        ∀ w now, ¬ PublishesUnseen k ((watched k).run x (.land i :: bs)) w now) ↔
        NumberUnclaimed x write) := by
  intro x
  have hx : WellInformed x := hn.wellInformed.run has
  refine ⟨hx.not_publishesUnseen k, fun i write hi => ⟨fun hall => ?_, fun hfree bs hbs => ?_⟩⟩
  · by_contra hclaimed
    obtain ⟨bs, hbs, w, now, hpublish⟩ := hx.publishesUnseen_of_claimed k hi hclaimed
    exact hall bs hbs w now hpublish
  · have hland : LandsUnclaimed x (.land i) := fun other hother =>
      Option.some.inj (hi.symm.trans hother) ▸ hfree
    exact ((hx.step (.land i) hland).run_editsOrSyncs hbs).not_publishesUnseen k

/-- One widget edits its list, publishes it and sees it come back. -/
theorem publishes_only_over_seen_run :
    let store : Bool → Store ℕ := fun _ => ⟨true, true, 0, 1, 0, 0, 0⟩
    let n : Net Bool ℕ := ⟨⟨1, 0⟩, store, []⟩
    let as : List (Action Bool ℕ) := [.edit true 7, .sync true 0, .land 0, .sync true 2000]
    ∀ w now, ¬ PublishesUnseen (.verbatim 0)
      ((watched (.verbatim 0)).run (n, fun _ => n.file.json) as) w now := by
  intro store n as
  have hn : InStep n := ⟨fun _ => rfl, fun _ => rfl, fun _ => rfl, fun _ => rfl, fun _ => rfl, rfl⟩
  have has : (watched (.verbatim 0)).Admits LandsUnclaimed (n, fun _ => n.file.json) as := by
    refine ⟨trivial, trivial, ?_, trivial, trivial⟩
    rintro write ⟨⟩ w h
    cases w <;> exact absurd h (by decide)
  exact (publishes_only_over_seen (.verbatim 0) hn has).1

/-- Two widgets write revision 2 at once. The first takes its own write back, the second
lands over it, and the first publishes revision 3 over a list it has never seen. -/
theorem publishes_over_unseen :
    let store : Bool → Store String := fun _ => ⟨true, true, "[]", 1, 0, 0, "[]"⟩
    let n : Net Bool String := ⟨⟨1, "[]"⟩, store, []⟩
    let as : List (Action Bool String) := [.edit true "[a]", .edit false "[b]", .sync true 0,
      .sync false 0, .land 0, .sync true 2000, .land 0, .edit true "[a,c]"]
    InStep n ∧ PublishesUnseen (.verbatim "[]")
      ((watched (.verbatim "[]")).run (n, fun _ => n.file.json) as) true 2250 :=
  ⟨⟨fun _ => rfl, fun _ => rfl, fun _ => rfl, fun _ => rfl, fun _ => rfl, rfl⟩, by decide⟩

end NetworkHealth.Widget
