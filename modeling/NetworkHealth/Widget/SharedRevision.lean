import NetworkHealth.Widget.Sharing

/-! The number of the shared value. A write carries the number after the one its widget had
read and lands whatever the file has become since, so the number goes back when the file
has moved on twice in between: a write that was given up after five seconds may only have
been late. -/
namespace NetworkHealth.Widget
variable {ι P : Type*} [DecidableEq ι] [DecidableEq P]

/-- For every write in flight, how often the shared revision has gone up since its issue. -/
def aging (k : Setting P) (ages : List ℕ) (n : Net ι P) : Action ι P → List ℕ
  | .sync w now => ages ++ ((n.stores w).sync k now n.file).2.toList.map fun _ => 0
  | .land i =>
    let others := ages.eraseIdx i
    if n.file.revision < (n.land i).file.revision then others.map (· + 1) else others
  | .lose i => ages.eraseIdx i
  | _ => ages

/-- The widgets with those ages on record. -/
def aged (k : Setting P) : Machine (Net ι P × List ℕ) (Action ι P) :=
  (sharing k).observe (aging k)

/-- The step does not take the shared revision back. -/
def KeepsRevision (k : Setting P) (n : Net ι P) (a : Action ι P) : Prop :=
  n.file.revision ≤ (n.step k a).file.revision

/-- A write lands before the shared revision has gone up twice since its issue. -/
def LandsInTime (x : Net ι P × List ℕ) : Action ι P → Prop
  | .land i => ∀ age, x.2[i]? = some age → age ≤ 1
  | _ => True

omit [DecidableEq ι] [DecidableEq P] in
theorem landsInTime_of_age {x : Net ι P × List ℕ} {i : ℕ} (age : ℕ) (h : x.2[i]? = some age) (hage : age ≤ 1) :
    LandsInTime x (.land i) := by
  intro other hother
  rw [h] at hother
  rwa [← Option.some.inj hother]

/-- While the revision has not gone back, the age of a write tells its number. -/
structure Aged (x : Net ι P × List ℕ) : Prop where
  length : x.2.length = x.1.inFlight.length
  revision : ∀ (i : ℕ) write age, x.1.inFlight[i]? = some write → x.2[i]? = some age →
    write.revision + age = x.1.file.revision + 1

variable {k : Setting P} {x : Net ι P × List ℕ}

omit [DecidableEq ι] [DecidableEq P] in
theorem Aged.age_of_inFlight (h : Aged x) {i : ℕ} {write : Shared P}
    (hi : x.1.inFlight[i]? = some write) :
    ∃ age, x.2[i]? = some age ∧ write.revision + age = x.1.file.revision + 1 := by
  have hlt : i < x.2.length := by
    rw [h.length]
    exact (List.getElem?_eq_some_iff.mp hi).1
  exact ⟨x.2[i], by simp, h.revision i write _ hi (by simp)⟩

theorem keepsRevision_iff_landsInTime (h : Aged x) (a : Action ι P) :
    KeepsRevision k x.1 a ↔ LandsInTime x a := by
  cases a with
  | land i =>
    simp only [KeepsRevision, LandsInTime, Net.step, Net.land]
    cases hi : x.1.inFlight[i]? with
    | none =>
      have hnone : x.2[i]? = none := by
        rw [List.getElem?_eq_none_iff, h.length]
        exact List.getElem?_eq_none_iff.mp hi
      simp [hnone]
    | some write =>
      obtain ⟨age, hage, hsum⟩ := h.age_of_inFlight hi
      simp only [hage, Option.some.injEq, forall_eq']
      omega
  | _ => exact iff_of_true le_rfl trivial

omit [DecidableEq ι] [DecidableEq P] in
/-- One write less in flight, and the file where it was or one revision on. -/
theorem Aged.eraseIdx (h : Aged x) (i : ℕ) {file : Shared P} {later : ℕ}
    (hfile : file.revision = x.1.file.revision + later) :
    Aged (⟨file, x.1.stores, x.1.inFlight.eraseIdx i⟩, (x.2.eraseIdx i).map (· + later)) := by
  refine ⟨by simp [List.length_eraseIdx, h.length], fun j write age hwrite hage => ?_⟩
  rw [List.getElem?_map, Option.map_eq_some_iff] at hage
  obtain ⟨before, hbefore, rfl⟩ := hage
  rw [List.getElem?_eraseIdx] at hwrite hbefore
  split_ifs at hwrite hbefore with hj
  · have hsum := h.revision j write before hwrite hbefore
    simp only
    omega
  · have hsum := h.revision (j + 1) write before hwrite hbefore
    simp only
    omega

theorem Aged.land (h : Aged x) (i : ℕ) (hkeeps : KeepsRevision k x.1 (.land i)) :
    Aged ((aged k).step x (.land i)) := by
  simp only [KeepsRevision, Net.step] at hkeeps
  simp only [aged, Machine.observe, sharing_step, Net.step, aging]
  cases hi : x.1.inFlight[i]? with
  | none =>
    have hland : x.1.land i = x.1 := by simp [Net.land, hi]
    have hlong : x.2.length ≤ i := by
      rw [h.length]
      exact List.getElem?_eq_none_iff.mp hi
    simpa [hland, List.eraseIdx_of_length_le hlong] using h
  | some write =>
    have hland : x.1.land i = ⟨write, x.1.stores, x.1.inFlight.eraseIdx i⟩ := by simp [Net.land, hi]
    obtain ⟨age, hage, hsum⟩ := h.age_of_inFlight hi
    rw [hland] at hkeeps ⊢
    simp only at hkeeps ⊢
    split_ifs with hup
    · exact h.eraseIdx i (by omega)
    · have hsame := h.eraseIdx i (show write.revision = x.1.file.revision + 0 by omega)
      simpa using hsame

theorem Aged.step (h : Aged x) (a : Action ι P) (hkeeps : KeepsRevision k x.1 a) :
    Aged ((aged k).step x a) := by
  cases a with
  | sync w now =>
    refine ⟨by simp [aged, Machine.observe, aging, Net.step, h.length], ?_⟩
    simp only [aged, Machine.observe, aging, sharing_step, Net.step, Net.sync_inFlight, Net.sync_file]
    intro i write age hwrite hage
    rcases Nat.lt_or_ge i x.1.inFlight.length with hold | hnew
    · rw [List.getElem?_append_left hold] at hwrite
      rw [List.getElem?_append_left (h.length ▸ hold)] at hage
      exact h.revision i write age hwrite hage
    · -- What a sync issues carries the number after the one it has read.
      rw [List.getElem?_append_right hnew] at hwrite
      rw [List.getElem?_append_right (h.length ▸ hnew)] at hage
      have hissued := Option.mem_toList.mp (List.mem_of_getElem? hwrite)
      obtain ⟨_, -, rfl⟩ := List.mem_map.mp (List.mem_of_getElem? hage)
      rw [Store.write_revision hissued]
  | land i => exact h.land i hkeeps
  | lose i =>
    have hsame := h.eraseIdx i (show x.1.file.revision = x.1.file.revision + 0 from rfl)
    simpa [aged, Machine.observe, aging, Net.step] using hsame
  | edit w json => exact ⟨h.length, h.revision⟩
  | load w => exact ⟨h.length, h.revision⟩
  | share w on => exact ⟨h.length, h.revision⟩
  | keep w => exact ⟨h.length, h.revision⟩

/-- From any state with nothing in flight, and for any number of widgets: the shared revision
never goes back in a run exactly if every write of it that lands does so before the revision
has gone up twice since its issue. -/
theorem shared_revision_keeps_iff (k : Setting P) {n : Net ι P} (hn : n.inFlight = [])
    (as : List (Action ι P)) :
    (sharing k).Admits (KeepsRevision k) n as ↔ (aged k).Admits LandsInTime (n, []) as := by
  have hstart : Aged (n, ([] : List ℕ)) := ⟨by simp [hn], by simp⟩
  rw [← (sharing k).observe_admits (aging k) (KeepsRevision k) (n, []) as]
  exact Machine.admits_congr Aged (fun y a hy => keepsRevision_iff_landsInTime hy a)
    (fun y a hy hkeeps => hy.step a hkeeps) hstart as

/-- Two publications of one widget, landing one after the other. -/
theorem shared_revision_keeps_iff_run :
    let n : Net Unit String := ⟨⟨1, "[]"⟩, fun _ => ⟨true, true, "[]", 1, 0, 0, "[]"⟩, []⟩
    (sharing (.verbatim "[]")).Admits (KeepsRevision (.verbatim "[]")) n
      [.edit () "[a]", .sync () 0, .land 0, .sync () 2000, .edit () "[a,b]", .sync () 2250, .land 0] := by
  intro n
  apply (shared_revision_keeps_iff (.verbatim "[]") (n := n) rfl _).mpr
  exact ⟨trivial, trivial, landsInTime_of_age 0 (by decide) (by decide), trivial, trivial, trivial,
    landsInTime_of_age 0 (by decide) (by decide), trivial⟩

/-- A write that is given up after five seconds was only late: by the time it lands, its
repetition and the widget's next edit have been shared, and both are gone again. -/
theorem shared_revision_goes_back :
    let n : Net Unit String := ⟨⟨1, "[]"⟩, fun _ => ⟨true, true, "[]", 1, 0, 0, "[]"⟩, []⟩
    let as : List (Action Unit String) := [.edit () "[a]", .sync () 0, .sync () 5001, .sync () 7001,
      .land 1, .sync () 9000, .edit () "[a,b]", .sync () 9250, .land 1, .sync () 11000]
    let m := (sharing (.verbatim "[]")).run n as
    InStep n ∧ m.file = ⟨3, "[a,b]"⟩ ∧ (m.stores ()).syncedRevision = 3 ∧
      (m.step (.verbatim "[]") (.land 0)).file = ⟨2, "[a]"⟩ ∧
      ¬ (sharing (.verbatim "[]")).Admits (KeepsRevision (.verbatim "[]")) n (as ++ [.land 0]) := by
  intro n as m
  have hbefore : m.file = ⟨3, "[a,b]"⟩ := by decide
  have hafter : (m.step (.verbatim "[]") (.land 0)).file = ⟨2, "[a]"⟩ := by decide
  refine ⟨⟨fun _ => rfl, fun _ => rfl, fun _ => rfl, fun _ => rfl, fun _ => rfl, rfl⟩,
    hbefore, by decide, hafter, fun hall => ?_⟩
  have hlast : KeepsRevision (.verbatim "[]") m (.land 0) := (Machine.admits_append.mp hall).2.1
  rw [KeepsRevision, hbefore, hafter] at hlast
  exact absurd hlast (by decide)

end NetworkHealth.Widget
