import NetworkHealth.Widget.Sharing

/-! Shared lists converge once editing stops. A widget is at most four syncs away from
being joined to the file: its pending write has to be old enough, it times out, the widget
publishes, and the publication comes back. A round takes every widget one stage further,
and publications by others never take it back. -/
namespace NetworkHealth.Widget
variable {ι P : Type*}

/-- In step with the file, or left behind by a later revision of it. -/
def Joined (file : Shared P) (s : Store P) : Prop :=
  s.pendingRevision = 0 ∧ s.syncedRevision ≤ file.revision ∧
    (s.syncedRevision = file.revision → s.localJson = file.json ∧ s.baseline = file.json)

/-- A publication of the widget has landed and waits to be noticed. -/
def Posted (file : Shared P) (s : Store P) : Prop :=
  s.pendingRevision ≠ 0 ∧ s.pendingRevision ≤ file.revision

/-- At most that many syncs of the coming rounds away from being joined. -/
def Within (round : List (ι × ℕ)) (file : Shared P) (s : Store P) : ℕ → Prop
  | 0 => Joined file s
  | 1 => Joined file s ∨ Posted file s
  | 2 => s.pendingRevision = 0 ∨ Posted file s
  | 3 => ∀ turn ∈ round, s.pendingSince + 5000 < turn.2
  | _ => ∀ turn ∈ round, s.pendingSince ≤ turn.2

/-- One widget syncs, and what it publishes lands before the next sync. -/
def turnActions (turn : ι × ℕ) : List (Action ι P) := [.sync turn.1 turn.2, .land 0]

def roundActions (round : List (ι × ℕ)) : List (Action ι P) := round.flatMap turnActions

def scheduleActions (rounds : List (List (ι × ℕ))) : List (Action ι P) :=
  rounds.flatMap roundActions

/-- Rounds in which every widget syncs once, none before `now`, more than 5 s apart. -/
structure Schedule (now : ℕ) (rounds : List (List (ι × ℕ))) : Prop where
  once : ∀ round ∈ rounds, (round.map Prod.fst).Nodup
  everyone : ∀ round ∈ rounds, ∀ w, w ∈ round.map Prod.fst
  later : ∀ round ∈ rounds, ∀ turn ∈ round, now ≤ turn.2
  apart : rounds.Pairwise fun r r' => ∀ x ∈ r, ∀ y ∈ r', x.2 + 5000 < y.2

/-- A net between two turns of a schedule. -/
structure Resting (n : Net ι P) : Prop where
  landed : n.inFlight = []
  active : ∀ w, (n.stores w).active = true
  ready : ∀ w, (n.stores w).ready = true

variable {file : Shared P} {s : Store P}

theorem Joined.later (h : Joined file s) (json : P) : Joined ⟨file.revision + 1, json⟩ s :=
  ⟨h.1, Nat.le_succ_of_le h.2.1, fun he => absurd h.2.1 (by simp only at he; omega)⟩

theorem Posted.later (h : Posted file s) (json : P) : Posted ⟨file.revision + 1, json⟩ s :=
  ⟨h.1, Nat.le_succ_of_le h.2⟩

/-- A publication by somebody else keeps every stage. -/
theorem Within.later {round : List (ι × ℕ)} {k : ℕ} (h : Within round file s k) (json : P) :
    Within round ⟨file.revision + 1, json⟩ s k := by
  match k, h with
  | 0, h => exact Joined.later h json
  | 1, h => exact h.imp (·.later json) (·.later json)
  | 2, h => exact h.imp_right (·.later json)
  | 3, h => exact h
  | k + 4, h => exact h

theorem Settled.joined (h : Settled file s) : Joined file s :=
  ⟨h.pending, h.synced.le, fun _ => ⟨h.json, h.baseline⟩⟩

variable [DecidableEq P]

/-- The file after a turn: what was published, or what was there. -/
def fileAfter (k : Setting P) (now : ℕ) (file : Shared P) (s : Store P) : Shared P :=
  (s.sync k now file).2.getD file

/-- Does the step publish for this widget? -/
def publishes [DecidableEq ι] (k : Setting P) (w : ι) (n : Net ι P) : Action ι P → Bool
  | .sync v now => v = w && (n.decision k v now).isPublish
  | _ => false

/-- A turn leaves the file alone or moves it one revision on, so every stage of the other
widgets is kept. -/
theorem Within.fileAfter (e : P) (now : ℕ) {round : List (ι × ℕ)} {k : ℕ} {s' : Store P}
    (h : Within round file s' k) : Within round (fileAfter (.verbatim e) now file s) s' k := by
  have hknows := s.decision_knows (.verbatim e) now file
  unfold Widget.fileAfter Store.sync
  cases hd : s.decision (.verbatim e) now file with
  | publish r =>
    rw [hd] at hknows
    obtain ⟨-, -, rfl, -⟩ := hknows
    exact h.later _
  | _ => exact h

/-- The sync of a joined or posted widget publishes nothing and settles it. -/
theorem sync_settles (e : P) (now : ℕ) (hactive : s.active = true) (hready : s.ready = true)
    (h : Joined file s ∨ Posted file s) :
    (s.sync (.verbatim e) now file).2 = none ∧
      Settled file (s.sync (.verbatim e) now file).1 := by
  suffices htakes : (s.decision (.verbatim e) now file).takesShared = true from
    ⟨(Store.sync_of_takesShared htakes).2.2, settled_of_takesShared htakes⟩
  have hknows := s.decision_knows (.verbatim e) now file
  cases hd : s.decision (.verbatim e) now file <;> rw [hd] at hknows
  case inactive => simp [Store.Knows, hactive, hready] at hknows
  case expired => rcases h with h | h <;> simp only [Joined, Posted, Store.Knows] at h hknows <;> omega
  case waiting => rcases h with h | h <;> simp only [Joined, Posted, Store.Knows] at h hknows <;> omega
  case publish r =>
    -- Publishing takes the file's present revision, and at that one a joined widget agrees.
    obtain ⟨hpend, hjson, -, hrev⟩ := hknows
    rcases h with ⟨-, hle, hsame⟩ | hposted
    · have hsynced : s.syncedRevision = file.revision := by
        rcases hrev with h0 | ⟨h, -⟩ <;> omega
      exact absurd (hsame hsynced).1.symm hjson
    · exact absurd hpend hposted.1
  all_goals rfl

/-- With nothing pending a sync joins the widget or posts its publication. -/
theorem sync_of_free (e : P) (now : ℕ) (hactive : s.active = true) (hready : s.ready = true)
    (hpend : s.pendingRevision = 0) :
    let s' := (s.sync (.verbatim e) now file).1
    Joined (fileAfter (.verbatim e) now file s) s' ∨
      Posted (fileAfter (.verbatim e) now file s) s' := by
  have hknows := s.decision_knows (.verbatim e) now file
  unfold fileAfter Store.sync
  cases hd : s.decision (.verbatim e) now file <;> rw [hd] at hknows
  case inactive => simp [Store.Knows, hactive, hready] at hknows
  case confirmed => exact absurd hpend hknows.1
  case superseded => exact absurd hpend hknows.1
  case expired => exact absurd hpend hknows.1
  case waiting => exact absurd hpend hknows.1
  case agreed => exact Or.inl ⟨hpend, le_rfl, fun _ => ⟨hknows.2.symm, hknows.2.symm⟩⟩
  case adopt => exact Or.inl ⟨hpend, le_rfl, fun _ => ⟨rfl, rfl⟩⟩
  case publish r =>
    obtain ⟨-, -, rfl, -⟩ := hknows
    exact Or.inr ⟨Nat.succ_ne_zero _, le_rfl⟩

/-- A sync late enough for the pending write to time out leaves nothing pending, or a
publication that has landed. -/
theorem sync_of_late (e : P) {now : ℕ} (hactive : s.active = true) (hready : s.ready = true)
    (hlate : s.pendingSince + 5000 < now) :
    let s' := (s.sync (.verbatim e) now file).1
    s'.pendingRevision = 0 ∨ Posted (fileAfter (.verbatim e) now file s) s' := by
  have hknows := s.decision_knows (.verbatim e) now file
  unfold fileAfter Store.sync
  cases hd : s.decision (.verbatim e) now file <;> rw [hd] at hknows
  case inactive => simp [Store.Knows, hactive, hready] at hknows
  case waiting => simp only [Store.Knows] at hknows; omega
  case publish r =>
    obtain ⟨-, -, rfl, -⟩ := hknows
    exact Or.inr ⟨Nat.succ_ne_zero _, le_rfl⟩
  case agreed => exact Or.inl hknows.1
  case adopt => exact Or.inl hknows.1
  all_goals exact Or.inl rfl

theorem sync_pendingSince_le (k : Setting P) (file : Shared P) {now t : ℕ} (hnow : now ≤ t)
    (h : s.pendingSince ≤ t) : (s.sync k now file).1.pendingSince ≤ t := by
  unfold Store.sync
  cases s.decision k now file <;> simp [Store.publish, h, hnow]

/-- One sync takes a widget one stage further. -/
theorem sync_within (e : P) {now : ℕ} {round round' : List (ι × ℕ)} {w : ι} {k : ℕ}
    (hactive : s.active = true) (hready : s.ready = true) (hturn : (w, now) ∈ round)
    (hnext : ∀ turn ∈ round', now + 5000 < turn.2) (h : Within round file s (k + 1)) :
    Within round' (fileAfter (.verbatim e) now file s) (s.sync (.verbatim e) now file).1 k := by
  -- what is pending by now has timed out when the next round comes
  have hlater : s.pendingSince ≤ now → ∀ turn ∈ round',
      (s.sync (.verbatim e) now file).1.pendingSince + 5000 < turn.2 := by
    intro h turn hmem
    have hsince := sync_pendingSince_le (.verbatim e) file le_rfl h
    have hlate := hnext turn hmem
    omega
  match k, h with
  | 0, h =>
    obtain ⟨hnone, hsettled⟩ := sync_settles e now hactive hready h
    simpa [Within, fileAfter, hnone] using hsettled.joined
  | 1, Or.inl hpend => exact sync_of_free e now hactive hready hpend
  | 1, Or.inr hposted =>
    obtain ⟨hnone, hsettled⟩ := sync_settles e now hactive hready (Or.inr hposted)
    exact Or.inl (by simpa [fileAfter, hnone] using hsettled.joined)
  | 2, h => exact sync_of_late e hactive hready (h _ hturn)
  | 3, h => exact hlater (h _ hturn)
  | k + 4, h => exact fun turn hmem => (Nat.le_add_right _ 5000).trans (hlater (h _ hturn) turn hmem).le

variable [DecidableEq ι] {n : Net ι P}

/-- A turn changes one store and the file, and leaves nothing in flight. -/
theorem run_turn (k : Setting P) (h : n.inFlight = []) (w : ι) (now : ℕ) :
    (sharing k).run n (turnActions (w, now)) =
      ⟨fileAfter k now n.file (n.stores w),
        Function.update n.stores w ((n.stores w).sync k now n.file).1, []⟩ := by
  simp only [turnActions, Machine.run_cons, Machine.run_nil, sharing_step, Net.step, Net.sync,
    Net.land, h, List.nil_append, fileAfter]
  cases ((n.stores w).sync k now n.file).2 <;> rfl

theorem Resting.turn (k : Setting P) (h : Resting n) (turn : ι × ℕ) :
    Resting ((sharing k).run n (turnActions turn)) := by
  rw [run_turn k h.landed turn.1 turn.2]
  refine ⟨rfl, fun v => ?_, fun v => ?_⟩
  · rcases eq_or_ne v turn.1 with rfl | hv
    · simpa using h.active turn.1
    · simpa [hv] using h.active v
  · rcases eq_or_ne v turn.1 with rfl | hv
    · simpa using h.ready turn.1
    · simpa [hv] using h.ready v

theorem Resting.turns (k : Setting P) (h : Resting n) (turns : List (ι × ℕ)) :
    Resting ((sharing k).run n (roundActions turns)) := by
  induction turns generalizing n with
  | nil => exact h
  | cons turn turns ih =>
    simp only [roundActions, List.flatMap_cons, Machine.run_append]
    exact ih (h.turn k turn)

/-- A round takes every widget one stage further. While it goes on, the widgets that have
had their turn are ahead of those that have not. -/
theorem round_within (e : P) {round round' turns : List (ι × ℕ)} {k : ℕ} (hn : Resting n)
    (hsub : turns ⊆ round) (honce : (turns.map Prod.fst).Nodup)
    (hnext : ∀ x ∈ round, ∀ y ∈ round', x.2 + 5000 < y.2)
    (h : ∀ w, if w ∈ turns.map Prod.fst then Within round n.file (n.stores w) (k + 1)
      else Within round' n.file (n.stores w) k) :
    let m := (sharing (.verbatim e)).run n (roundActions turns)
    ∀ w, Within round' m.file (m.stores w) k := by
  induction turns generalizing n with
  | nil => intro m w; simpa [m, roundActions] using h w
  | cons turn turns ih =>
    obtain ⟨v, t⟩ := turn
    simp only [roundActions, List.flatMap_cons, Machine.run_append]
    have hmem : (v, t) ∈ round := hsub (by simp)
    rw [List.map_cons, List.nodup_cons] at honce
    apply ih (hn.turn _ (v, t)) (fun x hx => hsub (by simp [hx])) honce.2
    intro w
    rw [run_turn _ hn.landed]
    dsimp only
    have hw := h w
    rcases eq_or_ne w v with rfl | hne
    · rw [if_pos (by simp)] at hw
      rw [if_neg honce.1, Function.update_self]
      exact sync_within e (hn.active w) (hn.ready w) hmem (hnext _ hmem) hw
    · rw [Function.update_of_ne hne]
      simp only [List.map_cons, List.mem_cons, hne, false_or] at hw
      split_ifs at hw ⊢ with hin
      · exact hw.fileAfter e t
      · exact hw.fileAfter e t

/-- A whole round, from one stage to the next. -/
theorem whole_round_within (e : P) {round : List (ι × ℕ)} (round' : List (ι × ℕ)) {k : ℕ}
    (hn : Resting n) (honce : (round.map Prod.fst).Nodup)
    (heveryone : ∀ w, w ∈ round.map Prod.fst)
    (hnext : ∀ x ∈ round, ∀ y ∈ round', x.2 + 5000 < y.2)
    (h : ∀ w, Within round n.file (n.stores w) (k + 1)) :
    let m := (sharing (.verbatim e)).run n (roundActions round)
    Resting m ∧ ∀ w, Within round' m.file (m.stores w) k :=
  ⟨hn.turns _ round, round_within e hn (List.Subset.refl round) honce hnext
    fun w => by rw [if_pos (heveryone w)]; exact h w⟩

/-- A round in which every widget is joined or posted publishes nothing and settles all. -/
theorem round_settles (e : P) {turns : List (ι × ℕ)} (hn : Resting n)
    (h : ∀ w, if w ∈ turns.map Prod.fst then
        Joined n.file (n.stores w) ∨ Posted n.file (n.stores w)
      else Settled n.file (n.stores w)) :
    let m := (sharing (.verbatim e)).run n (roundActions turns)
    ∀ w, Settled m.file (m.stores w) := by
  induction turns generalizing n with
  | nil => intro m w; simpa [m, roundActions] using h w
  | cons turn turns ih =>
    obtain ⟨v, t⟩ := turn
    simp only [roundActions, List.flatMap_cons, Machine.run_append]
    apply ih (hn.turn _ (v, t))
    have hv := h v
    rw [if_pos (by simp)] at hv
    obtain ⟨hnone, hsettled⟩ := sync_settles e t (hn.active v) (hn.ready v) hv
    intro w
    rw [run_turn _ hn.landed]
    simp only [fileAfter, hnone, Option.getD_none]
    have hw := h w
    rcases eq_or_ne w v with rfl | hne
    · rw [Function.update_self]
      split_ifs
      · exact Or.inl hsettled.joined
      · exact hsettled
    · rw [Function.update_of_ne hne]
      simpa only [List.map_cons, List.mem_cons, hne, false_or] using hw

theorem settled_step (k : Setting P) (hn : Resting n)
    (h : ∀ w, Settled n.file (n.stores w)) (w : ι) (now : ℕ) : n.step k (.sync w now) = n :=
  Net.sync_eq_self ((h w).sync k now (hn.active w) (hn.ready w))

theorem settled_run (k : Setting P) (hn : Resting n) (h : ∀ w, Settled n.file (n.stores w))
    (turns : List (ι × ℕ)) : (sharing k).run n (roundActions turns) = n := by
  induction turns with
  | nil => rfl
  | cons turn turns ih =>
    have hland : n.land 0 = n := by simp [Net.land, hn.landed]
    simp only [roundActions, turnActions, List.flatMap_cons, List.cons_append, List.nil_append,
      Machine.run_cons, sharing_step, settled_step k hn h]
    rw [show n.step k (.land 0) = n from hland]
    exact ih

theorem publishes_turn (k : Setting P) (v w : ι) (t : ℕ) :
    (sharing k).count (publishes k w) n (turnActions (v, t)) =
      if v = w ∧ (n.decision k v t).isPublish then 1 else 0 := by
  simp [turnActions, Machine.count, publishes]

/-- A widget that has posted a publication or joined the file publishes no more, so over
any turns it publishes at most once. -/
theorem publishes_at_most_once (e : P) (w : ι) (hn : Resting n) (turns : List (ι × ℕ)) :
    let c := (sharing (.verbatim e)).count (publishes (.verbatim e) w) n (roundActions turns)
    c ≤ 1 ∧ (Joined n.file (n.stores w) ∨ Posted n.file (n.stores w) → c = 0) := by
  induction turns generalizing n with
  | nil => simp [roundActions, Machine.count]
  | cons turn turns ih =>
    obtain ⟨v, t⟩ := turn
    simp only [roundActions, List.flatMap_cons, Machine.count_append, publishes_turn]
    obtain ⟨hone, hzero⟩ := ih (hn.turn (.verbatim e) (v, t))
    rw [run_turn _ hn.landed] at hone hzero
    dsimp only at hone hzero
    rw [run_turn _ hn.landed]
    rcases eq_or_ne v w with rfl | hne
    · rw [Function.update_self] at hzero
      cases hpublish : (n.decision (.verbatim e) v t).isPublish with
      | true =>
        have hrest := hzero (sync_of_free e t (hn.active v) (hn.ready v)
          (Store.pending_of_isPublish hpublish))
        rw [roundActions] at hrest
        refine ⟨by simp [hrest], fun h => ?_⟩
        have hnone := (sync_settles e t (hn.active v) (hn.ready v) h).1
        rw [Store.sync_write_eq_none] at hnone
        exact absurd (hpublish.symm.trans hnone) (by decide)
      | false =>
        simp only [Bool.false_eq_true, and_false, if_false, Nat.zero_add]
        refine ⟨hone, fun h => hzero ?_⟩
        obtain ⟨hnone, hsettled⟩ := sync_settles e t (hn.active v) (hn.ready v) h
        exact Or.inl (by simpa [fileAfter, hnone] using hsettled.joined)
    · simp only [hne, false_and, if_false, Nat.zero_add]
      refine ⟨hone, fun h => hzero ?_⟩
      rw [Function.update_of_ne hne.symm]
      exact Within.fileAfter e t (show Within turns _ _ 1 from h)

/-- In a session started afresh no pending write is dated past the clock. -/
theorem pendingSince_le_clock (k : Setting P) {now : ℕ} {n₀ : Net ι P} (hfresh : n₀.Fresh)
    {as : List (Action ι P)} (hclock : ∀ a ∈ as, a.clock ≤ now) (w : ι) :
    (((sharing k).run n₀ as).stores w).pendingSince ≤ now := by
  apply Machine.run_invariant (fun n : Net ι P => (n.stores w).pendingSince ≤ now)
    (fun _ a => a.clock ≤ now)
  · intro m a hm ha
    rw [sharing_step]
    obtain h | ⟨json, rfl, h⟩ | ⟨t, rfl, h⟩ | ⟨rfl, h⟩ | ⟨on, rfl, h⟩ | ⟨rfl, h⟩ :=
      m.step_store k a w <;> rw [h]
    · exact hm
    · exact hm
    · exact sync_pendingSince_le k m.file ha hm
    · unfold Store.load; split <;> exact hm
    · exact hm
    · exact hm
  · exact (hfresh.since w).le.trans (Nat.zero_le now)
  · exact Machine.admits_of_forall (fun a ha _ => hclock a ha) n₀

omit [DecidableEq P] [DecidableEq ι] in
theorem scheduleActions_eq_roundActions (rounds : List (List (ι × ℕ))) :
    (scheduleActions rounds : List (Action ι P)) = roundActions rounds.flatten := by
  rw [roundActions, ← List.flatMap_id, List.flatMap_assoc]
  rfl

/-- Shared lists converge once editing stops: from any reachable state with nothing in
flight, in every schedule of rounds each widget publishes at most once, and from the
fourth round on every widget holds the shared list at its revision and does nothing. -/
theorem shared_lists_converge (e : P) (now : ℕ) {n₀ : Net ι P} (hfresh : n₀.Fresh)
    {as : List (Action ι P)} (hclock : ∀ a ∈ as, a.clock ≤ now)
    (hn : Resting ((sharing (.verbatim e)).run n₀ as)) {rounds : List (List (ι × ℕ))}
    (hrounds : Schedule now rounds) :
    let n := (sharing (.verbatim e)).run n₀ as
    let m := (sharing (.verbatim e)).run n (scheduleActions rounds)
    (∀ w, (sharing (.verbatim e)).count (publishes (.verbatim e) w) n
      (scheduleActions rounds) ≤ 1) ∧
    (4 ≤ rounds.length → ∀ w, (m.stores w).localJson = m.file.json ∧
      (m.stores w).syncedRevision = m.file.revision ∧
      ∀ t, m.step (.verbatim e) (.sync w t) = m) := by
  intro n m
  refine ⟨fun w => ?_, fun hlen w => ?_⟩
  · rw [scheduleActions_eq_roundActions]
    exact (publishes_at_most_once e w hn rounds.flatten).1
  · obtain ⟨r₁, r₂, r₃, r₄, rest, rfl⟩ : ∃ r₁ r₂ r₃ r₄ rest, rounds = r₁ :: r₂ :: r₃ :: r₄ :: rest := by
      match rounds, hlen with
      | r₁ :: r₂ :: r₃ :: r₄ :: rest, _ => exact ⟨r₁, r₂, r₃, r₄, rest, rfl⟩
    obtain ⟨honce, heveryone, hlater, hapart⟩ := hrounds
    simp only [List.pairwise_cons, List.mem_cons, forall_eq_or_imp] at hapart honce heveryone hlater
    obtain ⟨h₁, h₂, h₃, -⟩ := hapart
    have hstart : ∀ w, Within r₁ n.file (n.stores w) 4 := fun w turn hturn =>
      (pendingSince_le_clock _ hfresh hclock w).trans (hlater.1 turn hturn)
    obtain ⟨hn₁, hw₁⟩ := whole_round_within e r₂ hn honce.1 heveryone.1 h₁.1 hstart
    obtain ⟨hn₂, hw₂⟩ := whole_round_within e r₃ hn₁ honce.2.1 heveryone.2.1 h₂.1 hw₁
    obtain ⟨hn₃, hw₃⟩ := whole_round_within e r₄ hn₂ honce.2.2.1 heveryone.2.2.1 h₃.1 hw₂
    have hsettled := round_settles e hn₃ fun w => by rw [if_pos (heveryone.2.2.2.1 w)]; exact hw₃ w
    have hn₄ := hn₃.turns (.verbatim e) r₄
    have hlast : Resting m ∧ ∀ w, Settled m.file (m.stores w) := by
      simp only [m, scheduleActions, List.flatMap_cons, Machine.run_append]
      rw [← scheduleActions, scheduleActions_eq_roundActions, settled_run _ hn₄ hsettled]
      exact ⟨hn₄, hsettled⟩
    exact ⟨(hlast.2 w).json, (hlast.2 w).synced, settled_step _ hlast.1 hlast.2 w⟩

/-- Two widgets with different lists, one of which has just lost a write: four rounds. -/
theorem shared_lists_converge_run :
    let store : Bool → Store String := fun w => ⟨true, true, if w then "[a]" else "[b]", 0, 0, 0, "[]"⟩
    let n := (sharing (.verbatim "[]")).run ⟨⟨0, "[]"⟩, store, []⟩ [.sync true 0, .lose 0]
    let m := (sharing (.verbatim "[]")).run n (scheduleActions
      [[(false, 0), (true, 0)], [(true, 5001), (false, 5002)], [(true, 11000), (false, 11000)],
        [(false, 17000), (true, 17000)]])
    ∀ w, (m.stores w).localJson = m.file.json ∧ (m.stores w).syncedRevision = m.file.revision ∧
      ∀ t, m.step (.verbatim "[]") (.sync w t) = m :=
  (shared_lists_converge "[]" 0 ⟨fun _ => rfl, fun _ => rfl, rfl⟩ (by decide)
    ⟨rfl, by decide, by decide⟩ ⟨by decide, by decide, by decide, by decide⟩).2 (by decide)

end NetworkHealth.Widget
