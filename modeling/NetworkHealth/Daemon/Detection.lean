import NetworkHealth.Daemon.ProberLife
import NetworkHealth.Daemon.Schedule

/-! How soon a change is shown. Whatever becomes of its probes, a prober yields samples at a steady rate as long
as the loop comes round in time, and once enough of them agree the destinations it serves show their verdict. -/
namespace NetworkHealth.Daemon

namespace Prober

/-- When the next send can go out, which a full queue holds back until its oldest probe is given up. -/
def opening (p : Prober) : ℕ :=
  match p.inFlight with
  | [] => p.nextSendUs
  | oldest :: _ => if p.inFlight.length < p.maxInFlight then p.nextSendUs else max p.nextSendUs oldest.deadlineUs

/-- The longest time from one send to the next, but for delays of the loop. -/
def gapUs (p : Prober) : ℕ := max (p.intervalUs + kSendSlackUs) p.timeoutUs

theorem nextSendUs_le_opening (p : Prober) : p.nextSendUs ≤ p.opening := by
  unfold opening
  split
  · exact le_rfl
  · split_ifs
    · exact le_rfl
    · exact le_max_left _ _

theorem opening_of_room {p : Prober} (h : p.inFlight.length < p.maxInFlight) : p.opening = p.nextSendUs := by
  unfold opening
  split
  · rfl
  · exact if_pos h

theorem opening_le {p : Prober} {bound : ℕ} (hnext : p.nextSendUs ≤ bound)
    (hqueue : ∀ q ∈ p.inFlight, q.deadlineUs ≤ bound) : p.opening ≤ bound := by
  unfold opening
  split
  · exact hnext
  · next oldest rest hinFlight =>
    split_ifs
    · exact hnext
    · exact max_le hnext (hqueue oldest (by rw [hinFlight]; exact List.mem_cons_self))

/-- Nothing to give up and nothing to send: so it is after a tick. -/
structure Served (now : ℕ) (p : Prober) : Prop where
  reply : ∀ oldest ∈ p.inFlight.head?, now < oldest.deadlineUs
  send : now < p.opening

end Prober

/-- At the time `t` it is certain that the prober yields `n` more samples by `T`: those of the probes in flight,
and of the probes it sends next. The loop may be late by `delayUs`. -/
structure OnCourse (delayUs T t n : ℕ) (p : Prober) : Prop where
  queue : ∀ q ∈ p.inFlight.take n, q.deadlineUs + delayUs ≤ T
  sends : p.inFlight.length < n →
    max t p.opening + (n - p.inFlight.length - 1) * (p.gapUs + delayUs) + p.timeoutUs + 2 * delayUs ≤ T

section Course
variable {delayUs T t now n : ℕ} {p p' : Prober}

theorem onCourse_zero : OnCourse delayUs T t 0 p := ⟨by simp, nofun⟩

theorem OnCourse.congr (h : OnCourse delayUs T t n p) (hqueue : p'.inFlight = p.inFlight)
    (hroom : p'.maxInFlight = p.maxInFlight) (hnext : p'.nextSendUs = p.nextSendUs)
    (hinterval : p'.intervalUs = p.intervalUs) (htimeout : p'.timeoutUs = p.timeoutUs) :
    OnCourse delayUs T t n p' := by
  have hopening : p'.opening = p.opening := by unfold Prober.opening; rw [hqueue, hroom, hnext]
  have hgap : p'.gapUs = p.gapUs := by unfold Prober.gapUs; rw [hinterval, htimeout]
  refine ⟨?_, ?_⟩
  · rw [hqueue]
    exact h.queue
  · rw [hqueue, hopening, hgap, htimeout]
    exact h.sends

theorem mem_take_of_mem_eraseP {α : Type*} {f : α → Bool} {xs : List α} {x : α} (hx : x ∈ (xs.eraseP f).take (n - 1)) :
    x ∈ xs.take n := by
  cases n with
  | zero => simp at hx
  | succ n =>
    rw [Nat.add_sub_cancel] at hx
    induction xs generalizing n with
    | nil => simp at hx
    | cons y ys ih =>
      rw [List.take_succ_cons]
      cases hy : f y with
      | true =>
        rw [List.eraseP_cons_of_pos hy] at hx
        exact List.mem_cons_of_mem _ hx
      | false =>
        rw [List.eraseP_cons_of_neg (by simp [hy])] at hx
        cases n with
        | zero => simp at hx
        | succ n =>
          rw [List.take_succ_cons] at hx
          obtain rfl | hx := List.mem_cons.mp hx
          · exact List.mem_cons_self
          · exact List.mem_cons_of_mem _ (ih n hx)

/-- One of the probes in flight is answered or given up. -/
theorem OnCourse.completed (h : OnCourse delayUs T t n p) (hfits : p.inFlight.length ≤ p.maxInFlight)
    {f : InFlight → Bool} (hfound : ∃ q ∈ p.inFlight, f q = true) (hqueue : p'.inFlight = p.inFlight.eraseP f)
    (hroom : p'.maxInFlight = p.maxInFlight) (hnext : p'.nextSendUs = p.nextSendUs)
    (hinterval : p'.intervalUs = p.intervalUs) (htimeout : p'.timeoutUs = p.timeoutUs) :
    OnCourse delayUs T t (n - 1) p' := by
  obtain ⟨q, hq, hf⟩ := hfound
  have hlength : p'.inFlight.length + 1 = p.inFlight.length := by
    have hpos := List.length_pos_of_mem hq
    rw [hqueue, List.length_eraseP_of_mem hq hf]
    omega
  have hopening : p'.opening ≤ p.opening := by
    rw [Prober.opening_of_room (by omega), hnext]
    exact p.nextSendUs_le_opening
  have hgap : p'.gapUs = p.gapUs := by unfold Prober.gapUs; rw [hinterval, htimeout]
  refine ⟨fun q hq => h.queue q ?_, fun hmore => ?_⟩
  · rw [hqueue] at hq
    exact mem_take_of_mem_eraseP hq
  · have hsends := h.sends (by omega)
    have hsame : n - 1 - p'.inFlight.length - 1 = n - p.inFlight.length - 1 := by omega
    rw [hsame, hgap, htimeout]
    omega

/-- A send, refused or not, that comes no later than the delay after it could go out. -/
theorem OnCourse.sent (h : OnCourse delayUs T t n p) (hqueued : Queued now p) (ht : t ≤ now)
    (hroom : p.inFlight.length < p.maxInFlight) (hdue : p.nextSendUs ≤ now + kSendSlackUs)
    (hprompt : now ≤ max t p.nextSendUs + delayUs) (houtcome : p.SendOutcome now p') :
    OnCourse delayUs T t (n - (p'.sent - p.sent)) (p'.advance now) ∧ p.sent ≤ p'.sent := by
  obtain ⟨hinterval, htimeout, -⟩ := fields_of_stream (stream_of_sendOutcome houtcome)
  have hsame : p'.nextSendUs = p.nextSendUs := by cases houtcome <;> rfl
  have hnext : (p'.advance now).nextSendUs ≤ now + kSendSlackUs + p.intervalUs := by
    unfold Prober.advance
    dsimp only
    rw [hsame, hinterval]
    split_ifs <;> omega
  have hgap : (p'.advance now).gapUs = p.gapUs := by
    change p'.gapUs = p.gapUs
    unfold Prober.gapUs
    rw [hinterval, htimeout]
  have htimeout' : (p'.advance now).timeoutUs = p.timeoutUs := htimeout
  have hinFlight : ∀ q ∈ p'.inFlight, q.deadlineUs ≤ now + p.timeoutUs := by
    intro q hq
    obtain ⟨hqueue, -⟩ | ⟨hqueue, -⟩ := inFlight_of_sendOutcome houtcome <;> rw [hqueue] at hq
    · have hdeadline := hqueued.deadline q hq
      omega
    · obtain hq | hq := List.mem_append.mp hq
      · have hdeadline := hqueued.deadline q hq
        omega
      · rw [List.mem_singleton.mp hq]
  -- The send after this one is at most a gap away.
  have hopening : (p'.advance now).opening ≤ max t p.nextSendUs + p.gapUs + delayUs := by
    have hlarge : p.intervalUs + kSendSlackUs ≤ p.gapUs ∧ p.timeoutUs ≤ p.gapUs := ⟨le_max_left _ _, le_max_right _ _⟩
    refine Prober.opening_le (by omega) fun q hq => ?_
    have hdeadline := hinFlight q hq
    omega
  have hlater : ∀ k, n - p.inFlight.length - 1 = k + 1 →
      max t (p'.advance now).opening + k * (p.gapUs + delayUs) + p.timeoutUs + 2 * delayUs ≤ T := by
    intro k hk
    have hsends := h.sends (by omega)
    rw [hk, Nat.succ_mul, Prober.opening_of_room hroom] at hsends
    omega
  obtain ⟨hqueue, hsent⟩ | ⟨x, hqueue, hx, hsent⟩ : p'.inFlight = p.inFlight ∧ p'.sent = p.sent + 1 ∨
      ∃ x, p'.inFlight = p.inFlight ++ [x] ∧ x.deadlineUs = now + p.timeoutUs ∧ p'.sent = p.sent := by
    cases houtcome with
    | blocked error => exact Or.inl ⟨rfl, rfl⟩
    | refused error => exact Or.inl ⟨rfl, rfl⟩
    | launched => exact Or.inr ⟨_, rfl, rfl, rfl⟩
  · rw [hsent, Nat.add_sub_cancel_left]
    have hqueue' : (p'.advance now).inFlight = p.inFlight := hqueue
    refine ⟨⟨fun q hq => ?_, fun hmore => ?_⟩, Nat.le_succ _⟩
    · rw [hqueue'] at hq
      exact h.queue q (List.take_subset_take_left _ (Nat.sub_le n 1) hq)
    · rw [hqueue'] at hmore ⊢
      rw [hgap, htimeout']
      exact hlater _ (by omega)
  · rw [hsent, Nat.sub_self, Nat.sub_zero]
    have hqueue' : (p'.advance now).inFlight = p.inFlight ++ [x] := hqueue
    refine ⟨⟨fun q hq => ?_, fun hmore => ?_⟩, le_rfl⟩
    · rw [hqueue'] at hq
      by_cases hfew : n ≤ p.inFlight.length
      · rw [List.take_append_of_le_length hfew] at hq
        exact h.queue q hq
      · obtain hq | hq := List.mem_append.mp (List.mem_of_mem_take hq)
        · exact h.queue q (by rwa [List.take_of_length_le (by omega)])
        · have hsends := h.sends (by omega)
          rw [Prober.opening_of_room hroom] at hsends
          rw [List.mem_singleton.mp hq, hx]
          omega
    · rw [hqueue', List.length_append, List.length_singleton] at hmore ⊢
      rw [hgap, htimeout']
      exact hlater _ (by omega)

/-- A tick of a prober that is on course. -/
theorem tickRule_onCourse (delayUs T n : ℕ) (ht : t ≤ now) (p : Prober) : TickRule now fun q => Queued now q ∧
    p.sent ≤ q.sent ∧ now ≤ max t q.nextSendUs + delayUs ∧ OnCourse delayUs T t (n - (q.sent - p.sent)) q where
  gaveUp := by
    rintro q oldest rest ⟨hqueued, hsent, hprompt, hcourse⟩ hqueue hdue
    refine ⟨queued_rule.gaveUp now q oldest rest hqueued hqueue hdue, Nat.le_succ_of_le hsent, hprompt, ?_⟩
    have hcompleted : OnCourse delayUs T t (n - (q.sent - p.sent) - 1) ((q.giveUp oldest rest now).count false 0 now) :=
      hcourse.completed (f := fun _ => true) hqueued.length ⟨oldest, by rw [hqueue]; exact List.mem_cons_self, rfl⟩
        (by rw [hqueue]; rfl) rfl rfl rfl rfl
    have hcount : ((q.giveUp oldest rest now).count false 0 now).sent = q.sent + 1 := rfl
    rw [hcount, show n - (q.sent + 1 - p.sent) = n - (q.sent - p.sent) - 1 by omega]
    exact hcompleted
  asked := by
    rintro q ⟨hqueued, hsent, hprompt, hcourse⟩
    exact ⟨queued_rule.asked now q hqueued, hsent, hprompt, hcourse.congr rfl rfl rfl rfl rfl⟩
  sent := by
    rintro q q' ⟨hqueued, hsent, hprompt, hcourse⟩ hfront hroom hdue houtcome
    obtain ⟨hnext, hmore⟩ := hcourse.sent hqueued ht hroom hdue hprompt houtcome
    have hsame : q'.nextSendUs = q.nextSendUs := by cases houtcome <;> rfl
    have hsent' : (q'.advance now).sent = q'.sent := rfl
    have hlater := le_advance q' now
    refine ⟨queued_rule.sent now q q' hqueued hfront hroom hdue houtcome, hsent'.symm ▸ hsent.trans hmore, by omega, ?_⟩
    rw [hsent', show n - (q'.sent - p.sent) = n - (q.sent - p.sent) - (q'.sent - q.sent) by omega]
    exact hnext

theorem served_tickProber (socket4 socket6 : IcmpSocket) (io : Io) (b : Board) (hbounded : Bounded p) :
    (tickProber socket4 socket6 io now b p).2.Served now := by
  obtain ⟨q, hqueue, htable, -, hdo, hdont⟩ := tickProber_spec socket4 socket6 io now b p
  simp only [Prober.timetable, Prober.stream, Prod.mk.injEq, Stream.mk.injEq] at htable
  obtain ⟨⟨-, hinterval, htimeout, -, hmax, -⟩, -, -, hnext⟩ := htable
  have hfront : ∀ oldest ∈ q.inFlight.head?, now < oldest.deadlineUs := by
    intro oldest holdest
    rw [hqueue] at holdest
    have hlate := lt_deadline_unexpired now p holdest
    omega
  have hpositive := hbounded.positive
  have hinterval_ge := hbounded.clamped.interval_ge
  have htimeout_ge := hbounded.clamped.timeout_ge
  by_cases hsend : p.SendsAt now
  · obtain ⟨q', houtcome, he⟩ := hdo hsend
    have hinterval' : q'.intervalUs = p.intervalUs :=
      (fields_of_stream (stream_of_sendOutcome houtcome)).1.trans hinterval
    rw [he]
    refine ⟨?_, (lt_advance (by omega) now).trans_le (q'.advance now).nextSendUs_le_opening⟩
    change ∀ oldest ∈ q'.inFlight.head?, now < oldest.deadlineUs
    intro oldest holdest
    obtain ⟨hsame, -⟩ | ⟨happend, -⟩ := inFlight_of_sendOutcome houtcome
    · rw [hsame] at holdest
      exact hfront oldest holdest
    · rw [happend] at holdest
      cases hempty : q.inFlight with
      | nil =>
        rw [hempty] at holdest
        obtain rfl : _ = oldest := by simpa using holdest
        dsimp only
        omega
      | cons first rest =>
        rw [hempty] at holdest hfront
        exact hfront oldest (by simpa using holdest)
  · rw [hdont hsend]
    refine ⟨hfront, ?_⟩
    by_cases hroom : q.inFlight.length < q.maxInFlight
    · rw [Prober.opening_of_room hroom]
      have hnotDue : ¬ p.nextSendUs ≤ now + kSendSlackUs := fun hdue =>
        hsend ⟨by rwa [← hqueue, ← hmax], hdue⟩
      omega
    · unfold Prober.opening
      cases hfull : q.inFlight with
      | nil =>
        rw [hfull, List.length_nil] at hroom
        omega
      | cons oldest rest =>
        rw [hfull] at hroom hfront
        dsimp only
        rw [if_neg hroom]
        exact lt_max_of_lt_right (hfront oldest (by simp))

/-- After a tick there is no need to look back at the time before it. -/
theorem OnCourse.served (h : OnCourse delayUs T t n p) (hserved : p.Served now) :
    OnCourse delayUs T now n p ∧ (n = 0 ∨ now < T) := by
  obtain ⟨hreply, hsend⟩ := hserved
  refine ⟨⟨h.queue, fun hmore => ?_⟩, ?_⟩
  · have hsends := h.sends hmore
    omega
  · by_cases hmore : p.inFlight.length < n
    · have hsends := h.sends hmore
      omega
    · cases hqueue : p.inFlight with
      | nil =>
        rw [hqueue, List.length_nil] at hmore
        omega
      | cons oldest rest =>
        cases n with
        | zero => exact Or.inl rfl
        | succ n =>
          have hfront := hreply oldest (by simp [hqueue])
          have hdeadline := h.queue oldest (by simp [hqueue])
          omega

/-- A tick yields the samples that are due by then, and leaves the prober on course for the others. -/
theorem OnCourse.tick (h : OnCourse delayUs T t n p) (hqueued : Queued now p) (hbounded : Bounded p) (ht : t ≤ now)
    (hprompt : now ≤ max t p.nextSendUs + delayUs) (socket4 socket6 : IcmpSocket) (io : Io) (b : Board) :
    let p' := (tickProber socket4 socket6 io now b p).2
    p.sent ≤ p'.sent ∧ OnCourse delayUs T now (n - (p'.sent - p.sent)) p' ∧ (n - (p'.sent - p.sent) = 0 ∨ now < T) := by
  intro p'
  have hstart : OnCourse delayUs T t (n - (p.sent - p.sent)) p := by rwa [Nat.sub_self, Nat.sub_zero]
  obtain ⟨-, hsent, -, hcourse⟩ :=
    (tickRule_onCourse delayUs T n ht p).tickProber socket4 socket6 io b ⟨hqueued, le_rfl, hprompt, hstart⟩
  exact ⟨hsent, hcourse.served (served_tickProber socket4 socket6 io b hbounded)⟩

theorem OnCourse.answered (h : OnCourse delayUs T t n p) (hqueued : Queued now p) {seq : ℕ} {q : InFlight}
    (hprobe : p.probe seq = some q) (rttUs : ℕ) :
    OnCourse delayUs T t (n - 1) ((p.answer seq now).count true rttUs now) := by
  have hseq := List.find?_some hprobe
  exact h.completed (f := fun q => q.seq = seq) hqueued.length ⟨q, List.mem_of_find?_eq_some hprobe, hseq⟩ rfl rfl rfl
    rfl rfl

theorem OnCourse.resolved (h : OnCourse delayUs T t n p) (result : Resolution) :
    OnCourse delayUs T t n (p.resolve now result) := by
  unfold Prober.resolve
  dsimp only
  split_ifs
  · exact h.congr rfl rfl rfl rfl rfl
  · exact h.congr rfl rfl rfl rfl rfl

end Course

/-- The samples that a destination has gained, when its prober went from `sent` to `sent'`. -/
def Gains (Verdict : HealthState → Prop) (d : Destination) (sent : ℕ) (d' : Destination) (sent' : ℕ) : Prop :=
  d'.sensitivity = d.sensitivity ∧ ∃ gained, d'.samples = gained ++ d.samples ∧ sent' = sent + gained.length ∧
    ∀ sample ∈ gained, Verdict sample.1 ∧ sample.2 = d.sensitivity

section Gains
variable {Verdict : HealthState → Prop} {d d' d'' : Destination} {sent sent' sent'' : ℕ}

theorem gains_refl : Gains Verdict d sent d sent := ⟨rfl, [], rfl, rfl, by simp⟩

theorem Gains.trans (h : Gains Verdict d sent d' sent') (h' : Gains Verdict d' sent' d'' sent'') :
    Gains Verdict d sent d'' sent'' := by
  obtain ⟨hsame, gained, hsamples, hsent, hall⟩ := h
  obtain ⟨hsame', gained', hsamples', hsent', hall'⟩ := h'
  refine ⟨hsame'.trans hsame, gained' ++ gained, ?_, ?_, fun sample hsample => ?_⟩
  · rw [hsamples', hsamples, List.append_assoc]
  · rw [hsent', hsent, List.length_append]
    omega
  · obtain hsample | hsample := List.mem_append.mp hsample
    · exact ⟨(hall' sample hsample).1, (hall' sample hsample).2.trans hsame⟩
    · exact hall sample hsample

theorem Gains.le (h : Gains Verdict d sent d' sent') : sent ≤ sent' := by
  obtain ⟨-, gained, -, hsent, -⟩ := h
  omega

theorem gains_sample {received : Bool} {rttUs : ℕ} (hverdict : Verdict (classify received rttUs d.thresholdUs))
    (realNow : ℕ) : Gains Verdict d sent (d.sample received rttUs realNow) (sent + 1) := by
  have hsame : (d.sample received rttUs realNow).sensitivity = d.sensitivity := by
    have hjudge : ∀ (d : Destination) verdict, (d.judge verdict).sensitivity = d.sensitivity := by
      intro d verdict
      unfold Destination.judge
      dsimp only
      split_ifs <;> rfl
    unfold Destination.sample
    dsimp only
    split_ifs <;> exact hjudge _ _
  refine ⟨hsame, [(classify received rttUs d.thresholdUs, d.sensitivity)], samples_sample d received rttUs realNow,
    rfl, fun sample hsample => ?_⟩
  rw [List.mem_singleton.mp hsample]
  exact ⟨hverdict, rfl⟩

end Gains

section Board
variable {Verdict : HealthState → Prop} {s : Subscriber} {d : Destination} {sent : ℕ}

/-- What the destination has gained on a board that has come about with this prober. -/
def Board.Credits (Verdict : HealthState → Prop) (s : Subscriber) (d : Destination) (sent : ℕ) (b : Board)
    (p : Prober) : Prop :=
  p.subscribers.count s = 1 ∧ ∃ d', b.destination? s = some d' ∧ Gains Verdict d sent d' p.sent

theorem Board.Credits.applySample {b : Board} {p : Prober} (h : b.Credits Verdict s d sent p) {received : Bool}
    {rttUs : ℕ} (hverdict : ∀ thresholdUs, Verdict (classify received rttUs thresholdUs)) (now realNow : ℕ) :
    (Daemon.applySample b p received rttUs now realNow).1.Credits Verdict s d sent (p.count received rttUs now) := by
  obtain ⟨hcount, d', hd', hgains⟩ := h
  refine ⟨hcount, d'.sample received rttUs realNow, ?_, hgains.trans (gains_sample (hverdict _) realNow)⟩
  rw [destination?_applySample, hd', hcount]
  rfl

theorem Board.Credits.lost {b : Board} {p : Prober} (h : b.Credits Verdict s d sent p) (hbad : Verdict .bad)
    (now realNow : ℕ) :
    (Daemon.applySample b p false 0 now realNow).1.Credits Verdict s d sent (p.count false 0 now) := by
  apply h.applySample
  intro _
  exact hbad

variable (socket4 socket6 : IcmpSocket) (io : Io) (now : ℕ) {b : Board} {p : Prober}

theorem credits_expire (hbad : Verdict .bad) (h : b.Credits Verdict s d sent p) (queue : List InFlight) :
    (expire io now b p queue).1.Credits Verdict s d sent (expire io now b p queue).2 := by
  induction queue generalizing b p with
  | nil => exact h
  | cons oldest rest ih =>
    unfold expire
    split_ifs
    · have hgaveUp : b.Credits Verdict s d sent (p.giveUp oldest rest now) := h
      exact ih (hgaveUp.lost hbad now _)
    · exact h

theorem credits_sendProbe (hbad : Verdict .bad) (h : b.Credits Verdict s d sent p) :
    (sendProbe socket4 socket6 io now b p).1.Credits Verdict s d sent (sendProbe socket4 socket6 io now b p).2 := by
  have hrefused : ∀ (q : Prober) (error : Bytes), q.subscribers = p.subscribers → q.sent = p.sent →
      (refuse io now b q error).1.Credits Verdict s d sent (refuse io now b q error).2 := by
    intro q error hsubscribers hsent
    have hq : b.Credits Verdict s d sent (q.refuse error now) := by
      obtain ⟨hcount, hgained⟩ := h
      refine ⟨(congrArg (List.count s) hsubscribers).trans hcount, ?_⟩
      rwa [show (q.refuse error now).sent = p.sent from hsent]
    exact hq.lost hbad now _
  unfold sendProbe
  dsimp only
  split
  · exact hrefused _ _ rfl rfl
  · split
    · exact h
    · exact hrefused _ _ rfl rfl
    · exact hrefused _ _ rfl rfl

theorem credits_tickProber (hbad : Verdict .bad) (h : b.Credits Verdict s d sent p) :
    (tickProber socket4 socket6 io now b p).1.Credits Verdict s d sent (tickProber socket4 socket6 io now b p).2 := by
  have hexpired := credits_expire io now hbad h p.inFlight
  have hasked : (requestLookup now (expire io now b p p.inFlight).1 (expire io now b p p.inFlight).2).1.Credits Verdict
      s d sent (requestLookup now (expire io now b p p.inFlight).1 (expire io now b p p.inFlight).2).2 := by
    unfold requestLookup
    split_ifs <;> exact hexpired
  unfold tickProber sendDue
  dsimp only
  split_ifs
  · exact credits_sendProbe socket4 socket6 io now hbad hasked
  · exact hasked

end Board

/-- The destination is served by the prober at that index, and by no other. -/
def Monitor.Serves (s : Subscriber) (k : ℕ) (m : Monitor) : Prop :=
  ∀ j p, m.probers[j]? = some p → p.subscribers.count s = if j = k then 1 else 0

/-- A destination and its prober, which is on course. -/
structure Tracked (s : Subscriber) (k delayUs T t now n : ℕ) (m : Monitor) (d : Destination) (p : Prober) : Prop where
  destination : m.destination? s = some d
  prober : m.probers[k]? = some p
  wired : m.WellWired
  serves : m.Serves s k
  queued : Queued now p
  bounded : Bounded p
  course : OnCourse delayUs T t n p

section Tracked
variable {s : Subscriber} {k delayUs T t now n : ℕ} {m : Monitor} {d : Destination} {p : Prober}
  {Verdict : HealthState → Prop}

theorem Monitor.Serves.of_wiring {m' : Monitor} (h : m.Serves s k) (hsame : m'.wiring = m.wiring) :
    m'.Serves s k := by
  intro j p' hp'
  have hstreams : m'.probers.map Prober.stream = m.probers.map Prober.stream := congrArg (·.2.1) hsame
  have hget : (m.probers.map Prober.stream)[j]? = some p'.stream := by
    rw [← hstreams, List.getElem?_map, hp']
    rfl
  rw [List.getElem?_map] at hget
  obtain ⟨p, hp, hstream⟩ := Option.map_eq_some_iff.mp hget
  rw [← h j p hp, show p'.subscribers = p.subscribers from (congrArg Stream.subscribers hstream).symm]

theorem Tracked.later (h : Tracked s k delayUs T t now n m d p) {now' : ℕ} (hle : now ≤ now') :
    Tracked s k delayUs T t now' n m d p :=
  ⟨h.destination, h.prober, h.wired, h.serves, queued_rule.later now now' p hle h.queued, h.bounded, h.course⟩

/-- What a reply may tell: nothing new of this prober if it is not for it. -/
theorem Tracked.handleReply (h : Tracked s k delayUs T t now n m d p) (io : Io) (reply : Datagram)
    (hverdict : reply.uid = p.uid → ∀ v, Verdict v) : ∃ d' p', p'.stream = p.stream ∧ p'.nextSendUs = p.nextSendUs ∧
      Gains Verdict d p.sent d' p'.sent ∧
      Tracked s k delayUs T t now (n - (p'.sent - p.sent)) (m.handleReply now io reply) d' p' := by
  have hwiring := m.wiring_handleReply now io reply
  have hwired := h.wired.of_wiring hwiring
  have hserves := h.serves.of_wiring hwiring
  obtain he | ⟨i, q, probe, hq, hprobe, -, -, he⟩ := m.handleReply_cases io now reply
  · refine ⟨d, p, rfl, rfl, gains_refl, ?_⟩
    rw [he, Nat.sub_self, Nat.sub_zero]
    exact h
  · rw [he] at hwired hserves ⊢
    have hi := (Monitor.proberOf_eq_some.mp hq).2
    by_cases hk : i = k
    · subst hk
      obtain rfl : q = p := Option.some.inj (hi.symm.trans h.prober)
      have hcount : q.subscribers.count s = 1 := (h.serves i q hi).trans (if_pos rfl)
      have hall := hverdict (h.wired.uid_of_proberOf hq).symm
      have hcredits : m.toBoard.Credits Verdict s d q.sent (q.answer reply.seq now) :=
        ⟨hcount, d, h.destination, gains_refl⟩
      have hsampled : (applySample m.toBoard (q.answer reply.seq now) true (now - reply.sentUs) now
          (io.realtime (q.answer reply.seq now))).1.Credits Verdict s d q.sent
            ((q.answer reply.seq now).count true (now - reply.sentUs) now) :=
        hcredits.applySample (fun _ => hall _) now _
      obtain ⟨-, d', hd', hgains⟩ := hsampled
      refine ⟨d', (q.answer reply.seq now).count true (now - reply.sentUs) now, rfl, rfl, hgains, hd', ?_, hwired,
        hserves, ?_, h.bounded.of_stream rfl, ?_⟩
      · exact List.getElem?_set_self (List.getElem?_eq_some_iff.mp hi).1
      · exact queued_rule.answered now q probe reply.seq _ h.queued hprobe
      · have hsent : ((q.answer reply.seq now).count true (now - reply.sentUs) now).sent = q.sent + 1 := rfl
        rw [hsent, Nat.add_sub_cancel_left]
        exact h.course.answered h.queued hprobe _
    · have hnone : s ∉ q.subscribers := by
        have hcount := h.serves i q hi
        rw [if_neg hk] at hcount
        exact List.count_eq_zero.mp hcount
      have hboard := BoardRule.applySample (p := q.answer reply.seq now) (destination?_boardRule m.toBoard hnone) rfl
        true (now - reply.sentUs) now (io.realtime (q.answer reply.seq now))
      refine ⟨d, p, rfl, rfl, gains_refl, hboard.trans h.destination, ?_, hwired, hserves, h.queued, h.bounded, ?_⟩
      · exact (List.getElem?_set_ne hk).trans h.prober
      · rw [Nat.sub_self, Nat.sub_zero]
        exact h.course

theorem Tracked.handleReplies (h : Tracked s k delayUs T t now n m d p) (io : Io) (replies : List Datagram)
    (hverdict : (∃ reply ∈ replies, reply.uid = p.uid) → ∀ v, Verdict v) : ∃ d' p', p'.stream = p.stream ∧
      p'.nextSendUs = p.nextSendUs ∧ Gains Verdict d p.sent d' p'.sent ∧
      Tracked s k delayUs T t now (n - (p'.sent - p.sent)) (m.handleReplies now io replies) d' p' := by
  induction replies generalizing m d p n with
  | nil => exact ⟨d, p, rfl, rfl, gains_refl, by rwa [Nat.sub_self, Nat.sub_zero]⟩
  | cons reply rest ih =>
    obtain ⟨d₁, p₁, hstream₁, hnext₁, hgains₁, h₁⟩ :=
      h.handleReply io reply fun huid => hverdict ⟨reply, List.mem_cons_self, huid⟩
    have huid : p₁.uid = p.uid := congrArg Stream.uid hstream₁
    obtain ⟨d₂, p₂, hstream₂, hnext₂, hgains₂, h₂⟩ := ih h₁ fun ⟨other, hother, hsame⟩ =>
      hverdict ⟨other, List.mem_cons_of_mem reply hother, hsame.trans huid⟩
    refine ⟨d₂, p₂, hstream₂.trans hstream₁, hnext₂.trans hnext₁, hgains₁.trans hgains₂, ?_⟩
    have hle₁ := hgains₁.le
    have hle₂ := hgains₂.le
    rwa [show n - (p₂.sent - p.sent) = n - (p₁.sent - p.sent) - (p₂.sent - p₁.sent) by omega]

theorem Tracked.handleResolution (h : Tracked s k delayUs T t now n m d p) (result : Resolution) :
    ∃ p', p'.stream = p.stream ∧ p'.nextSendUs = p.nextSendUs ∧ p'.sent = p.sent ∧
      Tracked s k delayUs T t now n (m.handleResolution now result) d p' := by
  have hwiring := m.wiring_handleResolution now result
  have hwired := h.wired.of_wiring hwiring
  have hserves := h.serves.of_wiring hwiring
  obtain he | ⟨i, q, dirty, hq, he⟩ := m.handleResolution_cases now result
  · refine ⟨p, rfl, rfl, rfl, ?_⟩
    rw [he]
    exact h
  · rw [he] at hwired hserves ⊢
    have hi := (Monitor.proberOf_eq_some.mp hq).2
    by_cases hk : i = k
    · subst hk
      obtain rfl : q = p := Option.some.inj (hi.symm.trans h.prober)
      have hstream := stream_resolve now q result
      have hsent : (q.resolve now result).sent = q.sent := by
        unfold Prober.resolve
        split_ifs <;> rfl
      refine ⟨q.resolve now result, hstream, (q.latestSends_resolve now result).2, hsent, h.destination, ?_, hwired,
        hserves, queued_rule.resolved now q result h.queued, h.bounded.of_stream hstream, h.course.resolved result⟩
      exact List.getElem?_set_self (List.getElem?_eq_some_iff.mp hi).1
    · exact ⟨p, rfl, rfl, rfl, h.destination, (List.getElem?_set_ne hk).trans h.prober, hwired, hserves, h.queued,
        h.bounded, h.course⟩

theorem Tracked.handleResolutions (h : Tracked s k delayUs T t now n m d p) (results : List Resolution) :
    ∃ p', p'.stream = p.stream ∧ p'.nextSendUs = p.nextSendUs ∧ p'.sent = p.sent ∧
      Tracked s k delayUs T t now n (m.handleResolutions now results) d p' := by
  induction results generalizing m p with
  | nil => exact ⟨p, rfl, rfl, rfl, h⟩
  | cons result rest ih =>
    obtain ⟨p₁, hstream₁, hnext₁, hsent₁, h₁⟩ := h.handleResolution result
    obtain ⟨p₂, hstream₂, hnext₂, hsent₂, h₂⟩ := ih h₁
    exact ⟨p₂, hstream₂.trans hstream₁, hnext₂.trans hnext₁, hsent₂.trans hsent₁, h₂⟩

theorem Tracked.tick (h : Tracked s k delayUs T t now n m d p) (ht : t ≤ now)
    (hprompt : now ≤ max t p.nextSendUs + delayUs) (hbad : Verdict .bad) (io : Io) : ∃ d' p', p'.stream = p.stream ∧
      Gains Verdict d p.sent d' p'.sent ∧
      Tracked s k delayUs T now now (n - (p'.sent - p.sent)) (m.tick now io) d' p' ∧
      (n - (p'.sent - p.sent) = 0 ∨ now < T) := by
  have hwiring := m.wiring_tick now io
  have hothers : ∀ j q, m.probers[j]? = some q → j ≠ k → ∀ b,
      (tickProber m.socket4 m.socket6 io now b q).1.destination? s = b.destination? s := by
    intro j q hq hj b
    have hcount := h.serves j q hq
    rw [if_neg hj] at hcount
    exact (destination?_boardRule b (List.count_eq_zero.mp hcount)).tickProber m.socket4 m.socket6 io now rfl
  obtain ⟨b, hb, hget, hboard⟩ := mapAccum_at (fun b : Board => b.destination? s) h.prober hothers m.toBoard
  have hcount : p.subscribers.count s = 1 := (h.serves k p h.prober).trans (if_pos rfl)
  have hcredits : b.Credits Verdict s d p.sent p := ⟨hcount, d, hb.trans h.destination, gains_refl⟩
  obtain ⟨-, d', hd', hgains⟩ := credits_tickProber m.socket4 m.socket6 io now hbad hcredits
  obtain ⟨-, hcourse, hdone⟩ := h.course.tick h.queued h.bounded ht hprompt m.socket4 m.socket6 io b
  have hstream := stream_tickProber m.socket4 m.socket6 io now b p
  exact ⟨d', _, hstream, hgains, ⟨hboard.trans hd', hget, h.wired.of_wiring hwiring, h.serves.of_wiring hwiring,
    (queued_rule.tickRule now).tickProber m.socket4 m.socket6 io b h.queued, h.bounded.of_stream hstream, hcourse⟩,
    hdone⟩

/-- A handler that leaves clients and probers alone. -/
theorem Tracked.quiet {m' : Monitor} (h : Tracked s k delayUs T t now n m d p) (hclients : m'.clients = m.clients)
    (hprobers : m'.probers = m.probers) (hwiring : m'.wiring = m.wiring) : Tracked s k delayUs T t now n m' d p where
  destination := by
    unfold Board.destination?
    rw [hclients]
    exact h.destination
  prober := by
    rw [hprobers]
    exact h.prober
  wired := h.wired.of_wiring hwiring
  serves := h.serves.of_wiring hwiring
  queued := h.queued
  bounded := h.bounded
  course := h.course

end Tracked

theorem nextDeadline_le {m : Monitor} {p : Prober} (hp : p ∈ m.probers) : m.nextDeadline ≤ p.nextSendUs := by
  by_contra hlate
  obtain ⟨-, hwaits, -⟩ := (m.lt_nextDeadline_iff p.nextSendUs).mp (not_le.mp hlate)
  exact lt_irrefl _ (hwaits p hp).send

/-- Trips without a reload, whose ticks come at most `delayUs` after the time that the loop slept until, or after
the tick before if that had passed. -/
def InTime (numeric : Bytes → Option Endpoint) (delayUs : ℕ) : ℕ → Monitor → List Wakeup → Prop
  | _, _, [] => True
  | t, m, w :: trips => m.running = true ∧ w.shutdown = false ∧ m.configDirty = false ∧ w.configChanged = false ∧
    w.now ≤ max t m.nextDeadline + delayUs ∧ InTime numeric delayUs w.now ((loop numeric).step m w) trips

instance (numeric : Bytes → Option Endpoint) (delayUs : ℕ) : ∀ t m trips, Decidable (InTime numeric delayUs t m trips)
  | _, _, [] => .isTrue trivial
  | t, m, w :: trips =>
    have := instDecidableInTime numeric delayUs w.now ((loop numeric).step m w) trips
    inferInstanceAs (Decidable (m.running = true ∧ w.shutdown = false ∧ m.configDirty = false ∧
      w.configChanged = false ∧ w.now ≤ max t m.nextDeadline + delayUs ∧
      InTime numeric delayUs w.now ((loop numeric).step m w) trips))

/-- The time of the last tick. -/
def lastTick (t : ℕ) (trips : List Wakeup) : ℕ := trips.foldl (fun _ w => w.now) t

section Run
variable {numeric : Bytes → Option Endpoint} {s : Subscriber} {k delayUs T t n : ℕ} {m : Monitor} {d : Destination}
  {p : Prober} {Verdict : HealthState → Prop}

theorem Tracked.trip {w : Wakeup} (h : Tracked s k delayUs T t t n m d p) (hrunning : m.running = true)
    (hshutdown : w.shutdown = false) (hclean : m.configDirty = false) (hquiet : w.configChanged = false)
    (hafter : t ≤ w.after) (hnow : w.after ≤ w.now) (hprompt : w.now ≤ max t m.nextDeadline + delayUs)
    (hbad : Verdict .bad) (hverdict : (∃ reply ∈ w.replies, reply.uid = p.uid) → ∀ v, Verdict v) :
    ∃ d' p', p'.stream = p.stream ∧ Gains Verdict d p.sent d' p'.sent ∧
      Tracked s k delayUs T w.now w.now (n - (p'.sent - p.sent)) ((loop numeric).step m w) d' p' ∧
      (n - (p'.sent - p.sent) = 0 ∨ w.now < T) := by
  have hdeadline := nextDeadline_le (List.mem_of_getElem? h.prober)
  have hflagged : Tracked s k delayUs T t w.after n
      { m with configDirty := m.configDirty || w.configChanged, running := m.running && !w.shutdown } d p :=
    { h.later hafter with }
  obtain ⟨p₁, hstream₁, hnext₁, hsent₁, h₁⟩ := hflagged.handleResolutions w.resolutions
  have huid : p₁.uid = p.uid := congrArg Stream.uid hstream₁
  obtain ⟨d₂, p₂, hstream₂, hnext₂, hgains₂, h₂⟩ := h₁.handleReplies w.io w.replies (by rwa [huid])
  have hattended : (m.dispatch w).attend numeric w = (m.dispatch w).handleReplies w.after w.io w.replies := by
    have hdirty : ((m.dispatch w).handleReplies w.after w.io w.replies).configDirty = false := by
      have hsame := congrArg Monitor.configDirty (Monitor.bare_handleReplies w.io w.after (m.dispatch w) w.replies)
      have hsame' : (m.dispatch w).configDirty = (m.configDirty || w.configChanged) :=
        congrArg Monitor.configDirty (Monitor.bare_handleResolutions ..)
      refine hsame.trans (hsame'.trans ?_)
      rw [hclean, hquiet]
      rfl
    unfold Monitor.attend
    dsimp only
    rw [if_neg (by simp [hdirty])]
  have hprompt₂ : w.now ≤ max t p₂.nextSendUs + delayUs := by
    rw [hnext₂, hnext₁]
    omega
  obtain ⟨d₃, p₃, hstream₃, hgains₃, h₃, hdone⟩ := (h₂.later hnow).tick (hafter.trans hnow) hprompt₂ hbad w.io
  have hticked : ((m.dispatch w).handleReplies w.after w.io w.replies).tick w.now w.io = m.afterTick numeric w := by
    rw [Monitor.afterTick, hattended]
  rw [hsent₁] at hgains₂
  have hle₂ := hgains₂.le
  have hle₃ := hgains₃.le
  rw [hsent₁, show n - (p₂.sent - p.sent) - (p₃.sent - p₂.sent) = n - (p₃.sent - p.sent) by omega] at h₃ hdone
  refine ⟨d₃, p₃, hstream₃.trans (hstream₂.trans hstream₁), hgains₂.trans hgains₃, ?_, hdone⟩
  have h₄ : Tracked s k delayUs T w.now w.now (n - (p₃.sent - p.sent)) (m.afterTick numeric w) d₃ p₃ := by
    rw [← hticked]
    exact h₃
  rw [Monitor.step_of_running numeric hrunning hshutdown, Monitor.beforePublish]
  have hdropped := h₄.quiet
    (congrArg Board.clients (Monitor.quiet_dropExpiredClients w.after (m.afterTick numeric w) w.realNow w.mtime).1)
    (Monitor.quiet_dropExpiredClients w.after (m.afterTick numeric w) w.realNow w.mtime).2
    (Monitor.wiring_step numeric (m.afterTick numeric w) ⟨w.now, .dropExpiredClients w.after w.realNow w.mtime⟩
      (by simp))
  have hnoted := hdropped.quiet (congrArg Board.clients (Monitor.quiet_noteIdle w.after _).1)
    (Monitor.quiet_noteIdle w.after _).2 (Monitor.wiring_step numeric _ ⟨w.now, .noteIdle w.after⟩ (by simp))
  exact hnoted.quiet (Monitor.quiet_publish w.publishAt _ false).1 (Monitor.quiet_publish w.publishAt _ false).2
    (Monitor.wiring_step numeric _ ⟨w.publishAt, .publish false⟩ (by simp))

theorem Clocked.earlier {t' : ℕ} {trips : List Wakeup} (h : Clocked t trips) (hle : t' ≤ t) : Clocked t' trips := by
  cases trips with
  | nil => simp [Clocked, Machine.Timed]
  | cons w rest =>
    obtain ⟨hafter, hrest⟩ := clocked_cons.mp h
    exact clocked_cons.mpr ⟨hle.trans hafter, hrest⟩

/-- Over trips in time, the prober yields the samples it is on course for. -/
theorem Tracked.trips {trips : List Wakeup} (h : Tracked s k delayUs T t t n m d p)
    (hintime : InTime numeric delayUs t m trips) (hclock : Clocked t trips) (hbad : Verdict .bad)
    (hverdict : (∃ w ∈ trips, ∃ reply ∈ w.replies, reply.uid = p.uid) → ∀ v, Verdict v)
    (hstart : n = 0 ∨ t < T) : ∃ d' sent', ((loop numeric).run m trips).destination? s = some d' ∧
      Gains Verdict d p.sent d' sent' ∧ (n - (sent' - p.sent) = 0 ∨ lastTick t trips < T) := by
  induction trips generalizing t n m d p with
  | nil =>
    refine ⟨d, p.sent, h.destination, gains_refl, ?_⟩
    rw [Nat.sub_self, Nat.sub_zero]
    exact hstart
  | cons w rest ih =>
    obtain ⟨hrunning, hshutdown, hclean, hquiet, hprompt, hintime'⟩ := hintime
    obtain ⟨hafter, hreload, htick, hpublish, hrest⟩ := clocked_cons.mp hclock
    obtain ⟨d₁, p₁, hstream₁, hgains₁, h₁, hdone⟩ := h.trip hrunning hshutdown hclean hquiet hafter
      (hreload.trans htick) hprompt hbad fun ⟨reply, hreply, huid⟩ =>
        hverdict ⟨w, List.mem_cons_self, reply, hreply, huid⟩
    have huid : p₁.uid = p.uid := congrArg Stream.uid hstream₁
    obtain ⟨d₂, sent₂, hd₂, hgains₂, hdone₂⟩ := ih h₁ hintime' (hrest.earlier hpublish)
      (fun ⟨v, hv, reply, hreply, hsame⟩ =>
        hverdict ⟨v, List.mem_cons_of_mem w hv, reply, hreply, hsame.trans huid⟩) hdone
    refine ⟨d₂, sent₂, hd₂, hgains₁.trans hgains₂, ?_⟩
    have hle₁ := hgains₁.le
    have hle₂ := hgains₂.le
    rwa [show n - (p₁.sent - p.sent) - (sent₂ - p₁.sent) = n - (sent₂ - p.sent) by omega] at hdone₂

/-- The next send is at most an interval and the slack away. -/
theorem ahead_rule : ProberRule fun t p => p.nextSendUs ≤ t + p.intervalUs + kSendSlackUs where
  later := fun _ _ _ hle h => by omega
  fresh := fun _ now _ _ intervalUs _ _ => by
    change now ≤ now + intervalUs + kSendSlackUs
    omega
  rewired := fun _ _ _ h => h
  asked := fun _ _ h => h
  gaveUp := fun _ _ _ _ h _ _ => h
  sent := by
    intro now p p' h _ _ hdue houtcome
    have hinterval := (fields_of_stream (stream_of_sendOutcome houtcome)).1
    have hsame : p'.nextSendUs = p.nextSendUs := by cases houtcome <;> rfl
    unfold Prober.advance
    dsimp only
    rw [hsame, hinterval]
    split_ifs <;> omega
  answered := fun _ _ _ _ _ h _ => h
  resolved := by
    intro now p result h
    rw [(p.latestSends_resolve now result).2, (fields_of_stream (stream_resolve now p result)).1]
    exact h

theorem onCourse_start (hqueued : Queued t p) (hahead : p.nextSendUs ≤ t + p.intervalUs + kSendSlackUs)
    (delayUs n : ℕ) : OnCourse delayUs (t + (n + 1) * (p.gapUs + delayUs) + p.timeoutUs + delayUs) t (n + 1) p := by
  have hlarge : p.intervalUs + kSendSlackUs ≤ p.gapUs ∧ p.timeoutUs ≤ p.gapUs := ⟨le_max_left _ _, le_max_right _ _⟩
  have hinFlight : ∀ q ∈ p.inFlight, q.deadlineUs ≤ t + p.timeoutUs := by
    intro q hq
    have hdeadline := hqueued.deadline q hq
    omega
  have hopening : p.opening ≤ t + p.gapUs := by
    refine Prober.opening_le (by omega) fun q hq => ?_
    have hdeadline := hinFlight q hq
    omega
  refine ⟨fun q hq => ?_, fun hmore => ?_⟩
  · have hdeadline := hinFlight q (List.mem_of_mem_take hq)
    generalize (n + 1) * (p.gapUs + delayUs) = span
    omega
  · have hmul : (n + 1 - p.inFlight.length - 1) * (p.gapUs + delayUs) ≤ n * (p.gapUs + delayUs) :=
      Nat.mul_le_mul_right _ (by omega)
    have hspan : (n + 1) * (p.gapUs + delayUs) = n * (p.gapUs + delayUs) + (p.gapUs + delayUs) := Nat.succ_mul _ _
    omega

/-- What the rule says of a prober after a trip is said at the time of the trip's tick. -/
theorem ProberRule.trip {Inv : ℕ → Prober → Prop} (rule : ProberRule Inv) {w : Wakeup} (h : ∀ p ∈ m.probers, Inv t p)
    (hafter : t ≤ w.after) (hreload : w.after ≤ w.reloadAt) (htick : w.reloadAt ≤ w.now) :
    ∀ p ∈ ((loop numeric).step m w).probers, Inv w.now p := by
  have hwoken : ∀ p ∈ (m.dispatch w).probers, Inv w.after p :=
    rule.handleResolutions (m := { m with
      configDirty := m.configDirty || w.configChanged, running := m.running && !w.shutdown })
      (fun p hp => rule.later t w.after p hafter (h p hp)) w.resolutions
  have hreplied := rule.handleReplies hwoken w.io w.replies
  have hattended : ∀ p ∈ ((m.dispatch w).attend numeric w).probers, Inv w.now p := by
    unfold Monitor.attend
    dsimp only
    split_ifs
    · exact fun p hp => rule.later _ _ p htick (rule.reloadClients
        (fun p hp => rule.later _ _ p hreload (hreplied p hp)) numeric w.directory p hp)
    · exact fun p hp => rule.later _ _ p (hreload.trans htick) (hreplied p hp)
  change ∀ p ∈ (if m.running then m.iterate numeric w else m).probers, Inv w.now p
  unfold Monitor.iterate
  dsimp only
  split_ifs
  · unfold Monitor.serve
    dsimp only
    rw [(Monitor.quiet_publish ..).2, (Monitor.quiet_noteIdle ..).2, (Monitor.quiet_dropExpiredClients ..).2]
    exact (rule.tickRule w.now).tick hattended w.io
  · exact fun p hp => rule.later _ _ p (hreload.trans htick) (hwoken p hp)
  · exact fun p hp => rule.later _ _ p (hafter.trans (hreload.trans htick)) (h p hp)

theorem ProberRule.trips {Inv : ℕ → Prober → Prop} (rule : ProberRule Inv) {trips : List Wakeup}
    (h : ∀ p ∈ m.probers, Inv t p) (hclock : Clocked t trips) :
    ∀ p ∈ ((loop numeric).run m trips).probers, Inv (lastTick t trips) p := by
  induction trips generalizing t m with
  | nil => exact h
  | cons w rest ih =>
    obtain ⟨hafter, hreload, htick, hpublish, hrest⟩ := clocked_cons.mp hclock
    exact ih (rule.trip h hafter hreload htick) (hrest.earlier hpublish)

end Run

/-- The loop does nothing that the handlers could not do. -/
theorem exists_events (numeric : Bytes → Option Endpoint) (m : Monitor) (trips : List Wakeup) :
    ∃ events, (loop numeric).run m trips = (handlers numeric).run m events := by
  induction trips generalizing m with
  | nil => exact ⟨[], rfl⟩
  | cons w rest ih =>
    obtain ⟨events, hevents⟩ := ih ((loop numeric).step m w)
    cases hrunning : m.running with
    | false =>
      rw [Monitor.step_of_not_running numeric hrunning] at hevents
      refine ⟨events, ?_⟩
      rw [Machine.run_cons, Monitor.step_of_not_running numeric hrunning, hevents]
    | true =>
      have hstep : (loop numeric).step m w = (handlers numeric).run m (w.events m) := by
        rw [Monitor.run_events]
        exact if_pos hrunning
      refine ⟨w.events m ++ events, ?_⟩
      rw [Machine.run_cons, hevents, Machine.run_append, hstep]

theorem clocked_append {t : ℕ} {before trips : List Wakeup} (h : Clocked t (before ++ trips)) :
    Clocked t before ∧ Clocked (lastTick t before) trips := by
  induction before generalizing t with
  | nil => exact ⟨by simp [Clocked, Machine.Timed], h⟩
  | cons w rest ih =>
    obtain ⟨hafter, hreload, htick, hpublish, hrest⟩ := clocked_cons.mp h
    obtain ⟨hbefore, -⟩ := ih hrest
    exact ⟨clocked_cons.mpr ⟨hafter, hreload, htick, hpublish, hbefore⟩, (ih (hrest.earlier hpublish)).2⟩

theorem serves_of_wellWired {m : Monitor} (h : m.WellWired) {s : Subscriber} {d : Destination} {k : ℕ}
    (hd : m.destination? s = some d) (hk : d.prober = some k) : m.Serves s k := by
  obtain ⟨c, i⟩ := s
  obtain ⟨client, hclient, hdest⟩ := Option.bind_eq_some_iff.mp hd
  have hwire := wire_mem hclient hdest
  intro j p hp
  split_ifs with hj
  · subst hj
    have hnodup : p.subscribers.Nodup := by
      rw [h.subscribers_eq hp]
      exact (nodup_subscribers _).sublist (List.filter_sublist.map _)
    exact List.count_eq_one_of_mem hnodup ((h.mem_subscribers hp _).mpr ⟨_, hwire, hk, rfl⟩)
  · refine List.count_eq_zero.mpr fun hs => hj ?_
    have hother := h.prober_of_mem_subscribers hwire hp hs
    exact Option.some.inj (hother.symm.trans hk)

/-- While the loop keeps up and nothing is reloaded: if all samples that a destination gets agree, their verdict is
shown after one more send than its sensitivity, each a gap after the one before, and one timeout. A host that no
reply comes from gets nothing but lost samples, and is shown to be bad by then. -/
theorem verdict_shown (numeric : Bytes → Option Endpoint) (options : Options) (socket4 socket6 : IcmpSocket)
    (cookie startedRealUs reloadAt publishAt enteredAt : ℕ) (directory : Directory) (before trips : List Wakeup)
    (delayUs : ℕ) (hstart : reloadAt ≤ enteredAt) (hclock : Clocked enteredAt (before ++ trips)) :
    let m := (loop numeric).run ((Monitor.initial options socket4 socket6 cookie startedRealUs).start numeric reloadAt
      publishAt enteredAt directory) before
    let t := lastTick enteredAt before
    InTime numeric delayUs t m trips → ∀ s d k p, m.destination? s = some d → d.prober = some k →
      m.probers[k]? = some p → ∃ d' gained, ((loop numeric).run m trips).destination? s = some d' ∧
        d'.samples = gained ++ d.samples ∧
        ((∀ w ∈ trips, ∀ reply ∈ w.replies, reply.uid ≠ p.uid) → ∀ sample ∈ gained, sample.1 = .bad) ∧
        ∀ v, (∀ sample ∈ gained, sample.1 = v) → t + (d.sensitivity + 1) *
          (max (p.intervalUs + kSendSlackUs) p.timeoutUs + delayUs) + p.timeoutUs + delayUs ≤ lastTick t trips →
          d'.state = v := by
  intro m t hintime s d k p hd hk hp
  obtain ⟨hbefore, htrips⟩ := clocked_append hclock
  have hrule : ∀ {Inv : ℕ → Prober → Prop}, ProberRule Inv → ∀ p ∈ m.probers, Inv t p := by
    intro Inv rule
    refine rule.trips (fun p hp => ?_) hbefore
    change p ∈ (Monitor.publish _ publishAt true).probers at hp
    rw [(Monitor.quiet_publish ..).2] at hp
    exact rule.later _ _ p hstart (rule.reloadClients (fun _ h => absurd h (by simp [Monitor.initial])) numeric
      directory p hp)
  have hreached : ∀ wakeups, ∃ events, (loop numeric).run ((Monitor.initial options socket4 socket6 cookie
      startedRealUs).start numeric reloadAt publishAt enteredAt directory) wakeups =
        (handlers numeric).run (.initial options socket4 socket6 cookie startedRealUs) events := by
    intro wakeups
    obtain ⟨events, hevents⟩ := exists_events numeric ((Monitor.initial options socket4 socket6 cookie
      startedRealUs).start numeric reloadAt publishAt enteredAt directory) wakeups
    refine ⟨⟨reloadAt, .reloadClients directory⟩ :: ⟨publishAt, .publish true⟩ :: ⟨enteredAt, .enter⟩ :: events, ?_⟩
    rw [hevents]
    rfl
  have hmem := List.mem_of_getElem? hp
  have hwired : m.WellWired := by
    obtain ⟨events, hevents⟩ := hreached before
    change ((loop numeric).run _ before).WellWired
    rw [hevents]
    exact Monitor.wellWired_run numeric options socket4 socket6 cookie startedRealUs events
  have htracked : Tracked s k delayUs (t + (d.sensitivity + 1) * (p.gapUs + delayUs) + p.timeoutUs + delayUs) t t
      (d.sensitivity + 1) m d p :=
    ⟨hd, hp, hwired, serves_of_wellWired hwired hd hk, hrule queued_rule p hmem, hrule bounded_rule p hmem,
      onCourse_start (hrule queued_rule p hmem) (hrule ahead_rule p hmem) delayUs d.sensitivity⟩
  have hahead : t < t + (d.sensitivity + 1) * (p.gapUs + delayUs) + p.timeoutUs + delayUs := by
    have htimeout := (hrule bounded_rule p hmem).clamped.timeout_ge
    generalize (d.sensitivity + 1) * (p.gapUs + delayUs) = span
    omega
  let Verdict : HealthState → Prop := fun v => (∀ w ∈ trips, ∀ reply ∈ w.replies, reply.uid ≠ p.uid) → v = .bad
  have hbad : Verdict .bad := fun _ => rfl
  have hverdict : (∃ w ∈ trips, ∃ reply ∈ w.replies, reply.uid = p.uid) → ∀ v, Verdict v := by
    rintro ⟨w, hw, reply, hreply, huid⟩ v hsilent
    exact absurd huid (hsilent w hw reply hreply)
  obtain ⟨d', sent', hd', ⟨hsensitivity, gained, hsamples, hsent, hgained⟩, hdone⟩ := htracked.trips
    hintime htrips hbad hverdict (Or.inr hahead)
  refine ⟨d', gained, hd', hsamples, fun hsilent sample hsample => (hgained sample hsample).1 hsilent, ?_⟩
  intro v hagree hlong
  have hmany : d.sensitivity < gained.length := by
    obtain hdone | hearly := hdone
    · omega
    · exact absurd hlong (not_le.mpr hearly)
  have hjudged : FollowsRule d' := by
    obtain ⟨events, hevents⟩ := hreached (before ++ trips)
    obtain ⟨c, i⟩ := s
    rw [Machine.run_append] at hevents
    obtain ⟨client, hclient, hdest⟩ := Option.bind_eq_some_iff.mp hd'
    have hclients := judged_rule.reachable numeric options socket4 socket6 cookie startedRealUs events
    rw [← hevents] at hclients
    exact (hclients client (List.mem_of_getElem? hclient) d' (List.mem_of_getElem? hdest)).followsRule
  rw [hjudged.shown, hsamples, Hysteresis.ruled_of_agree (fun sample hsample =>
    Prod.ext (hagree sample hsample) (hgained sample hsample).2) hmany]
  rfl

/-- A host that is probed once a second and given up after one, without patience. -/
theorem verdict_shown_silent :
    let host : Endpoint := ⟨.inet, ⟨.inet, [192, 0, 2, 1]⟩, 16, ascii "192.0.2.1"⟩
    let directory : Directory := ⟨[⟨ascii "w.json", some (.object [(ascii "timeout_ms", .number 1000),
      (ascii "destinations", .array [.object [(ascii "address", .string (ascii "192.0.2.1")),
        (ascii "sensitivity", .number 0)]])])⟩], by decide⟩
    let trip : ℕ → Wakeup := fun t =>
      ⟨t, t, t, t, false, false, [], [], directory, ⟨fun _ => .sent, fun _ => 0⟩, 0, fun _ => none⟩
    let m := (loop fun _ => some host).run ((Monitor.initial ⟨[], 1000000, 0, 0, 50, by decide, by decide⟩
      ⟨true, false, []⟩ ⟨true, false, []⟩ 5 0).start (fun _ => some host) 1000 1000 1000 directory) [trip 1000]
    ∃ d, ((loop fun _ => some host).run m [trip 1001000, trip 2001000, trip 3001000]).destination? ⟨0, 0⟩ = some d ∧
      d.state = .bad := by
  intro host directory trip m
  have hintime : InTime (fun _ => some host) 0 1000 m [trip 1001000, trip 2001000, trip 3001000] := by decide +kernel
  have hserved : ∃ d, m.destination? ⟨0, 0⟩ = some d ∧ d.prober = some 0 ∧ d.sensitivity = 0 := by
    refine ⟨(m.destination? ⟨0, 0⟩).get (by decide +kernel), (Option.some_get _).symm, ?_, ?_⟩
    · decide +kernel
    · decide +kernel
  obtain ⟨d, hd, hk, hsensitivity⟩ := hserved
  have hprober : ∃ p, m.probers[0]? = some p ∧ p.intervalUs = 1000000 ∧ p.timeoutUs = 1000000 := by
    refine ⟨m.probers[0]?.get (by decide +kernel), (Option.some_get _).symm, ?_, ?_⟩
    · decide +kernel
    · decide +kernel
  obtain ⟨p, hp, hinterval, htimeout⟩ := hprober
  obtain ⟨d', gained, hd', -, hlost, hshown⟩ := verdict_shown (fun _ => some host)
    ⟨[], 1000000, 0, 0, 50, by decide, by decide⟩ ⟨true, false, []⟩ ⟨true, false, []⟩ 5 0 1000 1000 1000 directory
    [trip 1000] [trip 1001000, trip 2001000, trip 3001000] 0 (by decide) (by decide) hintime ⟨0, 0⟩ d 0 p hd hk hp
  refine ⟨d', hd', hshown .bad (hlost (by simp [trip])) ?_⟩
  rw [hsensitivity, hinterval, htimeout]
  decide

end NetworkHealth.Daemon
