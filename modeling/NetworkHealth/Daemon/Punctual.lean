import NetworkHealth.Daemon.ProberLife

/-! A host that times out is still probed once per interval. Early and late sends both move
within the slack, and so does giving up: once a send is due, the oldest of as many probes as
the queue holds has waited long enough, whatever the others did. -/
namespace NetworkHealth.Daemon

/-- The queue of a prober whose next send is due at `due`: the oldest entry was sent as many
intervals before as there are entries, up to the slack, and so on for the rest. -/
def Staggered (intervalUs due : ℕ) : List InFlight → Prop
  | [] => True
  | oldest :: rest =>
    oldest.sentUs + (rest.length + 1) * intervalUs ≤ due + kSendSlackUs ∧ Staggered intervalUs due rest

/-- A prober that has kept to its timetable: every send within the slack of the time it was
first due, an interval after the one before. -/
structure Regular (first : ℕ) (p : Prober) : Prop where
  interval : kSendSlackUs < p.intervalUs
  timeout : p.timeoutUs ≤ 8 * p.intervalUs
  room : p.maxInFlight = neededInFlight p.intervalUs p.timeoutUs
  due : p.nextSendUs = first + p.latestSends.length * p.intervalUs
  times : ∀ i a, p.latestSends[i]? = some a → a + (i + 1) * p.intervalUs ≤ p.nextSendUs + kSendSlackUs ∧
    p.nextSendUs ≤ a + (i + 1) * p.intervalUs + kSendSlackUs
  deadline : ∀ q ∈ p.inFlight, q.deadlineUs = q.sentUs + p.timeoutUs
  queue : Staggered p.intervalUs p.nextSendUs p.inFlight

/-- The turn is a tick. -/
def Turn.IsTick (turn : Turn) : Prop := ∃ b io, turn.happening = .tick b io

/-- The turn is a tick that sends for this prober. -/
def Turn.Sends (turn : Turn) (p : Prober) : Prop := turn.IsTick ∧ p.SendsAt turn.now

/-- A life without end whose clock never goes back and in which every due time is attended to:
a tick comes within the slack after it, unless the probe has already gone out before it. -/
structure Attended (socket4 socket6 : IcmpSocket) (p : Prober) (turns : ℕ → Turn) : Prop where
  ordered : Monotone fun n => (turns n).now
  attended : ∀ n, let due := (p.after socket4 socket6 turns n).nextSendUs
    (∃ m, (turns m).IsTick ∧ due ≤ (turns m).now ∧ (turns m).now ≤ due + kSendSlackUs) ∨
      ∃ m, (p.after socket4 socket6 turns m).nextSendUs = due ∧
        (turns m).Sends (p.after socket4 socket6 turns m) ∧ (turns m).now < due

section Queue
variable {intervalUs due : ℕ} {queue : List InFlight}

theorem Staggered.sublist {queue' : List InFlight} (hsub : queue'.Sublist queue)
    (h : Staggered intervalUs due queue) : Staggered intervalUs due queue' := by
  induction hsub with
  | slnil => exact h
  | cons q _ ih => exact ih h.2
  | @cons_cons rest' rest q hrest ih =>
    refine ⟨?_, ih h.2⟩
    have hmul : (rest'.length + 1) * intervalUs ≤ (rest.length + 1) * intervalUs :=
      Nat.mul_le_mul_right _ (by have hlen := hrest.length_le; omega)
    have hhead := h.1
    omega

/-- The next send takes its place behind the others. -/
theorem Staggered.append (h : Staggered intervalUs due queue) {q : InFlight}
    (hq : q.sentUs ≤ due + kSendSlackUs) : Staggered intervalUs (due + intervalUs) (queue ++ [q]) := by
  induction queue with
  | nil =>
    refine ⟨?_, trivial⟩
    simp only [List.length_nil, Nat.zero_add, Nat.one_mul]
    omega
  | cons oldest rest ih =>
    rw [List.cons_append]
    refine ⟨?_, ih h.2⟩
    have hhead := h.1
    rw [List.length_append, List.length_singleton, Nat.succ_mul]
    omega

theorem le_neededInFlight_mul {timeoutUs : ℕ} (hpos : 0 < intervalUs) (h : timeoutUs ≤ 8 * intervalUs) :
    timeoutUs ≤ neededInFlight intervalUs timeoutUs * intervalUs := by
  have hdiv := Nat.div_add_mod (timeoutUs + intervalUs - 1) intervalUs
  have hmod := Nat.mod_lt (timeoutUs + intervalUs - 1) hpos
  have hceil : timeoutUs ≤ (timeoutUs + intervalUs - 1) / intervalUs * intervalUs := by
    rw [Nat.mul_comm]
    omega
  unfold neededInFlight kMaxInFlight
  rcases Nat.lt_or_ge 8 (max ((timeoutUs + intervalUs - 1) / intervalUs) 1) with hlarge | hsmall
  · rw [Nat.min_eq_right hlarge.le]
    exact h
  · rw [Nat.min_eq_left hsmall]
    exact hceil.trans (Nat.mul_le_mul_right _ (Nat.le_max_left _ _))

end Queue

namespace Regular
variable {first now : ℕ} {p : Prober}

/-- Once a send is due the queue has room for it. -/
theorem hasRoom (h : Regular first p) (hdue : p.nextSendUs ≤ now) :
    (p.unexpired now).length < p.maxInFlight := by
  by_contra hfull
  rw [Nat.not_lt, h.room] at hfull
  have hneeded := one_le_neededInFlight p.intervalUs p.timeoutUs
  have hsub : (p.unexpired now).Sublist p.inFlight := List.dropWhile_sublist _
  cases hqueue : p.unexpired now with
  | nil =>
    rw [hqueue, List.length_nil] at hfull
    omega
  | cons oldest rest =>
    have hfront : oldest ∈ (p.unexpired now).head? := by simp [hqueue]
    have hwaits := lt_deadline_unexpired now p hfront
    rw [hqueue] at hsub hfull
    have hstaggered := (h.queue.sublist hsub).1
    have hdeadline := h.deadline oldest (hsub.subset (by simp))
    have hneed := le_neededInFlight_mul (by have hpos := h.interval; omega) h.timeout
    have hmul : neededInFlight p.intervalUs p.timeoutUs * p.intervalUs ≤ (rest.length + 1) * p.intervalUs :=
      Nat.mul_le_mul_right _ (by simpa using hfull)
    omega

/-- What a prober's timetable does not depend on. -/
theorem congr (h : Regular first p) {p' : Prober} (hinterval : p'.intervalUs = p.intervalUs)
    (htimeout : p'.timeoutUs = p.timeoutUs)
    (hroom : p'.maxInFlight = neededInFlight p.intervalUs p.timeoutUs) (hnext : p'.nextSendUs = p.nextSendUs)
    (hsends : p'.latestSends = p.latestSends) (hqueue : p'.inFlight.Sublist p.inFlight) : Regular first p' where
  interval := by rw [hinterval]; exact h.interval
  timeout := by rw [htimeout, hinterval]; exact h.timeout
  room := by rw [hroom, hinterval, htimeout]
  due := by rw [hnext, hsends, hinterval]; exact h.due
  times := by rw [hsends, hnext, hinterval]; exact h.times
  deadline := by
    intro q hq
    rw [htimeout]
    exact h.deadline q (hqueue.subset hq)
  queue := by rw [hinterval, hnext]; exact h.queue.sublist hqueue

/-- A send no later than the slack after it was due moves the timetable on by an interval. -/
theorem sent (h : Regular first p) (hdue : p.nextSendUs ≤ now + kSendSlackUs)
    (hontime : now ≤ p.nextSendUs + kSendSlackUs) {p' : Prober} (houtcome : p.SendOutcome now p') :
    Regular first (p'.advance now) := by
  have hslack := h.interval
  obtain ⟨hinterval, htimeout, hroom⟩ := fields_of_stream (stream_of_sendOutcome houtcome)
  have hsends : (p'.advance now).latestSends = now :: p.latestSends :=
    (p'.latestSends_advance now).trans (Prober.latestSends_of_sendOutcome houtcome)
  have hnext : (p'.advance now).nextSendUs = p.nextSendUs + p.intervalUs := by
    have hsame : p'.nextSendUs = p.nextSendUs := by cases houtcome <;> rfl
    simp only [Prober.advance, hsame, hinterval]
    rw [if_neg (by omega)]
  have hinterval' : (p'.advance now).intervalUs = p.intervalUs := hinterval
  have htimeout' : (p'.advance now).timeoutUs = p.timeoutUs := htimeout
  have hqueue : (p'.advance now).inFlight = p.inFlight ∨
      ∃ seq, (p'.advance now).inFlight = p.inFlight ++ [⟨seq, now, now + p.timeoutUs⟩] := by
    rcases inFlight_of_sendOutcome houtcome with ⟨hsame, -⟩ | ⟨happend, -⟩
    · exact Or.inl hsame
    · exact Or.inr ⟨_, happend⟩
  have hstaggered : Staggered p.intervalUs (p.nextSendUs + p.intervalUs) (p.inFlight ++ [⟨0, now, 0⟩]) :=
    h.queue.append hontime
  refine ⟨hinterval'.symm ▸ h.interval, ?_, ?_, ?_, ?_, ?_, ?_⟩
  · rw [htimeout', hinterval']
    exact h.timeout
  · rw [htimeout', hinterval']
    exact hroom.trans h.room
  · rw [hnext, hsends, hinterval', h.due, List.length_cons, Nat.succ_mul, Nat.add_assoc]
  · rw [hsends, hnext, hinterval']
    intro i a ha
    cases i with
    | zero =>
      obtain rfl : now = a := by simpa using ha
      simp only [Nat.zero_add, Nat.one_mul]
      omega
    | succ i =>
      have hbefore := h.times i a (by simpa using ha)
      rw [Nat.succ_mul (i + 1)]
      omega
  · rw [htimeout']
    intro q hq
    rcases hqueue with hsame | ⟨seq, happend⟩
    · exact h.deadline q (hsame ▸ hq)
    · rw [happend] at hq
      rcases List.mem_append.mp hq with hq | hq
      · exact h.deadline q hq
      · rw [List.mem_singleton.mp hq]
  · rw [hinterval', hnext]
    rcases hqueue with hsame | ⟨seq, happend⟩
    · rw [hsame]
      exact hstaggered.sublist (List.sublist_append_left _ _)
    · rw [happend]
      exact h.queue.append hontime

end Regular

section Turn
variable (socket4 socket6 : IcmpSocket) {first : ℕ} {p : Prober} {u : Turn}

/-- Only a tick that sends adds a send, and every one that does adds one. -/
theorem latestSends_turn :
    (u.Sends p → (p.turn socket4 socket6 u).latestSends = u.now :: p.latestSends) ∧
      (¬ u.Sends p → (p.turn socket4 socket6 u).latestSends = p.latestSends) := by
  obtain ⟨now, happening⟩ := u
  have hother : (∀ b io, happening ≠ .tick b io) → ¬ (Turn.mk now happening).Sends p :=
    fun hne hsend => by
      obtain ⟨⟨b, io, htick⟩, -⟩ := hsend
      exact hne b io htick
  cases happening with
  | tick b io =>
    obtain ⟨q, -, -, hsends, hdo, hdont⟩ := tickProber_spec socket4 socket6 io now b p
    constructor
    · intro hsend
      obtain ⟨q', houtcome, he⟩ := hdo hsend.2
      simp only [Prober.turn, he, Prober.latestSends_advance]
      rw [Prober.latestSends_of_sendOutcome houtcome, hsends]
    · intro hsend
      have hidle : ¬ p.SendsAt now := fun hat => hsend ⟨⟨b, io, rfl⟩, hat⟩
      simpa only [Prober.turn, hdont hidle] using hsends
  | answered seq rttUs =>
    refine ⟨fun hsend => absurd hsend (hother (by simp)), fun _ => ?_⟩
    simp only [Prober.turn]
    split_ifs <;> rfl
  | resolved result =>
    exact ⟨fun hsend => absurd hsend (hother (by simp)), fun _ => (p.latestSends_resolve now result).1⟩
  | rewired subscribers => exact ⟨fun hsend => absurd hsend (hother (by simp)), fun _ => rfl⟩

theorem nextSendUs_le_turn : p.nextSendUs ≤ (p.turn socket4 socket6 u).nextSendUs := by
  obtain ⟨now, happening⟩ := u
  cases happening with
  | tick b io =>
    obtain ⟨q, -, htable, -, hdo, hdont⟩ := tickProber_spec socket4 socket6 io now b p
    have hkept : q.nextSendUs = p.nextSendUs := congrArg (fun table => table.2.2.2) htable
    by_cases hsend : p.SendsAt now
    · obtain ⟨q', houtcome, he⟩ := hdo hsend
      have hsame : q'.nextSendUs = q.nextSendUs := by cases houtcome <;> rfl
      simp only [Prober.turn, he, Prober.advance, hsame, hkept]
      split_ifs <;> omega
    · simp only [Prober.turn, hdont hsend, hkept, le_rfl]
  | answered seq rttUs =>
    simp only [Prober.turn]
    split_ifs <;> exact le_rfl
  | resolved result => exact (p.latestSends_resolve now result).2.ge
  | rewired subscribers => exact le_rfl

theorem intervalUs_turn : (p.turn socket4 socket6 u).intervalUs = p.intervalUs := by
  obtain ⟨now, happening⟩ := u
  cases happening with
  | tick b io => exact (fields_of_stream (stream_tickProber socket4 socket6 io now b p)).1
  | answered seq rttUs =>
    simp only [Prober.turn]
    split_ifs <;> rfl
  | resolved result =>
    have hstream : (p.resolve now result).stream = p.stream := by simp
    exact (fields_of_stream hstream).1
  | rewired subscribers => rfl

theorem intervalUs_after (turns : ℕ → Turn) (n : ℕ) :
    (p.after socket4 socket6 turns n).intervalUs = p.intervalUs := by
  induction n with
  | zero => rfl
  | succ n ih => rw [p.after_succ, intervalUs_turn, ih]

/-- A turn that sends in time, or sends nothing, keeps the timetable. -/
theorem Regular.turn (h : Regular first p)
    (hontime : u.Sends p → u.now ≤ p.nextSendUs + kSendSlackUs) :
    Regular first (p.turn socket4 socket6 u) := by
  obtain ⟨now, happening⟩ := u
  cases happening with
  | tick b io =>
    obtain ⟨q, hqueue, htable, hsends, hdo, hdont⟩ := tickProber_spec socket4 socket6 io now b p
    simp only [Prober.timetable, Prober.stream, Prod.mk.injEq, Stream.mk.injEq] at htable
    obtain ⟨⟨-, hinterval, htimeout, -, hroom, -⟩, -, -, hnext⟩ := htable
    have hq : Regular first q := h.congr hinterval htimeout (hroom.trans h.room) hnext hsends
      (hqueue ▸ List.dropWhile_sublist _)
    by_cases hsend : p.SendsAt now
    · obtain ⟨q', houtcome, he⟩ := hdo hsend
      have hlate := hontime ⟨⟨b, io, rfl⟩, hsend⟩
      simp only [Prober.turn, he]
      exact hq.sent (hnext ▸ hsend.2) (hnext ▸ hlate) houtcome
    · simpa only [Prober.turn, hdont hsend] using hq
  | answered seq rttUs =>
    simp only [Prober.turn]
    split_ifs
    · exact h.congr rfl rfl h.room rfl rfl List.eraseP_sublist
    · exact h
  | resolved result =>
    obtain ⟨hsends, hnext⟩ := p.latestSends_resolve now result
    have hstream : (p.resolve now result).stream = p.stream := by simp
    obtain ⟨hinterval, htimeout, hroom⟩ := fields_of_stream hstream
    have hqueue : (p.resolve now result).inFlight = p.inFlight := by
      unfold Prober.resolve
      split_ifs <;> rfl
    exact h.congr hinterval htimeout (hroom.trans h.room) hnext hsends (hqueue ▸ List.Sublist.refl _)
  | rewired subscribers => exact h.congr rfl rfl rfl rfl rfl (List.Sublist.refl _)

end Turn

namespace Attended
variable {socket4 socket6 : IcmpSocket} {p : Prober} {turns : ℕ → Turn}
  (hlife : Attended socket4 socket6 p turns)

/-- How many sends the prober has behind it before a turn. -/
def sendsBefore (socket4 socket6 : IcmpSocket) (p : Prober) (turns : ℕ → Turn) (n : ℕ) : ℕ :=
  (p.after socket4 socket6 turns n).latestSends.length

theorem sendsBefore_succ {n : ℕ} (hsend : (turns n).Sends (p.after socket4 socket6 turns n)) :
    sendsBefore socket4 socket6 p turns (n + 1) = sendsBefore socket4 socket6 p turns n + 1 := by
  have hsends := (latestSends_turn socket4 socket6).1 hsend
  unfold sendsBefore
  rw [p.after_succ, hsends, List.length_cons]

theorem monotone_sendsBefore : Monotone (sendsBefore socket4 socket6 p turns) := by
  apply monotone_nat_of_le_succ
  intro n
  by_cases hsend : (turns n).Sends (p.after socket4 socket6 turns n)
  · rw [sendsBefore_succ hsend]
    exact Nat.le_succ _
  · have hsends := (latestSends_turn socket4 socket6).2 hsend
    unfold sendsBefore
    rw [p.after_succ, hsends]

theorem monotone_nextSendUs : Monotone fun n => (p.after socket4 socket6 turns n).nextSendUs :=
  monotone_nat_of_le_succ fun _ => nextSendUs_le_turn socket4 socket6

/-- While the timetable is kept, a send between two moments puts the due times an interval apart. -/
theorem due_of_sends {first m n : ℕ} (hm : Regular first (p.after socket4 socket6 turns m))
    (hn : Regular first (p.after socket4 socket6 turns n)) (hlt : m < n)
    (hsend : (turns m).Sends (p.after socket4 socket6 turns m)) :
    (p.after socket4 socket6 turns m).nextSendUs + (p.after socket4 socket6 turns m).intervalUs ≤
      (p.after socket4 socket6 turns n).nextSendUs := by
  have hmore : sendsBefore socket4 socket6 p turns m + 1 ≤ sendsBefore socket4 socket6 p turns n := by
    rw [← sendsBefore_succ hsend]
    exact monotone_sendsBefore hlt
  have hmul := Nat.mul_le_mul_right (p.after socket4 socket6 turns m).intervalUs hmore
  rw [Nat.succ_mul] at hmul
  have hdue := hm.due
  have hdue' := hn.due
  unfold sendsBefore at hmul
  rw [intervalUs_after] at hdue hdue' hmul ⊢
  omega

/-- If everything went by the timetable so far, nothing happens later than the slack after the
due time: a tick in time would have sent the probe and moved the due time on. -/
theorem now_le_due {first n : ℕ} (hlife : Attended socket4 socket6 p turns)
    (hregular : ∀ m ≤ n, Regular first (p.after socket4 socket6 turns m))
    (hearlier : ∀ m < n, (turns m).now ≤ (p.after socket4 socket6 turns m).nextSendUs + kSendSlackUs) :
    (turns n).now ≤ (p.after socket4 socket6 turns n).nextSendUs + kSendSlackUs := by
  by_contra hlate
  have hslack := (hregular n le_rfl).interval
  rw [intervalUs_after] at hslack
  rcases hlife.attended n with ⟨m, hm, hfrom, huntil⟩ | ⟨m, hsame, hsend, hbefore⟩
  · have hlt : m < n := by
      by_contra hge
      have hordered := hlife.ordered (Nat.not_lt.mp hge)
      dsimp only at hordered
      omega
    have hdue : (p.after socket4 socket6 turns m).nextSendUs ≤ (turns m).now :=
      (monotone_nextSendUs hlt.le).trans hfrom
    have hsend : (turns m).Sends (p.after socket4 socket6 turns m) :=
      ⟨hm, (hregular m hlt.le).hasRoom hdue, hdue.trans (Nat.le_add_right _ _)⟩
    have hnext := due_of_sends (hregular m hlt.le) (hregular n le_rfl) hlt hsend
    have hontime := hearlier m hlt
    rw [intervalUs_after] at hnext
    omega
  · rcases Nat.lt_or_ge m n with hlt | hge
    · have hnext := due_of_sends (hregular m hlt.le) (hregular n le_rfl) hlt hsend
      rw [intervalUs_after] at hnext
      omega
    · have hordered := hlife.ordered hge
      dsimp only at hordered
      omega

/-- An attended prober keeps its timetable for ever. -/
theorem regular {first : ℕ} (hlife : Attended socket4 socket6 p turns) (hstart : Regular first p) (n : ℕ) :
    (∀ m ≤ n, Regular first (p.after socket4 socket6 turns m)) ∧ ∀ m < n,
      (turns m).now ≤ (p.after socket4 socket6 turns m).nextSendUs + kSendSlackUs := by
  induction n with
  | zero =>
    refine ⟨fun m hm => ?_, by simp⟩
    obtain rfl := Nat.le_zero.mp hm
    exact hstart
  | succ n ih =>
    have hnow := hlife.now_le_due ih.1 ih.2
    constructor
    · intro m hm
      rcases Nat.le_succ_iff.mp hm with hm | rfl
      · exact ih.1 m hm
      · rw [p.after_succ]
        exact (ih.1 n le_rfl).turn socket4 socket6 fun _ => hnow
    · intro m hm
      rcases Nat.lt_succ_iff_lt_or_eq.mp hm with hm | rfl
      · exact ih.2 m hm
      · exact hnow

/-- However many sends there have been, there will be one more. -/
theorem exists_sendsBefore {first : ℕ} (hlife : Attended socket4 socket6 p turns) (hstart : Regular first p)
    (k : ℕ) : ∃ n, k ≤ sendsBefore socket4 socket6 p turns n := by
  induction k with
  | zero => exact ⟨0, Nat.zero_le _⟩
  | succ k ih =>
    obtain ⟨n, hn⟩ := ih
    by_contra hnone
    push Not at hnone
    have hregular : ∀ m, Regular first (p.after socket4 socket6 turns m) :=
      fun m => (hlife.regular hstart m).1 m le_rfl
    have hslack := hstart.interval
    -- A send from now on would be the one that is missing.
    have hlater : ∀ m, n ≤ m → ¬ (turns m).Sends (p.after socket4 socket6 turns m) := by
      intro m hm hsend
      have hmore := hnone (m + 1)
      have hmono : sendsBefore socket4 socket6 p turns n ≤ sendsBefore socket4 socket6 p turns m :=
        monotone_sendsBefore hm
      rw [sendsBefore_succ hsend] at hmore
      omega
    have hsooner : ∀ m < n, (turns m).Sends (p.after socket4 socket6 turns m) →
        (p.after socket4 socket6 turns m).nextSendUs + p.intervalUs ≤ (p.after socket4 socket6 turns n).nextSendUs := by
      intro m hm hsend
      have hnext := due_of_sends (hregular m) (hregular n) hm hsend
      rwa [intervalUs_after] at hnext
    rcases hlife.attended n with ⟨m, hm, hfrom, huntil⟩ | ⟨m, hsame, hsend, hbefore⟩
    · rcases Nat.lt_or_ge m n with hlt | hge
      · have hdue : (p.after socket4 socket6 turns m).nextSendUs ≤ (turns m).now :=
          (monotone_nextSendUs hlt.le).trans hfrom
        have hnext := hsooner m hlt ⟨hm, (hregular m).hasRoom hdue, hdue.trans (Nat.le_add_right _ _)⟩
        have hontime := (hlife.regular hstart n).2 m hlt
        omega
      · have hcount : sendsBefore socket4 socket6 p turns m = sendsBefore socket4 socket6 p turns n := by
          have hmono : sendsBefore socket4 socket6 p turns n ≤ sendsBefore socket4 socket6 p turns m :=
            monotone_sendsBefore hge
          have hmore := hnone m
          omega
        have hdue : (p.after socket4 socket6 turns m).nextSendUs = (p.after socket4 socket6 turns n).nextSendUs := by
          rw [(hregular m).due, (hregular n).due, intervalUs_after, intervalUs_after]
          unfold sendsBefore at hcount
          rw [hcount]
        have hreached : (p.after socket4 socket6 turns m).nextSendUs ≤ (turns m).now := hdue.trans_le hfrom
        exact hlater m hge ⟨hm, (hregular m).hasRoom hreached, hreached.trans (Nat.le_add_right _ _)⟩
    · rcases Nat.lt_or_ge m n with hlt | hge
      · have hnext := hsooner m hlt hsend
        omega
      · exact hlater m hge hsend

end Attended

theorem Unsent.regular {p : Prober} (h : Unsent p) (hinterval : 100000 ≤ p.intervalUs)
    (htimeout : p.timeoutUs ≤ 8 * p.intervalUs) : Regular p.nextSendUs p := by
  have hnone : p.latestSends = [] := by simpa [Prober.sendTimes] using h.sendTimes
  refine ⟨?_, htimeout, h.room, by simp [hnone], by simp [hnone], by simp [h.inFlight], ?_⟩
  · unfold kSendSlackUs
    omega
  · rw [h.inFlight]
    trivial

/-- The k-th send of a prober that keeps its timetable, counted from the first one. -/
theorem Regular.sendTimes {first k : ℕ} {p : Prober} (h : Regular first p) (hk : k < p.latestSends.length) :
    ∃ a, p.sendTimes[k]? = some a ∧ first + k * p.intervalUs ≤ a + kSendSlackUs ∧
      a ≤ first + k * p.intervalUs + kSendSlackUs := by
  obtain ⟨later, hlater⟩ : ∃ later, p.latestSends.length = k + 1 + later :=
    Nat.exists_eq_add_of_le hk
  have hlt : later < p.latestSends.length := by omega
  refine ⟨p.latestSends[later], ?_, ?_⟩
  · unfold Prober.sendTimes
    rw [List.getElem?_reverse hk, show p.latestSends.length - 1 - k = later by omega]
    simp
  · have htimes := h.times later _ (List.getElem?_eq_getElem hlt)
    have hdue := h.due
    rw [hlater, show k + 1 + later = k + (later + 1) by omega, Nat.add_mul] at hdue
    omega

/-- A prober for which nothing has been sent, with a timeout of at most eight intervals, in any
life in which its due times are attended to: once a send is due the queue has room for it, so
only before that can a full queue hold it back, and the k-th send comes within the slack of k
intervals after the first due time. -/
theorem probed_once_per_interval (socket4 socket6 : IcmpSocket) (p : Prober) (turns : ℕ → Turn)
    (hunsent : Unsent p) (hinterval : 100000 ≤ p.intervalUs) (htimeout : p.timeoutUs ≤ 8 * p.intervalUs)
    (hlife : Attended socket4 socket6 p turns) :
    (∀ n, let q := p.after socket4 socket6 turns n
      q.nextSendUs ≤ (turns n).now → (q.unexpired (turns n).now).length < q.maxInFlight) ∧
    ∀ k, ∃ n a, (p.after socket4 socket6 turns n).sendTimes[k]? = some a ∧
      p.nextSendUs + k * p.intervalUs ≤ a + 2000 ∧ a ≤ p.nextSendUs + k * p.intervalUs + 2000 := by
  have hstart := hunsent.regular hinterval htimeout
  have hregular : ∀ n, Regular p.nextSendUs (p.after socket4 socket6 turns n) :=
    fun n => (hlife.regular hstart n).1 n le_rfl
  refine ⟨fun n hdue => (hregular n).hasRoom hdue, fun k => ?_⟩
  obtain ⟨n, hn⟩ := hlife.exists_sendsBefore hstart (k + 1)
  obtain ⟨a, ha, hearly, hlate⟩ := (hregular n).sendTimes (k := k) hn
  rw [intervalUs_after] at hearly hlate
  exact ⟨n, a, ha, hearly, hlate⟩

/-- A host that never answers, in a daemon that ticks every microsecond. -/
theorem probed_once_per_interval_silent :
    let host : Endpoint := ⟨.inet, ⟨.inet, [192, 0, 2, 1]⟩, 16, ascii "192.0.2.1"⟩
    let p : Prober := { freshProber (fun _ => some host) 1000 1 (ascii "192.0.2.1") 100000 800000 with
      maxInFlight := 8 }
    let turns : ℕ → Turn := fun n => ⟨n, .tick ⟨[], false, false, []⟩ ⟨fun _ => .sent, fun _ => 0⟩⟩
    (∀ n, let q := p.after ⟨true, false, []⟩ ⟨true, false, []⟩ turns n
      q.nextSendUs ≤ n → (q.unexpired n).length < q.maxInFlight) ∧
    ∀ k, ∃ n a, (p.after ⟨true, false, []⟩ ⟨true, false, []⟩ turns n).sendTimes[k]? = some a ∧
      1000 + k * 100000 ≤ a + 2000 ∧ a ≤ 1000 + k * 100000 + 2000 := by
  intro host p turns
  refine probed_once_per_interval ⟨true, false, []⟩ ⟨true, false, []⟩ p turns ⟨by decide, rfl, rfl⟩
    (by decide) (by decide) ⟨fun _ _ h => h, fun n => Or.inl ?_⟩
  exact ⟨_, ⟨_, _, rfl⟩, le_rfl, Nat.le_add_right _ _⟩

/-- The first probe goes out at the end of its slack and waits for one interval; a tick early in
the slack of the second send finds the queue full and holds the send back. -/
theorem full_queue_defers_early_send :
    let host : Endpoint := ⟨.inet, ⟨.inet, [192, 0, 2, 1]⟩, 16, ascii "192.0.2.1"⟩
    let p : Prober := freshProber (fun _ => some host) 1000 1 (ascii "192.0.2.1") 100000 100000
    let tick : Happening := .tick ⟨[], false, false, []⟩ ⟨fun _ => .sent, fun _ => 0⟩
    let turns : ℕ → Turn := fun n => ⟨if n = 0 then 3000 else 100998 + n, tick⟩
    let q := p.after ⟨true, false, []⟩ ⟨true, false, []⟩ turns 1
    Unsent p ∧ 100000 ≤ p.intervalUs ∧ p.timeoutUs ≤ 8 * p.intervalUs ∧
      Attended ⟨true, false, []⟩ ⟨true, false, []⟩ p turns ∧ (turns 1).IsTick ∧
      q.nextSendUs ≤ (turns 1).now + kSendSlackUs ∧
      (q.unexpired (turns 1).now).length = q.maxInFlight := by
  intro host p tick turns q
  refine ⟨⟨by decide, rfl, rfl⟩, by decide, by decide, ⟨?_, fun n => Or.inl ?_⟩, ⟨_, _, rfl⟩, by decide, by decide⟩
  · apply monotone_nat_of_le_succ
    intro n
    cases n with
    | zero => decide
    | succ n => simp [turns]
  · cases n with
    | zero => exact ⟨0, ⟨_, _, rfl⟩, by decide, by decide⟩
    | succ n =>
      have hmono : q.nextSendUs ≤ (p.after ⟨true, false, []⟩ ⟨true, false, []⟩ turns (n + 1)).nextSendUs :=
        Attended.monotone_nextSendUs (Nat.le_add_left 1 n)
      rw [show q.nextSendUs = 101000 by decide] at hmono
      obtain ⟨wait, hwait⟩ : ∃ wait,
          (p.after ⟨true, false, []⟩ ⟨true, false, []⟩ turns (n + 1)).nextSendUs = 101000 + wait :=
        Nat.exists_eq_add_of_le hmono
      have hnow : (turns (2 + wait)).now = 101000 + wait := by
        simp only [turns, Nat.add_eq_zero_iff, OfNat.ofNat_ne_zero, false_and, if_false]
        omega
      refine ⟨2 + wait, ⟨_, _, rfl⟩, ?_, ?_⟩
      · rw [hwait, hnow]
      · rw [hwait, hnow]
        exact Nat.le_add_right _ _

end NetworkHealth.Daemon
