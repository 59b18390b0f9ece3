import NetworkHealth.Daemon.Rules

/-! Probe accounting. Every call of `sendProbe` is in flight or has been completed by exactly
one sample, whatever arrives in whatever order; the queue stays in the order of its deadlines
and its sequence numbers stay apart, across their wrap-around too. -/
namespace NetworkHealth.Daemon

namespace ProberEvent

def isCall : ProberEvent → Bool
  | call _ => true
  | _ => false

def isSample : ProberEvent → Bool
  | sample _ _ _ => true
  | _ => false

def isRefusal : ProberEvent → Bool
  | refused _ => true
  | _ => false

def isExpiry : ProberEvent → Bool
  | expired _ _ => true
  | _ => false

def isAnswer : ProberEvent → Bool
  | answered _ _ => true
  | _ => false

/-- The probe with this number was sent. -/
def sends (seq : ℕ) : ProberEvent → Bool
  | sent seq' _ _ => seq' = seq
  | _ => false

/-- The probe with this number was answered or given up. -/
def completes (seq : ℕ) : ProberEvent → Bool
  | expired seq' _ => seq' = seq
  | answered seq' _ => seq' = seq
  | _ => false

end ProberEvent

namespace Prober

/-- The calls of `sendProbe` made for it. -/
def calls (p : Prober) : ℕ := p.history.countP ProberEvent.isCall

/-- How many probes with this number are in flight. -/
def outstanding (p : Prober) (seq : ℕ) : ℕ := p.inFlight.countP (·.seq = seq)

end Prober

/-- The accounts of a prober. -/
structure Balanced (p : Prober) : Prop where
  calls : p.calls = p.sent + p.inFlight.length
  samples : p.history.countP ProberEvent.isSample = p.sent
  completions : p.history.countP ProberEvent.isRefusal + p.history.countP ProberEvent.isExpiry +
    p.history.countP ProberEvent.isAnswer = p.sent
  answers : p.history.countP ProberEvent.isAnswer = p.received
  probes : ∀ seq, p.history.countP (ProberEvent.sends seq) =
    p.outstanding seq + p.history.countP (ProberEvent.completes seq)

/-- The queue at time `t`: nothing in it from the future, oldest first, and every entry as many
sends old as its sequence number says. -/
structure Queued (t : ℕ) (p : Prober) : Prop where
  clamped : Clamped p.intervalUs p.timeoutUs
  cap : p.maxInFlight ≤ neededInFlight p.intervalUs p.timeoutUs
  length : p.inFlight.length ≤ p.maxInFlight
  deadline : ∀ q ∈ p.inFlight, q.deadlineUs = q.sentUs + p.timeoutUs ∧ q.sentUs ≤ t
  ordered : p.inFlight.Pairwise (·.sentUs ≤ ·.sentUs)
  age : ∀ q ∈ p.inFlight, ∃ age, (q.seq + age) % 2 ^ 32 = p.sequence ∧
    q.sentUs + age * p.intervalUs ≤ p.nextSendUs
  sequence : p.sequence < 2 ^ 32
  distinct : p.inFlight.Pairwise (·.seq ≠ ·.seq)

/-- Sequence numbers before they wrap around. -/
structure Numbered (p : Prober) : Prop where
  sequence : p.sequence ≤ p.calls
  increasing : p.inFlight.Pairwise (·.seq < ·.seq)
  bounded : ∀ q ∈ p.inFlight, q.seq ≤ p.sequence
  fresh : ∀ seq, p.sequence < seq → p.history.countP (ProberEvent.sends seq) = 0
  once : ∀ seq, p.history.countP (ProberEvent.sends seq) ≤ 1

theorem exists_of_probe {p : Prober} {seq : ℕ} {q : InFlight} (h : p.probe seq = some q) :
    q.seq = seq ∧ ∃ before after, p.inFlight = before ++ q :: after ∧ (∀ x ∈ before, x.seq ≠ seq) ∧
      p.inFlight.eraseP (·.seq = seq) = before ++ after := by
  unfold Prober.probe at h
  obtain ⟨hq, before, after, hsplit, hbefore⟩ := List.find?_eq_some_iff_append.mp h
  simp only [decide_eq_true_eq] at hq
  have hne : ∀ x ∈ before, x.seq ≠ seq := fun x hx => by simpa using hbefore x hx
  refine ⟨hq, before, after, hsplit, hne, ?_⟩
  rw [hsplit, List.eraseP_append_right _ (by simpa using hne), List.eraseP_cons_of_pos (by simpa using hq)]

theorem Balanced.gaveUp {p : Prober} (h : Balanced p) {oldest : InFlight} {rest : List InFlight}
    (hqueue : p.inFlight = oldest :: rest) (now : ℕ) :
    Balanced ((p.giveUp oldest rest now).count false 0 now) := by
  obtain ⟨hcalls, hsamples, hcompletions, hanswers, hprobes⟩ := h
  rw [hqueue, List.length_cons] at hcalls
  refine ⟨?_, ?_, ?_, ?_, fun seq => ?_⟩
  · simp [Prober.calls, Prober.count, Prober.giveUp, Prober.log, ProberEvent.isCall] at hcalls ⊢
    omega
  · simpa [List.countP_cons, Prober.count, Prober.giveUp, Prober.log, ProberEvent.isSample] using hsamples
  · simp [List.countP_cons, Prober.count, Prober.giveUp, Prober.log, ProberEvent.isRefusal, ProberEvent.isExpiry,
      ProberEvent.isAnswer]
    omega
  · simpa [List.countP_cons, Prober.count, Prober.giveUp, Prober.log, ProberEvent.isAnswer] using hanswers
  · have hseq := hprobes seq
    simp only [Prober.outstanding, hqueue, List.countP_cons] at hseq
    simp only [Prober.outstanding, Prober.count, Prober.giveUp, Prober.log, List.countP_cons,
      ProberEvent.sends, ProberEvent.completes]
    simp only [Bool.false_eq_true, if_false, decide_eq_true_eq] at hseq ⊢
    omega

theorem Balanced.refused {p : Prober} (h : Balanced p) (sequence : ℕ) (error : Bytes) (now : ℕ) :
    Balanced ((({ p.log (.call now) with sequence := sequence }).refuse error now).count false 0 now) := by
  obtain ⟨hcalls, hsamples, hcompletions, hanswers, hprobes⟩ := h
  refine ⟨?_, ?_, ?_, ?_, fun seq => ?_⟩
  · simp [List.countP_cons, Prober.calls, Prober.count, Prober.refuse, Prober.log, ProberEvent.isCall] at hcalls ⊢
    omega
  · simpa [List.countP_cons, Prober.count, Prober.refuse, Prober.log, ProberEvent.isSample] using hsamples
  · simp [List.countP_cons, Prober.count, Prober.refuse, Prober.log, ProberEvent.isRefusal, ProberEvent.isExpiry,
      ProberEvent.isAnswer]
    omega
  · simpa [List.countP_cons, Prober.count, Prober.refuse, Prober.log, ProberEvent.isAnswer] using hanswers
  · simpa [List.countP_cons, Prober.outstanding, Prober.count, Prober.refuse, Prober.log, ProberEvent.sends,
      ProberEvent.completes] using hprobes seq

theorem Balanced.launched {p : Prober} (h : Balanced p) (now : ℕ) :
    Balanced ((p.log (.call now)).numbered.launched now) := by
  obtain ⟨hcalls, hsamples, hcompletions, hanswers, hprobes⟩ := h
  refine ⟨?_, ?_, ?_, ?_, fun seq => ?_⟩
  · simp [List.countP_cons, Prober.calls, Prober.launched, Prober.numbered, Prober.log, ProberEvent.isCall] at hcalls ⊢
    omega
  · simpa [List.countP_cons, Prober.launched, Prober.numbered, Prober.log, ProberEvent.isSample] using hsamples
  · simpa [List.countP_cons, Prober.launched, Prober.numbered, Prober.log, ProberEvent.isRefusal, ProberEvent.isExpiry,
      ProberEvent.isAnswer] using hcompletions
  · simpa [List.countP_cons, Prober.launched, Prober.numbered, Prober.log, ProberEvent.isAnswer] using hanswers
  · have hseq := hprobes seq
    simp only [Prober.outstanding] at hseq
    simp only [Prober.outstanding, Prober.launched, Prober.numbered, Prober.log, List.countP_cons,
      List.countP_append, List.countP_nil, ProberEvent.sends, ProberEvent.completes]
    simp only [Bool.false_eq_true, if_false, decide_eq_true_eq] at hseq ⊢
    omega

theorem Balanced.answered {p : Prober} (h : Balanced p) {seq : ℕ} {q : InFlight}
    (hprobe : p.probe seq = some q) (rttUs now : ℕ) :
    Balanced ((p.answer seq now).count true rttUs now) := by
  obtain ⟨hcalls, hsamples, hcompletions, hanswers, hprobes⟩ := h
  obtain ⟨hq, before, after, hsplit, -, herase⟩ := exists_of_probe hprobe
  rw [hsplit, List.length_append, List.length_cons] at hcalls
  refine ⟨?_, ?_, ?_, ?_, fun seq' => ?_⟩
  · simp [Prober.calls, Prober.count, Prober.answer, Prober.log, ProberEvent.isCall, herase] at hcalls ⊢
    omega
  · simpa [List.countP_cons, Prober.count, Prober.answer, Prober.log, ProberEvent.isSample] using hsamples
  · simp [List.countP_cons, Prober.count, Prober.answer, Prober.log, ProberEvent.isRefusal, ProberEvent.isExpiry,
      ProberEvent.isAnswer]
    omega
  · simpa [List.countP_cons, Prober.count, Prober.answer, Prober.log, ProberEvent.isAnswer] using hanswers
  · have hseq := hprobes seq'
    simp only [Prober.outstanding, hsplit, List.countP_append, List.countP_cons, hq] at hseq
    simp only [Prober.outstanding, Prober.count, Prober.answer, Prober.log, herase, List.countP_append,
      List.countP_cons, ProberEvent.sends, ProberEvent.completes]
    simp only [Bool.false_eq_true, if_false, decide_eq_true_eq] at hseq ⊢
    omega

theorem balanced_rule : ProberRule fun _ p => Balanced p where
  later := fun _ _ _ _ h => h
  fresh := fun _ _ _ _ _ _ _ => ⟨rfl, rfl, rfl, rfl, fun _ => rfl⟩
  rewired := fun _ _ _ h => ⟨h.calls, h.samples, h.completions, h.answers, h.probes⟩
  asked := fun _ _ h => ⟨h.calls, h.samples, h.completions, h.answers, h.probes⟩
  gaveUp := fun now _ _ _ h hqueue _ => h.gaveUp hqueue now
  sent := by
    intro now p p' h _ _ _ houtcome
    have hp' : Balanced p' := by
      cases houtcome with
      | blocked error => exact h.refused p.sequence error now
      | refused error => exact h.refused _ error now
      | launched => exact h.launched now
    exact ⟨hp'.calls, hp'.samples, hp'.completions, hp'.answers, hp'.probes⟩
  answered := fun now _ _ _ rttUs h hprobe => h.answered hprobe rttUs now
  resolved := by
    intro now p result h
    unfold Prober.resolve
    split_ifs <;> exact ⟨h.calls, h.samples, h.completions, h.answers, h.probes⟩

section Queue
variable {t now : ℕ} {p p' : Prober}

theorem Queued.of_sublist (h : Queued t p) (hsub : p'.inFlight.Sublist p.inFlight)
    (hinterval : p'.intervalUs = p.intervalUs) (htimeout : p'.timeoutUs = p.timeoutUs)
    (hmax : p'.maxInFlight = p.maxInFlight) (hsequence : p'.sequence = p.sequence)
    (hnext : p'.nextSendUs = p.nextSendUs) : Queued t p' := by
  refine ⟨?_, ?_, ?_, ?_, h.ordered.sublist hsub, ?_, ?_, h.distinct.sublist hsub⟩
  · rw [hinterval, htimeout]
    exact h.clamped
  · rw [hmax, hinterval, htimeout]
    exact h.cap
  · rw [hmax]
    exact hsub.length_le.trans h.length
  · rw [htimeout]
    exact fun q hq => h.deadline q (hsub.subset hq)
  · rw [hsequence, hinterval, hnext]
    exact fun q hq => h.age q (hsub.subset hq)
  · rw [hsequence]
    exact h.sequence

theorem le_advance (p : Prober) (now : ℕ) :
    p.nextSendUs + p.intervalUs ≤ (p.advance now).nextSendUs := by
  unfold Prober.advance
  dsimp only
  split_ifs <;> omega

theorem lt_advance (hpos : 0 < p.intervalUs) (now : ℕ) : now < (p.advance now).nextSendUs := by
  unfold Prober.advance
  dsimp only
  split_ifs <;> omega

/-- Taking the next number makes every probe in flight one send older. -/
theorem Queued.older (h : Queued t p) (now : ℕ) :
    ∀ q ∈ p.inFlight, ∃ age, (q.seq + (age + 1)) % 2 ^ 32 = (p.sequence + 1) % 2 ^ 32 ∧
      q.sentUs + (age + 1) * p.intervalUs ≤ (p.advance now).nextSendUs ∧
      q.sentUs + age * p.intervalUs ≤ p.nextSendUs := by
  intro q hq
  obtain ⟨age, hseq, hnext⟩ := h.age q hq
  have hadvance := le_advance p now
  refine ⟨age, by omega, ?_, hnext⟩
  rw [Nat.add_mul, one_mul]
  omega

/-- A probe in flight when a send is due was sent less than 600 sends ago. -/
theorem Queued.age_lt (h : Queued t p)
    (hfront : ∀ oldest ∈ p.inFlight.head?, now + kSendSlackUs < oldest.deadlineUs)
    (hdue : p.nextSendUs ≤ now + kSendSlackUs) {q : InFlight} (hq : q ∈ p.inFlight) {age : ℕ}
    (hage : q.sentUs + age * p.intervalUs ≤ p.nextSendUs) : age < 600 := by
  have hlate : now + kSendSlackUs < q.sentUs + p.timeoutUs := by
    cases hqueue : p.inFlight with
    | nil => simp [hqueue] at hq
    | cons oldest rest =>
      have holdest := hfront oldest (by simp [hqueue])
      rw [(h.deadline oldest (by simp [hqueue])).1] at holdest
      rw [hqueue] at hq
      rcases List.mem_cons.mp hq with rfl | hrest
      · exact holdest
      · have hle := List.rel_of_pairwise_cons (hqueue ▸ h.ordered) hrest
        omega
  have hmul : age * 100000 ≤ age * p.intervalUs := Nat.mul_le_mul_left _ h.clamped.interval_ge
  have htimeout := h.clamped.timeout_le
  omega

/-- A send whose probe is not put in flight. -/
theorem Queued.renumbered (h : Queued now p) (hinFlight : p'.inFlight = p.inFlight)
    (hstream : p'.stream = p.stream) (hnext : p'.nextSendUs = (p.advance now).nextSendUs)
    (hsequence : p'.sequence = p.sequence ∨ p'.sequence = (p.sequence + 1) % 2 ^ 32) :
    Queued now p' := by
  obtain ⟨hinterval, htimeout, hmax⟩ := fields_of_stream hstream
  refine ⟨?_, ?_, ?_, ?_, ?_, ?_, ?_, ?_⟩
  · rw [hinterval, htimeout]
    exact h.clamped
  · rw [hmax, hinterval, htimeout]
    exact h.cap
  · rw [hinFlight, hmax]
    exact h.length
  · rw [hinFlight, htimeout]
    exact h.deadline
  · rw [hinFlight]
    exact h.ordered
  · rw [hinFlight, hinterval, hnext]
    intro q hq
    rcases hsequence with hsequence | hsequence <;> rw [hsequence]
    · obtain ⟨age, hseq, hage⟩ := h.age q hq
      exact ⟨age, hseq, hage.trans ((Nat.le_add_right _ _).trans (le_advance p now))⟩
    · obtain ⟨age, hseq, hage, -⟩ := h.older now q hq
      exact ⟨age + 1, hseq, hage⟩
  · have hold := h.sequence
    omega
  · rw [hinFlight]
    exact h.distinct

/-- A send whose probe is put in flight. -/
theorem Queued.launched (h : Queued now p)
    (hfront : ∀ oldest ∈ p.inFlight.head?, now + kSendSlackUs < oldest.deadlineUs)
    (hroom : p.inFlight.length < p.maxInFlight) (hdue : p.nextSendUs ≤ now + kSendSlackUs)
    (hinFlight : p'.inFlight = p.inFlight ++ [⟨(p.sequence + 1) % 2 ^ 32, now, now + p.timeoutUs⟩])
    (hstream : p'.stream = p.stream) (hnext : p'.nextSendUs = (p.advance now).nextSendUs)
    (hsequence : p'.sequence = (p.sequence + 1) % 2 ^ 32) : Queued now p' := by
  obtain ⟨hinterval, htimeout, hmax⟩ := fields_of_stream hstream
  have holder := h.older now
  have hpos : 0 < p.intervalUs := by
    have hge := h.clamped.interval_ge
    omega
  refine ⟨?_, ?_, ?_, ?_, ?_, ?_, ?_, ?_⟩
  · rw [hinterval, htimeout]
    exact h.clamped
  · rw [hmax, hinterval, htimeout]
    exact h.cap
  · rw [hinFlight, hmax, List.length_append]
    exact hroom
  · rw [hinFlight, htimeout]
    intro q hq
    rcases List.mem_append.mp hq with hold | hnew
    · exact h.deadline q hold
    · rw [List.mem_singleton.mp hnew]
      exact ⟨rfl, le_rfl⟩
  · rw [hinFlight]
    refine List.pairwise_append.mpr ⟨h.ordered, List.pairwise_singleton _ _, fun q hq new hnew => ?_⟩
    rw [List.mem_singleton.mp hnew]
    exact (h.deadline q hq).2
  · rw [hinFlight, hinterval, hnext, hsequence]
    intro q hq
    rcases List.mem_append.mp hq with hold | hnew
    · obtain ⟨age, hseq, hage, -⟩ := holder q hold
      exact ⟨age + 1, hseq, hage⟩
    · rw [List.mem_singleton.mp hnew]
      refine ⟨0, by simp, ?_⟩
      rw [zero_mul, Nat.add_zero]
      exact (lt_advance hpos now).le
  · rw [hsequence]
    exact Nat.mod_lt _ (by decide)
  · rw [hinFlight]
    refine List.pairwise_append.mpr ⟨h.distinct, List.pairwise_singleton _ _, fun q hq new hnew => ?_⟩
    rw [List.mem_singleton.mp hnew]
    obtain ⟨age, hseq, -, hage⟩ := holder q hq
    have hlt := h.age_lt hfront hdue hq hage
    change q.seq ≠ (p.sequence + 1) % 2 ^ 32
    omega

theorem Queued.sent (h : Queued now p)
    (hfront : ∀ oldest ∈ p.inFlight.head?, now + kSendSlackUs < oldest.deadlineUs)
    (hroom : p.inFlight.length < p.maxInFlight) (hdue : p.nextSendUs ≤ now + kSendSlackUs)
    (houtcome : p.SendOutcome now p') : Queued now (p'.advance now) := by
  have hnext : (p'.advance now).nextSendUs = (p.advance now).nextSendUs := by
    have hsame : p'.nextSendUs = p.nextSendUs ∧ p'.intervalUs = p.intervalUs := by
      cases houtcome <;> exact ⟨rfl, rfl⟩
    simp only [Prober.advance, hsame]
  have hstream : (p'.advance now).stream = p.stream :=
    (p'.stream_advance now).trans (stream_of_sendOutcome houtcome)
  obtain ⟨hqueue, hsequence⟩ | ⟨hqueue, hsequence⟩ := inFlight_of_sendOutcome houtcome
  · exact h.renumbered hqueue hstream hnext hsequence
  · exact h.launched hfront hroom hdue hqueue hstream hnext hsequence

end Queue

theorem queued_rule : ProberRule Queued where
  later := fun t t' p hle h => ⟨h.clamped, h.cap, h.length,
    fun q hq => ⟨(h.deadline q hq).1, (h.deadline q hq).2.trans hle⟩, h.ordered, h.age, h.sequence,
    h.distinct⟩
  fresh := fun numeric now uid host i timeout hclamped => ⟨hclamped, one_le_neededInFlight i timeout,
    Nat.zero_le _, by simp [freshProber], .nil, by simp [freshProber], Nat.two_pow_pos 32, .nil⟩
  rewired := fun now p _ h => ⟨h.clamped, le_rfl, h.length.trans h.cap, h.deadline, h.ordered, h.age,
    h.sequence, h.distinct⟩
  asked := fun _ _ h => h.of_sublist (List.Sublist.refl _) rfl rfl rfl rfl rfl
  gaveUp := by
    intro now p oldest rest h hqueue _
    refine h.of_sublist ?_ rfl rfl rfl rfl rfl
    rw [hqueue]
    exact List.sublist_cons_self oldest rest
  sent := fun _ _ _ h hfront hroom hdue houtcome => h.sent hfront hroom hdue houtcome
  answered := fun _ _ _ _ _ h _ => h.of_sublist List.eraseP_sublist rfl rfl rfl rfl rfl
  resolved := by
    intro now p result h
    have hsame : (p.resolve now result).inFlight = p.inFlight := by
      unfold Prober.resolve
      split_ifs <;> rfl
    refine h.of_sublist (hsame ▸ List.Sublist.refl _) ?_ ?_ ?_ ?_ ?_
    all_goals
      unfold Prober.resolve
      split_ifs <;> rfl

section Numbers
variable {now : ℕ} {p p' : Prober}

theorem Numbered.of_sublist (h : Numbered p) (hsub : p'.inFlight.Sublist p.inFlight)
    (hsequence : p'.sequence = p.sequence) (hcalls : p.calls ≤ p'.calls)
    (hsends : ∀ seq, p'.history.countP (ProberEvent.sends seq) = p.history.countP (ProberEvent.sends seq)) :
    Numbered p' := by
  refine ⟨?_, h.increasing.sublist hsub, ?_, ?_, ?_⟩
  · rw [hsequence]
    exact h.sequence.trans hcalls
  · rw [hsequence]
    exact fun q hq => h.bounded q (hsub.subset hq)
  · intro seq hseq
    rw [hsends]
    exact h.fresh seq (hsequence ▸ hseq)
  · intro seq
    rw [hsends]
    exact h.once seq

theorem calls_of_sendOutcome (houtcome : p.SendOutcome now p') : p'.calls = p.calls + 1 := by
  cases houtcome <;>
    simp [Prober.calls, Prober.launched, Prober.count, Prober.refuse, Prober.numbered, Prober.log,
      List.countP_cons, ProberEvent.isCall]

theorem sends_of_sendOutcome (houtcome : p.SendOutcome now p') (seq : ℕ) :
    p'.history.countP (ProberEvent.sends seq) = p.history.countP (ProberEvent.sends seq) ∨
      seq = (p.sequence + 1) % 2 ^ 32 ∧ p'.sequence = seq ∧
        p'.history.countP (ProberEvent.sends seq) = p.history.countP (ProberEvent.sends seq) + 1 := by
  cases houtcome with
  | blocked error =>
    exact Or.inl (by simp [Prober.count, Prober.refuse, Prober.log, ProberEvent.sends])
  | refused error =>
    exact Or.inl (by simp [Prober.count, Prober.refuse, Prober.numbered, Prober.log, ProberEvent.sends])
  | launched =>
    simp only [Prober.launched, Prober.numbered, Prober.log, List.countP_cons, ProberEvent.sends]
    simp only [Bool.false_eq_true, if_false, decide_eq_true_eq]
    split_ifs with hseq
    · exact Or.inr ⟨hseq.symm, hseq, rfl⟩
    · exact Or.inl rfl

theorem Numbered.sent (h : Numbered p) (houtcome : p.SendOutcome now p') (hcalls : p'.calls < 2 ^ 32) :
    Numbered p' := by
  have hbound := h.sequence
  have hmore := calls_of_sendOutcome houtcome
  have hnext : (p.sequence + 1) % 2 ^ 32 = p.sequence + 1 := Nat.mod_eq_of_lt (by omega)
  have hsends := sends_of_sendOutcome houtcome
  have hsequence : p'.sequence = p.sequence ∨ p'.sequence = p.sequence + 1 := by
    cases houtcome with
    | blocked error => exact Or.inl rfl
    | refused error => exact Or.inr hnext
    | launched => exact Or.inr hnext
  have hqueue : p'.inFlight = p.inFlight ∨ p'.sequence = p.sequence + 1 ∧
      ∃ new : InFlight, new.seq = p.sequence + 1 ∧ p'.inFlight = p.inFlight ++ [new] := by
    cases houtcome with
    | blocked error => exact Or.inl rfl
    | refused error => exact Or.inl rfl
    | launched => exact Or.inr ⟨hnext, _, hnext, rfl⟩
  refine ⟨by omega, ?_, ?_, fun seq hseq => ?_, fun seq => ?_⟩
  · rcases hqueue with hsame | ⟨-, new, hseq, hadded⟩
    · rw [hsame]
      exact h.increasing
    · rw [hadded]
      refine List.pairwise_append.mpr ⟨h.increasing, List.pairwise_singleton _ _, fun q hq x hx => ?_⟩
      rw [List.mem_singleton.mp hx, hseq]
      exact Nat.lt_succ_of_le (h.bounded q hq)
  · rcases hqueue with hsame | ⟨htaken, new, hseq, hadded⟩
    · rw [hsame]
      intro q hq
      have hold := h.bounded q hq
      omega
    · rw [hadded, htaken]
      intro q hq
      rcases List.mem_append.mp hq with hold | hnew
      · exact (h.bounded q hold).trans (Nat.le_succ _)
      · rw [List.mem_singleton.mp hnew, hseq]
  · have hfresh := h.fresh seq (by omega)
    rcases hsends seq with hsame | ⟨-, htaken, -⟩ <;> omega
  · have honce := h.once seq
    have hfresh := h.fresh seq
    rcases hsends seq with hsame | ⟨htaken, -, hadded⟩
    · omega
    · rw [hadded, hfresh (by omega)]

end Numbers

/-- As long as fewer than `2 ^ 32` probes have been asked for. -/
theorem numbered_rule : ProberRule fun _ p => p.calls < 2 ^ 32 → Numbered p where
  later := fun _ _ _ _ h => h
  fresh := fun _ _ _ _ _ _ _ _ => ⟨Nat.zero_le _, .nil, by simp [freshProber], fun _ _ => rfl,
    fun _ => Nat.zero_le _⟩
  rewired := fun _ _ _ h hcalls => (h hcalls).of_sublist (List.Sublist.refl _) rfl le_rfl fun _ => rfl
  asked := fun _ _ h hcalls => (h hcalls).of_sublist (List.Sublist.refl _) rfl le_rfl fun _ => rfl
  gaveUp := by
    intro now p oldest rest h hqueue _ hcalls
    have hsame : ((p.giveUp oldest rest now).count false 0 now).calls = p.calls := by
      simp [Prober.calls, Prober.count, Prober.giveUp, Prober.log, ProberEvent.isCall]
    refine (h (hsame ▸ hcalls)).of_sublist ?_ rfl hsame.ge fun seq => ?_
    · rw [hqueue]
      exact List.sublist_cons_self oldest rest
    · simp [Prober.count, Prober.giveUp, Prober.log, ProberEvent.sends]
  sent := by
    intro now p p' h _ _ _ houtcome hcalls
    have hmore := calls_of_sendOutcome houtcome
    have hp' : Numbered p' := (h (by change p'.calls < 2 ^ 32 at hcalls; omega)).sent houtcome hcalls
    exact ⟨hp'.sequence, hp'.increasing, hp'.bounded, hp'.fresh, hp'.once⟩
  answered := by
    intro now p q seq rttUs h _ hcalls
    have hsame : ((p.answer seq now).count true rttUs now).calls = p.calls := by
      simp [Prober.calls, Prober.count, Prober.answer, Prober.log, ProberEvent.isCall]
    refine (h (hsame ▸ hcalls)).of_sublist List.eraseP_sublist rfl hsame.ge fun seq => ?_
    simp [Prober.count, Prober.answer, Prober.log, ProberEvent.sends]
  resolved := by
    intro now p result h
    unfold Prober.resolve
    split_ifs <;>
      exact fun hcalls => (h hcalls).of_sublist (List.Sublist.refl _) rfl le_rfl fun _ => rfl

theorem received_le_sent_rule : DestinationRule fun d => d.received ≤ d.sent where
  loaded := fun _ h => h.received.trans_le (Nat.zero_le _)
  carried := fun _ _ _ h _ _ => h
  wired := fun _ _ h => h
  sampled := by
    intro d received rttUs realNow h
    have hjudge : ∀ (d : Destination) verdict, (d.judge verdict).received = d.received ∧
        (d.judge verdict).sent = d.sent := by
      intro d verdict
      unfold Destination.judge
      dsimp only
      split_ifs <;> exact ⟨rfl, rfl⟩
    have hcount : (d.count received rttUs realNow).received ≤ (d.count received rttUs realNow).sent := by
      unfold Destination.count
      dsimp only
      split_ifs <;> omega
    rw [← (hjudge _ _).1, ← (hjudge _ _).2] at hcount
    unfold Destination.sample
    dsimp only
    split_ifs
    · exact hcount
    · exact hcount

/-- What conservation says of a prober. -/
structure Conserved (p : Prober) : Prop where
  calls : p.calls = p.sent + p.inFlight.length
  samples : p.history.countP ProberEvent.isSample = p.sent
  completions : p.history.countP ProberEvent.isRefusal + p.history.countP ProberEvent.isExpiry +
    p.history.countP ProberEvent.isAnswer = p.sent
  received_le : p.received ≤ p.sent
  /-- Every number is out or completed as often as it was sent. -/
  probes : ∀ seq, p.history.countP (ProberEvent.sends seq) =
    p.outstanding seq + p.history.countP (ProberEvent.completes seq)
  /-- No probe is completed twice, or completed and still in flight. -/
  once : p.calls < 2 ^ 32 → ∀ seq,
    p.outstanding seq + p.history.countP (ProberEvent.completes seq) ≤ 1
  increasing : p.calls < 2 ^ 32 → p.inFlight.Pairwise (·.seq < ·.seq) ∧
    ∀ q ∈ p.inFlight, q.seq ≤ p.sequence
  deadlines : p.inFlight.Pairwise (·.deadlineUs ≤ ·.deadlineUs) ∧
    ∀ q ∈ p.inFlight, q.deadlineUs = q.sentUs + p.timeoutUs
  capped : p.inFlight.length ≤ p.maxInFlight

theorem conserved_of {t : ℕ} {p : Prober} (hbalanced : Balanced p) (hqueued : Queued t p)
    (hnumbered : p.calls < 2 ^ 32 → Numbered p) : Conserved p := by
  refine ⟨hbalanced.calls, hbalanced.samples, hbalanced.completions, ?_, hbalanced.probes,
    fun hcalls seq => ?_,
    fun hcalls => ⟨(hnumbered hcalls).increasing, (hnumbered hcalls).bounded⟩,
    ⟨?_, fun q hq => (hqueued.deadline q hq).1⟩, hqueued.length⟩
  · have hsum := hbalanced.completions
    have hanswers := hbalanced.answers
    omega
  · rw [← hbalanced.probes]
    exact (hnumbered hcalls).once seq
  · refine hqueued.ordered.imp_of_mem fun {a b} ha hb hle => ?_
    rw [(hqueued.deadline a ha).1, (hqueued.deadline b hb).1]
    exact Nat.add_le_add_right hle _

/-- Probe conservation: in every state of every run at non-decreasing times. -/
theorem probes_conserved (numeric : Bytes → Option Endpoint) (options : Options)
    (socket4 socket6 : IcmpSocket) (cookie startedRealUs : ℕ) (events : List Event)
    (hevents : Machine.Timed Event.now 0 events) :
    let m := (handlers numeric).run (.initial options socket4 socket6 cookie startedRealUs) events
    (∀ p ∈ m.probers, Conserved p) ∧
      ∀ client ∈ m.clients, ∀ d ∈ client.destinations, d.received ≤ d.sent := by
  intro m
  obtain ⟨t, hqueued⟩ := queued_rule.reachable numeric options socket4 socket6 cookie startedRealUs hevents
  obtain ⟨-, hnumbered⟩ := numbered_rule.reachable numeric options socket4 socket6 cookie startedRealUs hevents
  have hbalanced := balanced_rule.always numeric options socket4 socket6 cookie startedRealUs events
  refine ⟨fun p hp => conserved_of (hbalanced p hp) (hqueued p hp) (hnumbered p hp), ?_⟩
  exact received_le_sent_rule.reachable numeric options socket4 socket6 cookie startedRealUs events

/-- A probe that is answered twice, one that is given up and one that is still out. -/
theorem probes_conserved_run :
    let router : Endpoint := ⟨.inet, ⟨.inet, [192, 0, 2, 1]⟩, 16, ascii "192.0.2.1"⟩
    let directory : Directory := ⟨[⟨ascii "w.json", some (.object [(ascii "destinations",
      .array [.object [(ascii "address", .string (ascii "192.0.2.1"))]])])⟩], by decide⟩
    let io : Io := ⟨fun _ => .sent, fun _ => 0⟩
    let reply : Datagram := ⟨5, 1, 1, 1000, router.addr, 16⟩
    let events : List Event := [⟨1000, .reloadClients directory⟩, ⟨1000, .tick io⟩,
      ⟨1400, .handleReplies io [reply, reply]⟩, ⟨1001000, .tick io⟩, ⟨4001000, .tick io⟩]
    let m := (handlers fun _ => some router).run
      (.initial ⟨[], 1000000, 0, 0, 50, by decide, by decide⟩ ⟨true, false, []⟩ ⟨true, false, []⟩ 5 0) events
    ((∀ p ∈ m.probers, Conserved p) ∧
        ∀ client ∈ m.clients, ∀ d ∈ client.destinations, d.received ≤ d.sent) ∧
      m.probers.map (fun p => (p.calls, p.sent, p.received, p.inFlight.length)) = [(3, 2, 1, 1)] := by
  intro router directory io reply events
  exact ⟨probes_conserved (fun _ => some router) ⟨[], 1000000, 0, 0, 50, by decide, by decide⟩
    ⟨true, false, []⟩ ⟨true, false, []⟩ 5 0 events (by decide), by decide +kernel⟩

end NetworkHealth.Daemon
