import NetworkHealth.Library.IndexTable
import NetworkHealth.Daemon.EventLoop

/-! What the handlers leave alone: the rest of the daemon while they walk its probers, the
wiring between destinations and probers, and the identity of every stream. -/
namespace NetworkHealth.Daemon

/-- The configured part of a destination that the wiring is made of. -/
structure Slot where
  address : Bytes
  enabled : Bool
  prober : Option ℕ
  deriving DecidableEq, Repr

structure SlotGroup where
  intervalUs : ℕ
  timeoutUs : ℕ
  slots : List Slot
  deriving DecidableEq, Repr

/-- The identity of a prober and whom it serves. -/
structure Stream where
  host : Bytes
  intervalUs : ℕ
  timeoutUs : ℕ
  uid : ℕ
  maxInFlight : ℕ
  subscribers : List Subscriber
  deriving DecidableEq, Repr

def Destination.slot (d : Destination) : Slot := ⟨d.address, d.enabled, d.prober⟩

def Client.group (client : Client) : SlotGroup :=
  ⟨client.intervalUs, client.timeoutUs, client.destinations.map Destination.slot⟩

def Prober.stream (p : Prober) : Stream :=
  ⟨p.host, p.intervalUs, p.timeoutUs, p.uid, p.maxInFlight, p.subscribers⟩

/-- The daemon without its board and its probers. -/
def Monitor.bare (m : Monitor) : Monitor :=
  { m with clients := [], dataDirty := false, stateDirty := false, lookups := [], probers := [] }

@[simp] theorem Destination.slot_judge (d : Destination) (sample : HealthState) :
    (d.judge sample).slot = d.slot := by
  unfold judge
  split_ifs <;> first | rfl | (dsimp only; split_ifs <;> rfl)

@[simp] theorem Destination.slot_sample (d : Destination) (received : Bool) (rttUs realNow : ℕ) :
    (d.sample received rttUs realNow).slot = d.slot := by
  have hjudge := (d.count received rttUs realNow).slot_judge (classify received rttUs d.thresholdUs)
  unfold sample
  dsimp only
  split_ifs
  · exact hjudge
  · exact hjudge

theorem group_modifyDestination (clients : List Client) (s : Subscriber) (f : Destination → Destination)
    (hf : ∀ d, (f d).slot = d.slot) :
    (modifyDestination clients s f).map Client.group = clients.map Client.group := by
  refine map_modify_eq (fun client => ?_) clients s.client
  simp only [Client.group, map_modify_eq hf]

namespace Board

@[simp] theorem group_sampleAt (received : Bool) (rttUs realNow : ℕ) (b : Board) (s : Subscriber) :
    (b.sampleAt received rttUs realNow s).clients.map Client.group = b.clients.map Client.group := by
  unfold sampleAt
  split
  · rfl
  · exact group_modifyDestination _ _ _ fun d => d.slot_sample received rttUs realNow

end Board

/-- What the handlers do to the board on behalf of a prober with these subscribers. -/
structure BoardRule (subscribers : List Subscriber) (Inv : Board → Prop) : Prop where
  sampled : ∀ b, ∀ s ∈ subscribers, ∀ received rttUs realNow, Inv b →
    Inv (b.sampleAt received rttUs realNow s)
  noted : ∀ b, Inv b → Inv { b with dataDirty := true }
  asked : ∀ b request, Inv b → Inv { b with lookups := b.lookups ++ [request] }

variable (socket4 socket6 : IcmpSocket) (io : Io) (now : ℕ) (b : Board) (p : Prober)

theorem BoardRule.applySample {b : Board} {p : Prober} {Inv : Board → Prop}
    (rule : BoardRule p.subscribers Inv) (h : Inv b) (received : Bool) (rttUs now realNow : ℕ) :
    Inv (applySample b p received rttUs now realNow).1 := by
  refine rule.noted _ (List.foldlRecOn (motive := Inv) p.subscribers _ h fun b hb s hs => ?_)
  exact rule.sampled b s hs received rttUs realNow hb

theorem group_boardRule (subscribers : List Subscriber) :
    BoardRule subscribers fun b' => b'.clients.map Client.group = b.clients.map Client.group where
  sampled b' s _ received rttUs realNow h := (b'.group_sampleAt received rttUs realNow s).trans h
  noted _ h := h
  asked _ _ h := h

@[simp] theorem group_applySample (received : Bool) (rttUs realNow : ℕ) :
    (applySample b p received rttUs now realNow).1.clients.map Client.group =
      b.clients.map Client.group :=
  (group_boardRule b p.subscribers).applySample rfl received rttUs now realNow

@[simp] theorem applySample_snd (received : Bool) (rttUs realNow : ℕ) :
    (applySample b p received rttUs now realNow).2 = p.count received rttUs now := rfl

namespace Prober

@[simp] theorem stream_log (event : ProberEvent) : (p.log event).stream = p.stream := rfl
@[simp] theorem stream_count (received : Bool) (rttUs : ℕ) :
    (p.count received rttUs now).stream = p.stream := rfl
@[simp] theorem stream_refuse (error : Bytes) : (p.refuse error now).stream = p.stream := rfl
@[simp] theorem stream_numbered : p.numbered.stream = p.stream := rfl
@[simp] theorem stream_launched : (p.launched now).stream = p.stream := rfl
@[simp] theorem stream_advance : (p.advance now).stream = p.stream := rfl

end Prober

/-- What a send does to its prober: the probe is refused at once, with or without having
been numbered, or it is launched. -/
inductive Prober.SendOutcome (now : ℕ) (p : Prober) : Prober → Prop
  | blocked (error : Bytes) : SendOutcome now p (((p.log (.call now)).refuse error now).count false 0 now)
  | refused (error : Bytes) :
    SendOutcome now p (((p.log (.call now)).numbered.refuse error now).count false 0 now)
  | launched : SendOutcome now p ((p.log (.call now)).numbered.launched now)

@[simp] theorem stream_of_sendOutcome {now : ℕ} {p p' : Prober} (h : p.SendOutcome now p') :
    p'.stream = p.stream := by
  cases h <;> simp

theorem fields_of_stream {p p' : Prober} (h : p'.stream = p.stream) :
    p'.intervalUs = p.intervalUs ∧ p'.timeoutUs = p.timeoutUs ∧ p'.maxInFlight = p.maxInFlight := by
  simp only [Prober.stream, Stream.mk.injEq] at h
  exact ⟨h.2.1, h.2.2.1, h.2.2.2.2.1⟩

/-- The queue after a send: as it was, or one probe longer. -/
theorem inFlight_of_sendOutcome {now : ℕ} {p p' : Prober} (h : p.SendOutcome now p') :
    p'.inFlight = p.inFlight ∧ (p'.sequence = p.sequence ∨ p'.sequence = (p.sequence + 1) % 2 ^ 32) ∨
      p'.inFlight = p.inFlight ++ [⟨(p.sequence + 1) % 2 ^ 32, now, now + p.timeoutUs⟩] ∧
        p'.sequence = (p.sequence + 1) % 2 ^ 32 := by
  cases h with
  | blocked error => exact Or.inl ⟨rfl, Or.inl rfl⟩
  | refused error => exact Or.inl ⟨rfl, Or.inr rfl⟩
  | launched => exact Or.inr ⟨rfl, rfl⟩

theorem sendOutcome_sendProbe : p.SendOutcome now (sendProbe socket4 socket6 io now b p).2 := by
  unfold sendProbe
  dsimp only
  split
  · exact .blocked _
  · split
    · exact .launched
    · exact .refused _
    · exact .refused _

/-- What giving up on a probe keeps, the loop over those that are due keeps. -/
theorem expire_keeps (Inv : Prober → Prop)
    (hstep : ∀ p oldest rest, Inv p → p.inFlight = oldest :: rest →
      oldest.deadlineUs ≤ now + kSendSlackUs → Inv ((p.giveUp oldest rest now).count false 0 now))
    (hp : Inv p) : Inv (expire io now b p p.inFlight).2 := by
  suffices h : ∀ queue b p, p.inFlight = queue → Inv p → Inv (expire io now b p queue).2 from
    h _ b p rfl hp
  intro queue
  induction queue with
  | nil => exact fun _ _ _ h => h
  | cons oldest rest ih =>
    intro b p hqueue hp
    unfold expire
    split_ifs with hdue
    · exact ih _ _ rfl (hstep p oldest rest hp hqueue hdue)
    · exact hp

/-- The probes that are not due yet, when the deadlines are in order. -/
def Prober.unexpired (p : Prober) (now : ℕ) : List InFlight :=
  p.inFlight.dropWhile fun q => q.deadlineUs ≤ now + kSendSlackUs

theorem inFlight_expire :
    (expire io now b p p.inFlight).2.inFlight = p.unexpired now := by
  suffices h : ∀ queue b p, p.inFlight = queue → (expire io now b p queue).2.inFlight =
      queue.dropWhile fun q => q.deadlineUs ≤ now + kSendSlackUs from h _ b p rfl
  intro queue
  induction queue with
  | nil => exact fun _ _ h => h
  | cons oldest rest ih =>
    intro b p hqueue
    unfold expire
    split_ifs with hdue
    · rw [ih _ _ rfl, List.dropWhile_cons_of_pos (by simpa using hdue)]
    · rw [List.dropWhile_cons_of_neg (by simpa using hdue), hqueue]

theorem lt_deadline_unexpired {oldest : InFlight} (h : oldest ∈ (p.unexpired now).head?) :
    now + kSendSlackUs < oldest.deadlineUs := by
  have hkept := List.head?_dropWhile_not (fun q : InFlight => decide (q.deadlineUs ≤ now + kSendSlackUs))
    p.inFlight
  rw [show (p.inFlight.dropWhile fun q => decide (q.deadlineUs ≤ now + kSendSlackUs)).head? = some oldest
    from h] at hkept
  simpa using hkept

theorem stream_tickProber : (tickProber socket4 socket6 io now b p).2.stream = p.stream := by
  have hexpire : (expire io now b p p.inFlight).2.stream = p.stream :=
    expire_keeps io now b p (fun q => q.stream = p.stream) (fun _ _ _ h _ _ => h) rfl
  have hasked : ∀ b p, (requestLookup now b p).2.stream = p.stream := by
    intro b p
    unfold requestLookup
    split_ifs <;> rfl
  unfold tickProber sendDue
  dsimp only
  split_ifs
  · rw [Prober.stream_advance, stream_of_sendOutcome (sendOutcome_sendProbe ..), hasked, hexpire]
  · exact (hasked _ _).trans hexpire

namespace BoardRule
variable {b p} {Inv : Board → Prop} (rule : BoardRule p.subscribers Inv)
include rule

theorem sendProbe (h : Inv b) : Inv (sendProbe socket4 socket6 io now b p).1 := by
  unfold Daemon.sendProbe
  dsimp only
  split
  · exact BoardRule.applySample rule h false 0 now _
  · split
    · exact h
    · exact BoardRule.applySample rule h false 0 now _
    · exact BoardRule.applySample rule h false 0 now _

theorem expire (h : Inv b) (queue : List InFlight) : Inv (expire io now b p queue).1 := by
  induction queue generalizing b p with
  | nil => exact h
  | cons oldest rest ih =>
    unfold Daemon.expire
    split_ifs
    · exact ih (p := (p.giveUp oldest rest now).count false 0 now) rule (BoardRule.applySample rule h false 0 now _)
    · exact h

/-- The rest of a tick, once the probes that are due have been given up. -/
theorem tickProber_of_expire (h : Inv (Daemon.expire io now b p p.inFlight).1) :
    Inv (tickProber socket4 socket6 io now b p).1 := by
  have hexpired : (Daemon.expire io now b p p.inFlight).2.subscribers = p.subscribers :=
    expire_keeps io now b p (fun q => q.subscribers = p.subscribers) (fun _ _ _ h _ _ => h) rfl
  have hasked : (requestLookup now (Daemon.expire io now b p p.inFlight).1
      (Daemon.expire io now b p p.inFlight).2).2.subscribers = p.subscribers ∧
      Inv (requestLookup now (Daemon.expire io now b p p.inFlight).1
        (Daemon.expire io now b p p.inFlight).2).1 := by
    unfold requestLookup
    split_ifs
    · exact ⟨hexpired, rule.asked _ _ h⟩
    · exact ⟨hexpired, h⟩
  unfold Daemon.tickProber sendDue
  dsimp only
  split_ifs
  · exact BoardRule.sendProbe socket4 socket6 io now (hasked.1 ▸ rule) hasked.2
  · exact hasked.2

theorem tickProber (h : Inv b) : Inv (tickProber socket4 socket6 io now b p).1 :=
  rule.tickProber_of_expire socket4 socket6 io now (rule.expire io now h p.inFlight)

end BoardRule

theorem group_tickProber :
    (tickProber socket4 socket6 io now b p).1.clients.map Client.group = b.clients.map Client.group :=
  (group_boardRule b p.subscribers).tickProber socket4 socket6 io now rfl

@[simp] theorem stream_resolve (result : Resolution) : (p.resolve now result).stream = p.stream := by
  unfold Prober.resolve
  split_ifs <;> rfl

namespace Monitor
variable (m : Monitor)

theorem proberOf_eq_some {m : Monitor} {uid i : ℕ} {p : Prober} :
    m.proberOf uid = some (i, p) ↔ m.proberByUid.lookup uid = some i ∧ m.probers[i]? = some p := by
  simp only [proberOf, Option.bind_eq_some_iff, Option.map_eq_some_iff, Prod.mk.injEq]
  constructor
  · rintro ⟨j, hj, q, hq, rfl, rfl⟩
    exact ⟨hj, hq⟩
  · rintro ⟨hi, hp⟩
    exact ⟨i, hi, p, hp, rfl, rfl⟩

/-- What a reply can do: nothing, or complete a probe of the prober its uid stands for. -/
theorem handleReply_cases (reply : Datagram) :
    m.handleReply now io reply = m ∨ ∃ i p q, m.proberOf reply.uid = some (i, p) ∧
      p.probe reply.seq = some q ∧ p.endpoint.isFrom reply.source reply.sourceLen = true ∧
      reply.cookie = m.cookie ∧
      let answered := p.answer reply.seq now
      m.handleReply now io reply =
        { m with
          toBoard := (applySample m.toBoard answered true (now - reply.sentUs) now (io.realtime answered)).1
          probers := m.probers.set i (answered.count true (now - reply.sentUs) now) } := by
  unfold handleReply
  split_ifs with hcookie
  · exact Or.inl rfl
  · split
    · exact Or.inl rfl
    · next i p hp =>
      split_ifs with hprobe hfrom
      · exact Or.inl rfl
      · exact Or.inl rfl
      · obtain ⟨q, hq⟩ := Option.isSome_iff_exists.mp (by simpa [Option.isSome_iff_ne_none] using hprobe)
        exact Or.inr ⟨i, p, q, hp, hq, by simpa using hfrom, not_not.mp hcookie, rfl⟩

/-- What a lookup result can do: nothing, or settle the lookup of the prober of its uid. -/
theorem handleResolution_cases (result : Resolution) :
    m.handleResolution now result = m ∨ ∃ i p dirty, m.proberOf result.uid = some (i, p) ∧
      m.handleResolution now result =
        { m with stateDirty := dirty, probers := m.probers.set i (p.resolve now result) } := by
  unfold handleResolution
  split
  · exact Or.inl rfl
  · next i p hp => exact Or.inr ⟨i, p, _, hp, rfl⟩

@[simp] theorem bare_handleReply (reply : Datagram) : (m.handleReply now io reply).bare = m.bare := by
  rcases m.handleReply_cases io now reply with h | ⟨i, p, q, -, -, -, -, h⟩ <;> rw [h]
  rfl

@[simp] theorem bare_handleReplies (replies : List Datagram) :
    (m.handleReplies now io replies).bare = m.bare :=
  Machine.foldl_keeps (fun m' : Monitor => m'.bare = m.bare)
    (fun m' reply h => (m'.bare_handleReply io now reply).trans h) rfl replies

@[simp] theorem bare_handleResolution (result : Resolution) :
    (m.handleResolution now result).bare = m.bare := by
  obtain h | ⟨i, p, dirty, -, h⟩ := m.handleResolution_cases now result <;> rw [h]
  rfl

@[simp] theorem bare_handleResolutions (results : List Resolution) :
    (m.handleResolutions now results).bare = m.bare :=
  Machine.foldl_keeps (fun m' : Monitor => m'.bare = m.bare)
    (fun m' result h => (m'.bare_handleResolution now result).trans h) rfl results

/-- The handlers that touch neither clients nor probers. -/
theorem quiet_dropExpiredClients (realNow : ℕ) (mtime : Bytes → Option ℕ) :
    (m.dropExpiredClients now realNow mtime).toBoard = m.toBoard ∧
      (m.dropExpiredClients now realNow mtime).probers = m.probers := by
  unfold dropExpiredClients
  split_ifs <;> exact ⟨rfl, rfl⟩

theorem quiet_noteIdle :
    (m.noteIdle now).toBoard = m.toBoard ∧ (m.noteIdle now).probers = m.probers := by
  unfold noteIdle
  split_ifs <;> exact ⟨rfl, rfl⟩

theorem quiet_publish (force : Bool) :
    (m.publish now force).clients = m.clients ∧ (m.publish now force).probers = m.probers := by
  unfold publish
  split_ifs <;> exact ⟨rfl, rfl⟩

theorem clients_handleResolutions (results : List Resolution) :
    (m.handleResolutions now results).clients = m.clients := by
  refine Machine.foldl_keeps (fun m' : Monitor => m'.clients = m.clients) (fun m' result hm => ?_) rfl results
  obtain h | ⟨i, p, dirty, -, h⟩ := m'.handleResolution_cases now result <;> rw [h]
  · exact hm
  · exact hm

/-- A trip through the loop is a run of the handlers. -/
theorem run_events (numeric : Bytes → Option Endpoint) (w : Wakeup) :
    (handlers numeric).run m (w.events m) = m.iterate numeric w := by
  have hrunning : (m.dispatch w).running = (m.running && !w.shutdown) :=
    congrArg Monitor.running (bare_handleResolutions ..)
  have hdirty : ((m.dispatch w).handleReplies w.after w.io w.replies).configDirty =
      (m.configDirty || w.configChanged) :=
    (congrArg Monitor.configDirty (bare_handleReplies ..)).trans
      (congrArg Monitor.configDirty (bare_handleResolutions ..))
  unfold Wakeup.events iterate
  dsimp only
  rw [hrunning]
  cases hrun : m.running && !w.shutdown with
  | false =>
    have hstop : (!m.running || w.shutdown) = true := by
      revert hrun
      cases m.running <;> cases w.shutdown <;> simp
    rw [hstop]
    rfl
  | true =>
    have hgo : (!m.running || w.shutdown) = false := by
      revert hrun
      cases m.running <;> cases w.shutdown <;> simp
    rw [hgo]
    unfold attend
    dsimp only
    rw [hdirty]
    cases m.configDirty || w.configChanged <;> rfl

end Monitor
end NetworkHealth.Daemon
