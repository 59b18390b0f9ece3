import NetworkHealth.Daemon.LostVerdict
import NetworkHealth.Daemon.Spinning
import NetworkHealth.Daemon.Pacing

/-! The life of one prober, as a machine of its own: ticks, and what replies, lookups and
reloads do to it. Every prober of the daemon leads such a life, with the daemon's clock
readings in their order. -/
namespace NetworkHealth.Daemon

/-- What can happen to a prober. -/
inductive Happening
  | tick (b : Board) (io : Io)
  | answered (seq rttUs : ℕ)
  | resolved (result : Resolution)
  /-- A reload that keeps it. -/
  | rewired (subscribers : List Subscriber)

structure Turn where
  now : ℕ
  happening : Happening

def Prober.turn (socket4 socket6 : IcmpSocket) (p : Prober) (turn : Turn) : Prober :=
  match turn.happening with
  | .tick b io => (tickProber socket4 socket6 io turn.now b p).2
  | .answered seq rttUs =>
    if (p.probe seq).isSome then (p.answer seq turn.now).count true rttUs turn.now else p
  | .resolved result => p.resolve turn.now result
  | .rewired subscribers =>
    { p with subscribers := subscribers, maxInFlight := neededInFlight p.intervalUs p.timeoutUs }

/-- One prober with the daemon's sockets. -/
def life (socket4 socket6 : IcmpSocket) : Machine Prober Turn := ⟨Prober.turn socket4 socket6⟩

@[simp] theorem life_step (socket4 socket6 : IcmpSocket) (p : Prober) (turn : Turn) :
    (life socket4 socket6).step p turn = p.turn socket4 socket6 turn := rfl

/-- The prober after that many turns of a life without end. -/
def Prober.after (socket4 socket6 : IcmpSocket) (p : Prober) (turns : ℕ → Turn) (n : ℕ) : Prober :=
  (life socket4 socket6).along p turns n

theorem Prober.after_succ (socket4 socket6 : IcmpSocket) (p : Prober) (turns : ℕ → Turn) (n : ℕ) :
    p.after socket4 socket6 turns (n + 1) = (p.after socket4 socket6 turns n).turn socket4 socket6 (turns n) :=
  rfl

/-- A prober for which nothing has been sent. -/
structure Unsent (p : Prober) : Prop where
  room : p.maxInFlight = neededInFlight p.intervalUs p.timeoutUs
  inFlight : p.inFlight = []
  sendTimes : p.sendTimes = []

/-- A prober as a reload creates it. -/
structure Newborn (p : Prober) : Prop extends Unsent p where
  clamped : Clamped p.intervalUs p.timeoutUs

/-- A prober that has led a life of its own up to the time `t`. -/
def Lived (socket4 socket6 : IcmpSocket) (t : ℕ) (p : Prober) : Prop :=
  ∃ start turns, Newborn start ∧ p = (life socket4 socket6).run start turns ∧
    Machine.Timed Turn.now 0 turns ∧ ∀ turn ∈ turns, turn.now ≤ t

section Tick
variable (socket4 socket6 : IcmpSocket) (io : Io) (now : ℕ) (b : Board) (p : Prober)

/-- What a tick makes of a prober: it gives up on what is due, and sends if it should. -/
theorem tickProber_spec : ∃ q : Prober, q.inFlight = p.unexpired now ∧ q.timetable = p.timetable ∧
    q.latestSends = p.latestSends ∧
    (p.SendsAt now → ∃ q' : Prober, q.SendOutcome now q' ∧
      (tickProber socket4 socket6 io now b p).2 = q'.advance now) ∧
    (¬ p.SendsAt now → (tickProber socket4 socket6 io now b p).2 = q) := by
  obtain ⟨htable, hqueue, -⟩ := requestLookup_spec now (expire io now b p p.inFlight).1
    (expire io now b p p.inFlight).2
  have hhistory := history_requestLookup now (expire io now b p p.inFlight).1 (expire io now b p p.inFlight).2
  have hsends : (expire io now b p p.inFlight).2.latestSends = p.latestSends :=
    expire_keeps io now b p (fun q => q.latestSends = p.latestSends) (fun _ _ _ h _ _ => h) rfl
  rw [timetable_expire] at htable
  rw [inFlight_expire] at hqueue
  unfold tickProber sendDue
  dsimp only
  generalize (requestLookup now (expire io now b p p.inFlight).1
    (expire io now b p p.inFlight).2).2 = asked at htable hqueue hhistory
  generalize (requestLookup now (expire io now b p p.inFlight).1
    (expire io now b p p.inFlight).2).1 = b'
  have hdue : asked.inFlight.length < asked.maxInFlight ∧ asked.nextSendUs ≤ now + kSendSlackUs ↔
      p.SendsAt now := by
    simp only [Prober.timetable, Prober.stream, Prod.mk.injEq, Stream.mk.injEq] at htable
    rw [hqueue, htable.1.2.2.2.2.1, htable.2.2.2]
    exact Iff.rfl
  refine ⟨asked, hqueue, htable, ?_, fun hsend => ?_, fun hsend => ?_⟩
  · unfold Prober.latestSends at hsends ⊢
    rw [hhistory]
    exact hsends
  · rw [if_pos (hdue.mpr hsend)]
    exact ⟨_, sendOutcome_sendProbe .., rfl⟩
  · rw [if_neg (mt hdue.mp hsend)]

end Tick

namespace Lived
variable {socket4 socket6 : IcmpSocket} {t now : ℕ} {p : Prober}

theorem later (h : Lived socket4 socket6 t p) (hle : t ≤ now) : Lived socket4 socket6 now p := by
  obtain ⟨start, turns, hstart, hp, htimed, hlast⟩ := h
  exact ⟨start, turns, hstart, hp, htimed, fun turn hturn => (hlast turn hturn).trans hle⟩

/-- One thing more happens to the prober. -/
theorem turn (h : Lived socket4 socket6 now p) (happening : Happening) :
    Lived socket4 socket6 now (p.turn socket4 socket6 ⟨now, happening⟩) := by
  obtain ⟨start, turns, hstart, rfl, htimed, hlast⟩ := h
  refine ⟨start, turns ++ [⟨now, happening⟩], hstart, by simp, ?_, ?_⟩
  · unfold Machine.Timed at htimed ⊢
    rw [List.map_append, ← List.cons_append, List.pairwise_append]
    refine ⟨htimed, by simp, fun before hbefore after hafter => ?_⟩
    obtain rfl : after = now := by simpa using hafter
    rcases List.mem_cons.mp hbefore with rfl | hbefore
    · exact Nat.zero_le _
    · obtain ⟨turn, hturn, rfl⟩ := List.mem_map.mp hbefore
      exact hlast turn hturn
  · intro turn hturn
    rcases List.mem_append.mp hturn with hturn | hturn
    · exact hlast turn hturn
    · rw [List.mem_singleton.mp hturn]

variable (numeric : Bytes → Option Endpoint) {m : Monitor}

theorem handleReply (h : ∀ p ∈ m.probers, Lived socket4 socket6 now p) (io : Io) (reply : Datagram) :
    ∀ p ∈ (m.handleReply now io reply).probers, Lived socket4 socket6 now p := by
  obtain he | ⟨i, p, q, hp, hprobe, -, -, he⟩ := m.handleReply_cases io now reply <;> rw [he]
  · exact h
  · intro p' hp'
    rcases List.mem_or_eq_of_mem_set hp' with hp' | rfl
    · exact h p' hp'
    · have hold := h p (List.mem_of_getElem? (Monitor.proberOf_eq_some.mp hp).2)
      have hturn := hold.turn (.answered reply.seq (now - reply.sentUs))
      simpa [Prober.turn, hprobe] using hturn

theorem handleResolution (h : ∀ p ∈ m.probers, Lived socket4 socket6 now p) (result : Resolution) :
    ∀ p ∈ (m.handleResolution now result).probers, Lived socket4 socket6 now p := by
  obtain he | ⟨i, p, dirty, hp, he⟩ := m.handleResolution_cases now result <;> rw [he]
  · exact h
  · intro p' hp'
    rcases List.mem_or_eq_of_mem_set hp' with hp' | rfl
    · exact h p' hp'
    · exact (h p (List.mem_of_getElem? (Monitor.proberOf_eq_some.mp hp).2)).turn (.resolved result)

theorem reloadClients (h : ∀ p ∈ m.probers, Lived socket4 socket6 now p) (directory : Directory) :
    ∀ p ∈ (m.reloadClients numeric now directory).probers, Lived socket4 socket6 now p := by
  intro p hp
  obtain ⟨q, subscribers, horigin, rfl⟩ := origin_rebuildProbers numeric now { m with
    configDirty := false, clients := (loadedClients m.options directory).map (·.carryOver m.clients) } p hp
  rcases horigin with hq | ⟨uid, host, client, hclient, rfl⟩
  · exact (h q hq).turn (.rewired subscribers)
  · obtain ⟨loaded, hloaded, rfl⟩ := List.mem_map.mp hclient
    obtain ⟨entry, hentry⟩ := exists_of_mem_loadedClients hloaded
    refine ⟨_, [], ⟨⟨rfl, rfl, rfl⟩, ?_⟩, rfl, by simp [Machine.Timed], by simp⟩
    have hclamped := clamped_of_loadEntry hentry
    rwa [← (carryOver_interval loaded m.clients).1, ← (carryOver_interval loaded m.clients).2] at hclamped

theorem step (h : ∀ p ∈ m.probers, Lived m.socket4 m.socket6 t p) (event : Event) (ht : t ≤ event.now) :
    ∀ p ∈ (m.step numeric event).probers, Lived m.socket4 m.socket6 event.now p := by
  obtain ⟨now, handler⟩ := event
  have hnow : ∀ p ∈ m.probers, Lived m.socket4 m.socket6 now p := fun p hp => (h p hp).later ht
  cases handler with
  | reloadClients directory => exact reloadClients numeric hnow directory
  | tick io =>
    intro p hp
    obtain ⟨q, hq, b, -, rfl⟩ :=
      exists_of_mem_mapAccum (fun _ => True) m.probers (fun _ _ _ _ => trivial) trivial hp
    exact (hnow q hq).turn (.tick b io)
  | handleReplies io replies =>
    exact Machine.foldl_keeps (fun m' : Monitor => ∀ p ∈ m'.probers, Lived m.socket4 m.socket6 now p)
      (fun _ reply hm => handleReply hm io reply) hnow replies
  | handleResolutions results =>
    exact Machine.foldl_keeps (fun m' : Monitor => ∀ p ∈ m'.probers, Lived m.socket4 m.socket6 now p)
      (fun _ result hm => handleResolution hm result) hnow results
  | dropExpiredClients after realNow mtime => rwa [Monitor.step, (Monitor.quiet_dropExpiredClients ..).2]
  | noteIdle after => rwa [Monitor.step, (Monitor.quiet_noteIdle ..).2]
  | publish force => rwa [Monitor.step, (Monitor.quiet_publish ..).2]
  | flag configChanged shutdown => exact hnow
  | enter => exact hnow

end Lived

/-- The handlers leave the sockets alone. -/
theorem sockets_step (numeric : Bytes → Option Endpoint) (m : Monitor) (event : Event) :
    (m.step numeric event).socket4 = m.socket4 ∧ (m.step numeric event).socket6 = m.socket6 := by
  obtain ⟨now, handler⟩ := event
  have hbare : ∀ m' : Monitor, m'.bare = m.bare → m'.socket4 = m.socket4 ∧ m'.socket6 = m.socket6 :=
    fun m' h => ⟨(congrArg Monitor.socket4 h :), (congrArg Monitor.socket6 h :)⟩
  cases handler with
  | handleReplies io replies => exact hbare _ (Monitor.bare_handleReplies ..)
  | handleResolutions results => exact hbare _ (Monitor.bare_handleResolutions ..)
  | dropExpiredClients after realNow mtime =>
    unfold Monitor.step Monitor.dropExpiredClients
    dsimp only
    split_ifs <;> exact ⟨rfl, rfl⟩
  | noteIdle after =>
    unfold Monitor.step Monitor.noteIdle
    dsimp only
    split_ifs <;> exact ⟨rfl, rfl⟩
  | publish force =>
    unfold Monitor.step Monitor.publish
    dsimp only
    split_ifs <;> exact ⟨rfl, rfl⟩
  | _ => exact ⟨rfl, rfl⟩

/-- Every prober the daemon has after any timed run has led a life of its own. -/
theorem lived_run (numeric : Bytes → Option Endpoint) (options : Options) (socket4 socket6 : IcmpSocket)
    (cookie startedRealUs : ℕ) {events : List Event} (hevents : Machine.Timed Event.now 0 events) :
    ∃ t, ∀ p ∈ ((handlers numeric).run
      (.initial options socket4 socket6 cookie startedRealUs) events).probers, Lived socket4 socket6 t p := by
  obtain ⟨t, -, -, -, -, h⟩ := Machine.run_timed (M := handlers numeric) Event.now
    (fun t (m : Monitor) => m.socket4 = socket4 ∧ m.socket6 = socket6 ∧
      ∀ p ∈ m.probers, Lived socket4 socket6 t p)
    (fun t m event hm ht => by
      obtain ⟨rfl, rfl, hlived⟩ := hm
      obtain ⟨h4, h6⟩ := sockets_step numeric m event
      exact ⟨h4, h6, Lived.step numeric hlived event ht⟩)
    (t := 0) (s := Monitor.initial options socket4 socket6 cookie startedRealUs)
    ⟨rfl, rfl, fun _ h => absurd h (by simp [Monitor.initial])⟩ hevents
  exact ⟨t, h⟩

end NetworkHealth.Daemon
