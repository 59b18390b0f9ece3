import NetworkHealth.Daemon.StateJson

/-! What the wall clock decides. It is meant to be written into the published state only; the
removal of stale client files compares it with their modification times. -/
namespace NetworkHealth.Daemon

def Destination.timeless (d : Destination) : Destination :=
  { d with lastReplyRealUs := 0, lastChangeRealUs := 0 }

def Client.timeless (client : Client) : Client :=
  { client with destinations := client.destinations.map Destination.timeless }

def Board.timeless (b : Board) : Board := { b with clients := b.clients.map Client.timeless }

def Io.timeless (io : Io) : Io := { io with realtime := fun _ => 0 }

/-- The daemon with its timestamps zeroed. -/
def Monitor.timeless (m : Monitor) : Monitor :=
  { m with toBoard := m.toBoard.timeless, startedRealUs := 0 }

/-- An event without what only timestamps are made of. -/
def Event.timeless (event : Event) : Event :=
  match event.handler with
  | .tick io => ⟨event.now, .tick io.timeless⟩
  | .handleReplies io replies => ⟨event.now, .handleReplies io.timeless replies⟩
  | _ => event

/-- An event without anything the wall clock shows. -/
def Event.unclocked (event : Event) : Event :=
  match event.handler with
  | .tick io => ⟨event.now, .tick io.timeless⟩
  | .handleReplies io replies => ⟨event.now, .handleReplies io.timeless replies⟩
  | .dropExpiredClients after _ mtime => ⟨event.now, .dropExpiredClients after 0 mtime⟩
  | _ => event

/-- Two events that differ at most in what the wall clock shows. -/
structure TwinEvent where
  first : Event
  second : Event
  same : first.unclocked = second.unclocked

/-- By this clock the file at the path was last written longer ago than the timeout. -/
def Stale (clientTimeoutUs realNow : ℕ) (mtime : Bytes → Option ℕ) (path : Bytes) : Prop :=
  ∃ mtimeUs ∈ mtime path, clientTimeoutUs < realNow - mtimeUs

instance (clientTimeoutUs realNow : ℕ) (mtime : Bytes → Option ℕ) (path : Bytes) :
    Decidable (Stale clientTimeoutUs realNow mtime path) :=
  inferInstanceAs (Decidable (∃ mtimeUs ∈ mtime path, _))

/-- No check for stale files is due. -/
def Monitor.CheckNotDue (m : Monitor) (after : ℕ) : Prop :=
  m.options.clientTimeoutUs = 0 ∨ after - m.lastClientCheckUs < m.clientCheckIntervalUs

instance (m : Monitor) (after : ℕ) : Decidable (m.CheckNotDue after) :=
  inferInstanceAs (Decidable (_ ∨ _))

/-- The client files a step removes. -/
def Monitor.removed (m : Monitor) (event : Event) : List Bytes :=
  match event.handler with
  | .dropExpiredClients after realNow mtime =>
    if m.CheckNotDue after then [] else (m.expiredClients realNow mtime).map Client.path
  | _ => []

/-- After the step everything but timestamps is the same, what is published included, and the
step removes the same files. -/
structure Agree (numeric : Bytes → Option Endpoint) (s : Monitor × Monitor) (twin : TwinEvent) : Prop where
  state : (s.1.step numeric twin.first).timeless = (s.2.step numeric twin.second).timeless
  payload : ∀ double pid, (s.1.step numeric twin.first).payload double pid =
    (s.2.step numeric twin.second).payload double pid
  removed : s.1.removed twin.first = s.2.removed twin.second

/-- A check that is due finds the same files stale by both clocks. -/
def SameStale (s : Monitor × Monitor) (twin : TwinEvent) : Prop :=
  ∀ after realNow realNow' mtime,
    twin.first.handler = .dropExpiredClients after realNow mtime →
    twin.second.handler = .dropExpiredClients after realNow' mtime →
    s.1.CheckNotDue after ∨ ∀ client ∈ s.1.clients,
      (Stale s.1.options.clientTimeoutUs realNow mtime client.path ↔
        Stale s.1.options.clientTimeoutUs realNow' mtime client.path)

namespace Destination

theorem timeless_count (d : Destination) (received : Bool) (rttUs realNow : ℕ) :
    (d.count received rttUs realNow).timeless = d.timeless.count received rttUs 0 := by
  cases received <;> rfl

theorem timeless_judge (d : Destination) (verdict : HealthState) :
    (d.judge verdict).timeless = d.timeless.judge verdict := by
  have hstate : d.timeless.state = d.state := rfl
  have hcandidate : d.timeless.candidate = d.candidate := rfl
  have hstreak : d.timeless.candidateStreak = d.candidateStreak := rfl
  have hsensitivity : d.timeless.sensitivity = d.sensitivity := rfl
  unfold judge
  rw [hstate, hcandidate, hstreak, hsensitivity]
  dsimp only
  split_ifs <;> rfl

theorem timeless_sample (d : Destination) (received : Bool) (rttUs realNow : ℕ) :
    (d.sample received rttUs realNow).timeless = d.timeless.sample received rttUs 0 := by
  have hnext : ((d.count received rttUs realNow).judge (classify received rttUs d.thresholdUs)).timeless =
      (d.timeless.count received rttUs 0).judge (classify received rttUs d.timeless.thresholdUs) := by
    rw [timeless_judge, timeless_count]
    rfl
  have hstate : ∀ d : Destination, d.timeless.state = d.state := fun _ => rfl
  unfold sample
  dsimp only
  rw [← hnext, hstate, hstate]
  split_ifs <;> rfl

end Destination

theorem timeless_modifyDestination (clients : List Client) (s : Subscriber) {f f' : Destination → Destination}
    (hf : ∀ d, (f d).timeless = f' d.timeless) :
    (modifyDestination clients s f).map Client.timeless = modifyDestination (clients.map Client.timeless) s f' := by
  refine map_modify (fun client => ?_) clients s.client
  simp only [Client.timeless, map_modify hf]

namespace Board

theorem destination?_timeless (b : Board) (s : Subscriber) :
    b.timeless.destination? s = (b.destination? s).map Destination.timeless := by
  simp only [destination?, timeless, List.getElem?_map]
  cases b.clients[s.client]? with
  | none => rfl
  | some client => simp [Client.timeless]

theorem timeless_sampleAt (b : Board) (received : Bool) (rttUs realNow : ℕ) (s : Subscriber) :
    (b.sampleAt received rttUs realNow s).timeless = b.timeless.sampleAt received rttUs 0 s := by
  unfold sampleAt
  rw [destination?_timeless]
  cases b.destination? s with
  | none => rfl
  | some d =>
    have hstate : (d.timeless.sample received rttUs 0).state = (d.sample received rttUs realNow).state := by
      rw [← d.timeless_sample received rttUs realNow]
      rfl
    have hclients : (modifyDestination b.clients s (·.sample received rttUs realNow)).map Client.timeless =
        modifyDestination (b.clients.map Client.timeless) s (·.sample received rttUs 0) :=
      timeless_modifyDestination b.clients s fun d => d.timeless_sample received rttUs realNow
    simp only [Option.map_some, hstate, timeless, hclients]
    rfl

end Board

theorem timeless_applySample (b : Board) (p : Prober) (received : Bool) (rttUs now realNow : ℕ) :
    (applySample b p received rttUs now realNow).1.timeless =
      (applySample b.timeless p received rttUs now 0).1 := by
  have hfold : p.subscribers.foldl (Board.sampleAt received rttUs 0) b.timeless =
      (p.subscribers.foldl (Board.sampleAt received rttUs realNow) b).timeless :=
    List.foldl_hom Board.timeless fun b s => (b.timeless_sampleAt received rttUs realNow s).symm
  unfold applySample
  rw [hfold]
  rfl

section Prober
variable (socket4 socket6 : IcmpSocket) (io : Io) (now : ℕ) (b : Board) (p : Prober)

/-- A result of walking one prober, with the timestamps on the board zeroed. -/
def timelessResult (next : Board × Prober) : Board × Prober := (next.1.timeless, next.2)

theorem timeless_sendProbe :
    sendProbe socket4 socket6 io.timeless now b.timeless p =
      timelessResult (sendProbe socket4 socket6 io now b p) := by
  have hrefuse : ∀ p error, refuse io.timeless now b.timeless p error = timelessResult (refuse io now b p error) :=
    fun p error => Prod.ext (timeless_applySample b _ false 0 now _).symm rfl
  have hio : io.timeless.send = io.send := rfl
  unfold sendProbe
  dsimp only
  rw [hio]
  split
  · exact hrefuse _ _
  · split
    · rfl
    · exact hrefuse _ _
    · exact hrefuse _ _

theorem timeless_expire (queue : List InFlight) :
    expire io.timeless now b.timeless p queue = timelessResult (expire io now b p queue) := by
  induction queue generalizing b p with
  | nil => rfl
  | cons oldest rest ih =>
    unfold expire
    split_ifs
    · dsimp only
      rw [← ih, timeless_applySample]
      rfl
    · rfl

theorem timeless_requestLookup :
    requestLookup now b.timeless p = timelessResult (requestLookup now b p) := by
  unfold requestLookup
  split_ifs <;> rfl

theorem timeless_sendDue :
    sendDue socket4 socket6 io.timeless now b.timeless p =
      timelessResult (sendDue socket4 socket6 io now b p) := by
  unfold sendDue
  rw [timeless_sendProbe]
  split_ifs <;> rfl

theorem timeless_tickProber :
    tickProber socket4 socket6 io.timeless now b.timeless p =
      timelessResult (tickProber socket4 socket6 io now b p) := by
  unfold tickProber
  rw [timeless_expire]
  have hasked := timeless_requestLookup now (expire io now b p p.inFlight).1 (expire io now b p p.inFlight).2
  dsimp only [timelessResult] at hasked ⊢
  rw [hasked]
  exact timeless_sendDue ..

end Prober

theorem timeless_loadEntry {options : Options} {entry : DirEntry} {client : Client}
    (h : loadEntry options entry = some client) : client.timeless = client := by
  refine map_destinations_loadEntry (fun members i d hd => ?_) h
  unfold loadDestination at hd
  dsimp only at hd
  split at hd
  · cases hd
  · obtain rfl := Option.some.inj hd
    rfl

theorem timeless_carryOver (client : Client) (previous : List Client) :
    (client.carryOver previous).timeless = client.timeless.carryOver (previous.map Client.timeless) := by
  have hfind : (previous.map Client.timeless).find? (·.id = client.timeless.id) =
      (previous.find? (·.id = client.id)).map Client.timeless := List.find?_map
  unfold Client.carryOver
  rw [hfind]
  cases previous.find? (·.id = client.id) with
  | none => rfl
  | some before =>
    simp only [Option.map_some, Client.timeless, List.map_map]
    refine congrArg (fun destinations => { client with destinations := destinations }) ?_
    refine List.map_congr_left fun d _ => ?_
    have holds : (before.destinations.map Destination.timeless).find? (fun old =>
        old.id = d.timeless.id ∧ old.address = d.timeless.address) =
        (before.destinations.find? fun old => old.id = d.id ∧ old.address = d.address).map
          Destination.timeless := List.find?_map
    dsimp only [Function.comp_apply]
    rw [holds]
    cases before.destinations.find? fun old => old.id = d.id ∧ old.address = d.address <;> rfl

theorem timeless_subscribe (numeric : Bytes → Option Endpoint) (now : ℕ) (previous : List Prober)
    (client : Client) (c : ℕ) (st : Rebuild) (slot : Destination × ℕ) :
    st.subscribe numeric now previous client.timeless c (slot.1.timeless, slot.2) =
      ((st.subscribe numeric now previous client c slot).1,
        (st.subscribe numeric now previous client c slot).2.timeless) := by
  have henabled : slot.1.timeless.enabled = slot.1.enabled := rfl
  unfold Rebuild.subscribe
  dsimp only
  rw [henabled]
  cases slot.1.enabled <;> rfl

theorem timeless_subscribeClient (numeric : Bytes → Option Endpoint) (now : ℕ) (previous : List Prober)
    (st : Rebuild) (slot : Client × ℕ) :
    st.subscribeClient numeric now previous (slot.1.timeless, slot.2) =
      ((st.subscribeClient numeric now previous slot).1, (st.subscribeClient numeric now previous slot).2.timeless) := by
  have hloop : mapAccum (Rebuild.subscribe numeric now previous slot.1.timeless slot.2) (id st)
      (slot.1.destinations.zipIdx.map fun d => (d.1.timeless, d.2)) = _ :=
    mapAccum_hom id (fun d : Destination × ℕ => (d.1.timeless, d.2)) Destination.timeless
      (fun st d => timeless_subscribe numeric now previous slot.1 slot.2 st d) st slot.1.destinations.zipIdx
  have hzip : slot.1.timeless.destinations.zipIdx =
      slot.1.destinations.zipIdx.map fun d => (d.1.timeless, d.2) := List.zipIdx_map ..
  unfold Rebuild.subscribeClient
  dsimp only [id] at hloop ⊢
  rw [hzip, hloop]
  rfl

namespace Monitor
variable (m : Monitor)

theorem timeless_rebuildProbers (numeric : Bytes → Option Endpoint) (now : ℕ) :
    (m.rebuildProbers numeric now).timeless = m.timeless.rebuildProbers numeric now := by
  have hzip : m.timeless.clients.zipIdx = m.clients.zipIdx.map fun slot => (slot.1.timeless, slot.2) :=
    List.zipIdx_map ..
  have hloop : mapAccum (Rebuild.subscribeClient numeric now m.timeless.probers)
      ⟨[], [], [], m.timeless.nextUid⟩ m.timeless.clients.zipIdx = _ :=
    hzip ▸ mapAccum_hom id (fun slot : Client × ℕ => (slot.1.timeless, slot.2)) Client.timeless
      (fun st slot => timeless_subscribeClient numeric now m.probers st slot) ⟨[], [], [], m.nextUid⟩
      m.clients.zipIdx
  unfold rebuildProbers
  dsimp only
  rw [hloop]
  rfl

theorem timeless_reloadClients (numeric : Bytes → Option Endpoint) (now : ℕ) (directory : Directory) :
    (m.reloadClients numeric now directory).timeless = m.timeless.reloadClients numeric now directory := by
  have hloaded : ((loadedClients m.options directory).map (·.carryOver m.clients)).map Client.timeless =
      (loadedClients m.options directory).map (·.carryOver (m.clients.map Client.timeless)) := by
    rw [List.map_map]
    refine List.map_congr_left fun client hclient => ?_
    obtain ⟨entry, hentry⟩ := exists_of_mem_loadedClients hclient
    rw [Function.comp_apply, timeless_carryOver, timeless_loadEntry hentry]
  have hrebuild := timeless_rebuildProbers { m with
    configDirty := false, clients := (loadedClients m.options directory).map (·.carryOver m.clients) } numeric now
  have hstart : Monitor.timeless { m with
      configDirty := false, clients := (loadedClients m.options directory).map (·.carryOver m.clients) } =
      { m.timeless with
        configDirty := false,
        clients := (loadedClients m.options directory).map (·.carryOver (m.clients.map Client.timeless)) } := by
    rw [← hloaded]
    rfl
  rw [hstart] at hrebuild
  unfold reloadClients
  dsimp only
  exact congrArg (fun next : Monitor => { next with stateDirty := true }) hrebuild

theorem timeless_tick (now : ℕ) (io : Io) : (m.tick now io).timeless = m.timeless.tick now io.timeless := by
  have hloop : mapAccum (tickProber m.socket4 m.socket6 io.timeless now) m.toBoard.timeless (m.probers.map id) = _ :=
    mapAccum_hom Board.timeless id id
      (fun b p => timeless_tickProber m.socket4 m.socket6 io now b p) m.toBoard m.probers
  rw [List.map_id, List.map_id] at hloop
  change _ = { m.timeless with
    toBoard := (mapAccum (tickProber m.socket4 m.socket6 io.timeless now) m.toBoard.timeless m.probers).1,
    probers := (mapAccum (tickProber m.socket4 m.socket6 io.timeless now) m.toBoard.timeless m.probers).2 }
  rw [hloop]
  rfl

theorem timeless_handleReply (now : ℕ) (io : Io) (reply : Datagram) :
    (m.handleReply now io reply).timeless = m.timeless.handleReply now io.timeless reply := by
  have hprober : m.timeless.proberOf reply.uid = m.proberOf reply.uid := rfl
  have hcookie : m.timeless.cookie = m.cookie := rfl
  have hsample : ∀ p : Prober, (applySample m.toBoard p true (now - reply.sentUs) now (io.realtime p)).1.timeless =
      (applySample m.timeless.toBoard p true (now - reply.sentUs) now (io.timeless.realtime p)).1 := fun p =>
    timeless_applySample m.toBoard p true (now - reply.sentUs) now (io.realtime p)
  unfold handleReply
  rw [hprober, hcookie]
  split_ifs
  · rfl
  · split
    · rfl
    · split_ifs
      · rfl
      · rfl
      · dsimp only
        rw [← hsample]
        rfl

theorem timeless_handleResolution (now : ℕ) (result : Resolution) :
    (m.handleResolution now result).timeless = m.timeless.handleResolution now result := by
  have hprober : m.timeless.proberOf result.uid = m.proberOf result.uid := rfl
  unfold handleResolution
  rw [hprober]
  split <;> rfl

theorem timeless_expiredClients (realNow : ℕ) (mtime : Bytes → Option ℕ) :
    m.timeless.expiredClients realNow mtime = (m.expiredClients realNow mtime).map Client.timeless :=
  List.filter_map

/-- A step and the zeroing of timestamps commute. -/
theorem timeless_step (numeric : Bytes → Option Endpoint) (event : Event) :
    (m.step numeric event).timeless = m.timeless.step numeric event.timeless := by
  obtain ⟨now, handler⟩ := event
  cases handler with
  | reloadClients directory => exact m.timeless_reloadClients numeric now directory
  | tick io => exact m.timeless_tick now io
  | handleReplies io replies =>
    exact (List.foldl_hom Monitor.timeless fun m reply => (m.timeless_handleReply now io reply).symm).symm
  | handleResolutions results =>
    exact (List.foldl_hom Monitor.timeless fun m result => (m.timeless_handleResolution now result).symm).symm
  | dropExpiredClients after realNow mtime =>
    change (m.dropExpiredClients after realNow mtime).timeless = m.timeless.dropExpiredClients after realNow mtime
    have hoptions : m.timeless.options = m.options := rfl
    have hcheck : m.timeless.lastClientCheckUs = m.lastClientCheckUs := rfl
    have hinterval : m.timeless.clientCheckIntervalUs = m.clientCheckIntervalUs := rfl
    unfold dropExpiredClients
    simp only [timeless_expiredClients, ne_eq, List.map_eq_nil_iff, hoptions, hcheck, hinterval]
    split_ifs <;> rfl
  | noteIdle after =>
    change (m.noteIdle after).timeless = m.timeless.noteIdle after
    have hprobers : m.timeless.probers = m.probers := rfl
    have hidle : m.timeless.idleSinceUs = m.idleSinceUs := rfl
    unfold noteIdle
    rw [hprobers, hidle]
    split_ifs <;> rfl
  | publish force =>
    change (m.publish now force).timeless = m.timeless.publish now force
    have hdue : m.timeless.publishDue now = m.publishDue now := rfl
    have hstate : m.timeless.stateDirty = m.stateDirty := rfl
    have hreadable : m.timeless.lastReadablePublishUs = m.lastReadablePublishUs := rfl
    unfold publish
    simp only [hdue, hstate, hreadable]
    split_ifs <;> rfl
  | flag configChanged shutdown => rfl
  | enter => rfl

end Monitor

section Payload
variable (double : ℚ → ℚ)

theorem destinationJson_timeless (prober : Option Prober) (d : Destination) :
    destinationJson double prober d.timeless false = destinationJson double prober d false := by
  have hoff : (!false) = true := rfl
  unfold destinationJson
  dsimp only
  rw [if_pos hoff, if_pos hoff]
  rfl

theorem clientJson_timeless (probers : List Prober) (client : Client) :
    clientJson double probers client.timeless false = clientJson double probers client false := by
  have htally : ∀ state, client.timeless.tally state = client.tally state := fun state => List.countP_map
  have henabled : client.timeless.enabledCount = client.enabledCount := List.countP_map
  have hlength : client.timeless.destinations.length = client.destinations.length := List.length_map ..
  have hoverall : client.timeless.overall = client.overall := by
    unfold Client.overall
    simp only [htally, henabled]
  have hcounts : client.timeless.counts double = client.counts double := by
    unfold Client.counts
    simp only [htally, henabled, hlength]
  have hprober : ∀ d : Destination, d.timeless.prober = d.prober := fun _ => rfl
  have hdestinations : client.timeless.destinations = client.destinations.map Destination.timeless := rfl
  unfold clientJson
  simp only [hoverall, hcounts, hdestinations, List.foldl_map, destinationJson_timeless, hprober,
    Bool.not_false, if_true]

/-- The payload has no timestamps but its own. -/
theorem payload_timeless (pid : ℕ) (m : Monitor) : m.timeless.payload double pid = m.payload double pid := by
  have hclients : m.timeless.clients = m.clients.map Client.timeless := rfl
  have hprobers : m.timeless.probers = m.probers := rfl
  have hsockets : m.timeless.socket4 = m.socket4 ∧ m.timeless.socket6 = m.socket6 := ⟨rfl, rfl⟩
  have hid : ∀ client : Client, client.timeless.id = client.id := fun _ => rfl
  have hgeneration : m.timeless.generation = m.generation := rfl
  unfold Monitor.payload Monitor.buildStateJson
  simp only [hclients, hprobers, hsockets, hgeneration, List.foldl_map, hid, clientJson_timeless, Bool.not_false,
    if_true]

end Payload

theorem Event.unclocked_eq_timeless {event : Event}
    (h : ∀ after realNow mtime, event.handler ≠ .dropExpiredClients after realNow mtime) :
    event.unclocked = event.timeless := by
  obtain ⟨now, handler⟩ := event
  cases handler with
  | dropExpiredClients after realNow mtime => exact absurd rfl (h after realNow mtime)
  | _ => rfl

/-- The twin of a check for stale files is one. -/
theorem TwinEvent.check {twin : TwinEvent} {after realNow : ℕ} {mtime : Bytes → Option ℕ}
    (h : twin.first.handler = .dropExpiredClients after realNow mtime) :
    ∃ realNow', twin.second = ⟨twin.first.now, .dropExpiredClients after realNow' mtime⟩ := by
  obtain ⟨⟨now, handler⟩, ⟨now', handler'⟩, same⟩ := twin
  dsimp only at h
  subst h
  cases handler' with
  | dropExpiredClients after' realNow' mtime' =>
    simp only [Event.unclocked, Event.mk.injEq, Handler.dropExpiredClients.injEq, true_and] at same
    obtain ⟨rfl, rfl, rfl⟩ := same
    exact ⟨realNow', rfl⟩
  | _ => simp [Event.unclocked] at same

/-- Any other twins are the same to a daemon without timestamps. -/
theorem TwinEvent.timeless {twin : TwinEvent}
    (h : ∀ after realNow mtime, twin.first.handler ≠ .dropExpiredClients after realNow mtime) :
    twin.first.timeless = twin.second.timeless ∧
      ∀ after realNow mtime, twin.second.handler ≠ .dropExpiredClients after realNow mtime := by
  have hsecond : ∀ after realNow mtime, twin.second.handler ≠ .dropExpiredClients after realNow mtime := by
    intro after realNow mtime he
    let swapped : TwinEvent := ⟨twin.second, twin.first, twin.same.symm⟩
    obtain ⟨realNow', hfirst⟩ := swapped.check he
    exact h after realNow' mtime (congrArg Event.handler hfirst)
  exact ⟨by rw [← Event.unclocked_eq_timeless h, ← Event.unclocked_eq_timeless hsecond, twin.same], hsecond⟩

theorem paths_expiredClients (m : Monitor) (realNow : ℕ) (mtime : Bytes → Option ℕ) :
    (m.expiredClients realNow mtime).map Client.path = (m.clients.map Client.path).filter fun path =>
      Stale m.options.clientTimeoutUs realNow mtime path := by
  rw [List.filter_map]
  refine congrArg (List.map Client.path) (List.filter_congr fun client _ => ?_)
  rw [Function.comp_apply, Bool.eq_iff_iff, decide_eq_true_iff]
  unfold Stale
  cases mtime client.path with
  | none => simp
  | some mtimeUs =>
    simp only [Bool.and_eq_true, decide_eq_true_iff, Option.mem_some_iff, exists_eq_left']
    omega

theorem filter_eq_filter_iff {α : Type*} {p q : α → Prop} [DecidablePred p] [DecidablePred q] {xs : List α} :
    xs.filter (p ·) = xs.filter (q ·) ↔ ∀ x ∈ xs, (p x ↔ q x) := by
  refine ⟨fun h x hx => ?_, fun h => List.filter_congr fun x hx => decide_eq_decide.mpr (h x hx)⟩
  have hmem := congrArg (x ∈ ·) h
  simpa [hx] using hmem

namespace Monitor
variable {m m' : Monitor} (after realNow realNow' : ℕ) (mtime : Bytes → Option ℕ)

/-- What the check for stale files reads is free of timestamps. -/
theorem check_congr (h : m.timeless = m'.timeless) :
    m'.options = m.options ∧ (m'.CheckNotDue after ↔ m.CheckNotDue after) ∧
      m'.clients.map Client.path = m.clients.map Client.path := by
  have hfields : ∀ m : Monitor, m.timeless.options = m.options ∧
      (m.timeless.CheckNotDue after ↔ m.CheckNotDue after) ∧
      m.timeless.clients.map Client.path = m.clients.map Client.path := fun m =>
    ⟨rfl, Iff.rfl, by simp [timeless, Board.timeless, Client.timeless]⟩
  obtain ⟨hoptions, hdue, hpaths⟩ := hfields m
  obtain ⟨hoptions', hdue', hpaths'⟩ := hfields m'
  rw [h] at hoptions hdue hpaths
  exact ⟨hoptions'.symm.trans hoptions, hdue'.symm.trans hdue, hpaths'.symm.trans hpaths⟩

theorem removed_check_eq_iff (h : m.timeless = m'.timeless) (now : ℕ) :
    m.removed ⟨now, .dropExpiredClients after realNow mtime⟩ =
        m'.removed ⟨now, .dropExpiredClients after realNow' mtime⟩ ↔
      m.CheckNotDue after ∨ ∀ client ∈ m.clients,
        (Stale m.options.clientTimeoutUs realNow mtime client.path ↔
          Stale m.options.clientTimeoutUs realNow' mtime client.path) := by
  obtain ⟨hoptions, hdue, hpaths⟩ := check_congr after h
  simp only [removed, paths_expiredClients, hoptions, hdue, hpaths]
  by_cases hnot : m.CheckNotDue after
  · exact iff_of_true (by rw [if_pos hnot, if_pos hnot]) (Or.inl hnot)
  · rw [or_iff_right hnot, if_neg hnot, if_neg hnot, filter_eq_filter_iff]
    exact List.forall_mem_map

theorem dropExpiredClients_of_due (m : Monitor) (h : ¬ m.CheckNotDue after) :
    m.dropExpiredClients after realNow mtime =
      { m with
        lastClientCheckUs := after
        configDirty := m.configDirty || m.expiredClients realNow mtime ≠ [] } := if_neg h

/-- With the same files removed, the same is left behind. -/
theorem timeless_check (h : m.timeless = m'.timeless) (now : ℕ)
    (hremoved : m.removed ⟨now, .dropExpiredClients after realNow mtime⟩ =
      m'.removed ⟨now, .dropExpiredClients after realNow' mtime⟩) :
    (m.dropExpiredClients after realNow mtime).timeless = (m'.dropExpiredClients after realNow' mtime).timeless := by
  obtain ⟨-, hdue, -⟩ := check_congr after h
  by_cases hnot : m.CheckNotDue after
  · have hkept : m.dropExpiredClients after realNow mtime = m := if_pos hnot
    have hkept' : m'.dropExpiredClients after realNow' mtime = m' := if_pos (hdue.mpr hnot)
    rw [hkept, hkept', h]
  · have hnot' : ¬ m'.CheckNotDue after := mt hdue.mp hnot
    simp only [removed, if_neg hnot, if_neg hnot'] at hremoved
    have hnone : m.expiredClients realNow mtime = [] ↔ m'.expiredClients realNow' mtime = [] := by
      rw [← List.map_eq_nil_iff (f := Client.path), hremoved, List.map_eq_nil_iff]
    rw [dropExpiredClients_of_due after realNow mtime m hnot,
      dropExpiredClients_of_due after realNow' mtime m' hnot']
    simp only [ne_eq, hnone]
    exact congrArg (fun n : Monitor => { n with
      lastClientCheckUs := after
      configDirty := n.configDirty || decide (¬ m'.expiredClients realNow' mtime = []) }) h

end Monitor

/-- One step of both runs. -/
theorem agree_iff_sameStale (numeric : Bytes → Option Endpoint) {s : Monitor × Monitor}
    (h : s.1.timeless = s.2.timeless) (twin : TwinEvent) : Agree numeric s twin ↔ SameStale s twin := by
  have hagree : ∀ (hstate : (s.1.step numeric twin.first).timeless = (s.2.step numeric twin.second).timeless)
      (hremoved : s.1.removed twin.first = s.2.removed twin.second), Agree numeric s twin := fun hstate hremoved =>
    ⟨hstate, fun double pid => by rw [← payload_timeless, hstate, payload_timeless], hremoved⟩
  by_cases hcheck : ∃ after realNow mtime, twin.first.handler = .dropExpiredClients after realNow mtime
  · obtain ⟨after, realNow, mtime, hhandler⟩ := hcheck
    obtain ⟨realNow', hsecond⟩ := twin.check hhandler
    have hfirst : twin.first = ⟨twin.first.now, .dropExpiredClients after realNow mtime⟩ := by rw [← hhandler]
    have hiff := Monitor.removed_check_eq_iff after realNow realNow' mtime h twin.first.now
    rw [← hfirst, ← hsecond] at hiff
    refine ⟨fun hall after₁ realNow₁ realNow₂ mtime₁ he he' => ?_, fun hsame => ?_⟩
    · rw [hhandler] at he
      rw [hsecond] at he'
      obtain ⟨rfl, rfl, rfl⟩ := Handler.dropExpiredClients.inj he
      obtain ⟨-, rfl, -⟩ := Handler.dropExpiredClients.inj he'
      exact hiff.mp hall.removed
    · have hremoved := hiff.mpr (hsame after realNow realNow' mtime hhandler (by rw [hsecond]))
      refine hagree ?_ hremoved
      rw [hfirst, hsecond] at hremoved ⊢
      exact Monitor.timeless_check after realNow realNow' mtime h _ hremoved
  · have hother : ∀ after realNow mtime, twin.first.handler ≠ .dropExpiredClients after realNow mtime :=
      fun after realNow mtime he => hcheck ⟨after, realNow, mtime, he⟩
    obtain ⟨hevents, hother'⟩ := TwinEvent.timeless hother
    refine iff_of_true (hagree ?_ ?_) fun after realNow _ mtime he => absurd he (hother after realNow mtime)
    · rw [Monitor.timeless_step, Monitor.timeless_step, h, hevents]
    · have hnone : ∀ (m : Monitor) (event : Event),
          (∀ after realNow mtime, event.handler ≠ .dropExpiredClients after realNow mtime) →
            m.removed event = [] := by
        intro m event hne
        unfold Monitor.removed
        split
        · next after realNow mtime he => exact absurd he (hne after realNow mtime)
        · rfl
      rw [hnone s.1 _ hother, hnone s.2 _ hother']

/-- Two runs of the handlers, in any order, that read different wall clocks and otherwise the same:
at every step they agree in all but timestamps if and only if every check for stale files that is
due finds the same files stale. -/
theorem wall_clock_free_iff (numeric : Bytes → Option Endpoint) (options : Options)
    (socket4 socket6 : IcmpSocket) (cookie startedRealUs startedRealUs' : ℕ) (twins : List TwinEvent) :
    let machine := (handlers numeric).twin TwinEvent.first TwinEvent.second
    let start := (Monitor.initial options socket4 socket6 cookie startedRealUs,
      Monitor.initial options socket4 socket6 cookie startedRealUs')
    machine.Admits (Agree numeric) start twins ↔ machine.Admits SameStale start twins :=
  Machine.admits_congr (fun s : Monitor × Monitor => s.1.timeless = s.2.timeless)
    (fun _ twin h => agree_iff_sameStale numeric h twin) (fun _ _ _ hagree => hagree.state) rfl twins

/-- A widget wrote its file a minute ago and the timeout is ten; in one of the runs the clock has
been set an hour ahead since, and the file is removed. -/
theorem wall_clock_removes :
    let directory : Directory := ⟨[⟨ascii "w.json", some (.object [(ascii "destinations",
      .array [.object [(ascii "address", .string (ascii "192.0.2.1"))]])])⟩], by decide⟩
    let mtime : Bytes → Option ℕ := fun _ => some 1000000
    let reload : TwinEvent := ⟨⟨1000, .reloadClients directory⟩, ⟨1000, .reloadClients directory⟩, rfl⟩
    let check : TwinEvent := ⟨⟨61000000, .dropExpiredClients 61000000 61000000 mtime⟩,
      ⟨61000000, .dropExpiredClients 61000000 3661000000 mtime⟩, rfl⟩
    let first := Monitor.initial ⟨[], 1000000, 600000000, 0, 50, by decide, by decide⟩ ⟨true, false, []⟩
      ⟨true, false, []⟩ 5 1000
    let before := ((handlers fun _ => none).twin TwinEvent.first TwinEvent.second).run (first, first) [reload]
    before.1.removed check.first = [] ∧ before.2.removed check.second = [ascii "/clients/w.json"] ∧
      (before.1.step (fun _ => none) check.first).configDirty = false ∧
      (before.2.step (fun _ => none) check.second).configDirty = true ∧
      ¬ ((handlers fun _ => none).twin TwinEvent.first TwinEvent.second).Admits (Agree fun _ => none)
        (first, first) [reload, check] := by
  intro directory mtime reload check first before
  have hkept : before.1.removed check.first = [] := by decide +kernel
  have hremoved : before.2.removed check.second = [ascii "/clients/w.json"] := by decide +kernel
  refine ⟨hkept, hremoved, by decide +kernel, by decide +kernel, fun h => ?_⟩
  have hsame := h.2.1.removed
  change before.1.removed check.first = before.2.removed check.second at hsame
  rw [hkept, hremoved] at hsame
  exact absurd hsame (by decide)

end NetworkHealth.Daemon
