import NetworkHealth.Daemon.Frame

/-! Induction rules for the daemon: what has to be shown of one destination or of one prober
so that it holds of all of them in every state the handlers can reach. -/
namespace NetworkHealth.Daemon

/-- Every destination of every client. -/
def EveryDestination (Inv : Destination → Prop) (clients : List Client) : Prop :=
  ∀ client ∈ clients, ∀ d ∈ client.destinations, Inv d

/-- A destination as it comes out of a client file: its settings are usable and nothing is
known about it. -/
structure Loaded (d : Destination) : Prop where
  trimmed : trimmed d.address = d.address
  address : d.address ≠ []
  id : d.id ≠ []
  threshold : 1 ≤ d.thresholdUs ∧ d.thresholdUs ≤ 60000000
  sensitivity : d.sensitivity ≤ 1000
  state : d.state = .unknown
  samples : d.samples = []
  sent : d.sent = 0
  received : d.received = 0

/-- What the daemon does to destinations. -/
structure DestinationRule (Inv : Destination → Prop) : Prop where
  loaded : ∀ d, Loaded d → Inv d
  carried : ∀ d old, Inv d → Inv old → old.id = d.id → old.address = d.address → Inv (d.carryOver old)
  wired : ∀ d prober, Inv d → Inv { d with prober := prober }
  sampled : ∀ d received rttUs realNow, Inv d → Inv (d.sample received rttUs realNow)

/-- The bounds a client's interval and timeout are clamped to. -/
structure Clamped (intervalUs timeoutUs : ℕ) : Prop where
  interval_ge : 100000 ≤ intervalUs
  interval_le : intervalUs ≤ 3600000000
  timeout_ge : 50000 ≤ timeoutUs
  timeout_le : timeoutUs ≤ 60000000

/-- What a tick does to probers. -/
structure TickRule (now : ℕ) (Inv : Prober → Prop) : Prop where
  gaveUp : ∀ p oldest rest, Inv p → p.inFlight = oldest :: rest →
    oldest.deadlineUs ≤ now + kSendSlackUs → Inv ((p.giveUp oldest rest now).count false 0 now)
  asked : ∀ p, Inv p → Inv { p with resolving := true }
  sent : ∀ p p', Inv p → (∀ oldest ∈ p.inFlight.head?, now + kSendSlackUs < oldest.deadlineUs) →
    p.inFlight.length < p.maxInFlight → p.nextSendUs ≤ now + kSendSlackUs → p.SendOutcome now p' →
    Inv (p'.advance now)

/-- What the daemon does to probers, `t` being the last reading of its clock. -/
structure ProberRule (Inv : ℕ → Prober → Prop) : Prop where
  later : ∀ t t' p, t ≤ t' → Inv t p → Inv t' p
  fresh : ∀ numeric now uid host intervalUs timeoutUs, Clamped intervalUs timeoutUs →
    Inv now (freshProber numeric now uid host intervalUs timeoutUs)
  rewired : ∀ now p subscribers, Inv now p → Inv now
    { p with subscribers := subscribers, maxInFlight := neededInFlight p.intervalUs p.timeoutUs }
  gaveUp : ∀ now p oldest rest, Inv now p → p.inFlight = oldest :: rest →
    oldest.deadlineUs ≤ now + kSendSlackUs → Inv now ((p.giveUp oldest rest now).count false 0 now)
  asked : ∀ now p, Inv now p → Inv now { p with resolving := true }
  sent : ∀ now p p', Inv now p → (∀ oldest ∈ p.inFlight.head?, now + kSendSlackUs < oldest.deadlineUs) →
    p.inFlight.length < p.maxInFlight → p.nextSendUs ≤ now + kSendSlackUs → p.SendOutcome now p' →
    Inv now (p'.advance now)
  answered : ∀ now p q seq rttUs, Inv now p → p.probe seq = some q →
    Inv now ((p.answer seq now).count true rttUs now)
  resolved : ∀ now p result, Inv now p → Inv now (p.resolve now result)

theorem every_modify {α : Type*} {Inv : α → Prop} {xs : List α} (i : ℕ) {f : α → α}
    (hf : ∀ x, Inv x → Inv (f x)) (h : ∀ x ∈ xs, Inv x) : ∀ x ∈ xs.modify i f, Inv x := by
  intro x hx
  obtain ⟨j, hj⟩ := List.mem_iff_getElem?.mp hx
  rw [List.getElem?_modify] at hj
  cases hold : xs[j]? with
  | none => simp [hold] at hj
  | some old =>
    have hinv := h old (List.mem_of_getElem? hold)
    simp only [hold, Option.map_eq_map, Option.map_some, Option.some.injEq] at hj
    subst hj
    split_ifs
    · exact hf old hinv
    · exact hinv

theorem every_modifyDestination {Inv : Destination → Prop} {clients : List Client} (s : Subscriber)
    {f : Destination → Destination} (hf : ∀ d, Inv d → Inv (f d)) (h : EveryDestination Inv clients) :
    EveryDestination Inv (modifyDestination clients s f) :=
  every_modify s.client (fun _ hclient => every_modify s.destination hf hclient) h

/-- A client comes from the object in a file of the right name. -/
theorem loadClientFile_of_loadEntry {options : Options} {entry : DirEntry} {client : Client}
    (h : loadEntry options entry = some client) : hasSuffix entry.name (ascii ".json") = true ∧
      ∃ members, loadClientFile options (options.runtimeDir ++ ascii "/clients/" ++ entry.name)
        (entry.name.take (entry.name.length - 5)) (.object members) = some client := by
  unfold loadEntry at h
  split_ifs at h with hskip
  simp only [not_or, Bool.not_eq_true', Bool.not_eq_false] at hskip
  obtain ⟨document, -, hdocument⟩ := Option.bind_eq_some_iff.mp h
  refine ⟨hskip.2.2, ?_⟩
  cases document with
  | object members => exact ⟨members, hdocument⟩
  | _ => cases hdocument

theorem clamped_of_loadEntry {options : Options} {entry : DirEntry} {client : Client}
    (h : loadEntry options entry = some client) : Clamped client.intervalUs client.timeoutUs := by
  obtain ⟨-, members, hclient⟩ := loadClientFile_of_loadEntry h
  obtain rfl := Option.some.inj hclient
  have hi := le_clampValue (((Json.object members).field (ascii "interval_ms")).toInt 1000)
    (by decide : (100 : ℤ) ≤ 3600000)
  have hi' := clampValue_le (((Json.object members).field (ascii "interval_ms")).toInt 1000)
    (by decide : (100 : ℤ) ≤ 3600000)
  have ht := le_clampValue (((Json.object members).field (ascii "timeout_ms")).toInt 3000)
    (by decide : (50 : ℤ) ≤ 60000)
  have ht' := clampValue_le (((Json.object members).field (ascii "timeout_ms")).toInt 3000)
    (by decide : (50 : ℤ) ≤ 60000)
  constructor <;> dsimp only <;> omega

theorem loaded_of_loadDestination {entry : Json} {i : ℕ} {d : Destination}
    (h : loadDestination entry i = some d) : Loaded d := by
  cases entry <;> simp only [loadDestination, reduceCtorEq] at h
  next members =>
    split at h
    · cases h
    · next haddress =>
      obtain rfl := Option.some.inj h
      have hthreshold := le_clampValue
        (((Json.object members).field (ascii "threshold_us")).toInt 1000)
        (by decide : (1 : ℤ) ≤ 60000000)
      have hthreshold' := clampValue_le
        (((Json.object members).field (ascii "threshold_us")).toInt 1000)
        (by decide : (1 : ℤ) ≤ 60000000)
      have hsensitivity := clampValue_le
        (((Json.object members).field (ascii "sensitivity")).toInt 3)
        (by decide : (0 : ℤ) ≤ 1000)
      refine ⟨trimmed_trimmed _, haddress, ?_, ?_, ?_, rfl, rfl, rfl, rfl⟩
      · dsimp only
        split_ifs with hid
        · simp [ascii]
        · exact hid
      · dsimp only
        omega
      · dsimp only
        omega

/-- The destinations of a client come from the entries of its file. -/
theorem exists_of_loadEntry {options : Options} {entry : DirEntry} {client : Client}
    (h : loadEntry options entry = some client) {d : Destination} (hd : d ∈ client.destinations) :
    ∃ members i, loadDestination (.object members) i = some d := by
  obtain ⟨-, members, hclient⟩ := loadClientFile_of_loadEntry h
  obtain rfl := Option.some.inj hclient
  obtain ⟨⟨json, i⟩, -, hjson⟩ := List.mem_filterMap.mp (List.mem_of_mem_take hd)
  cases json <;> simp only [loadDestination, reduceCtorEq] at hjson
  next members => exact ⟨members, i, hjson⟩

theorem loaded_of_loadEntry {options : Options} {entry : DirEntry} {client : Client}
    (h : loadEntry options entry = some client) {d : Destination} (hd : d ∈ client.destinations) :
    Loaded d := by
  obtain ⟨members, i, hjson⟩ := exists_of_loadEntry h hd
  exact loaded_of_loadDestination hjson

/-- A view of destinations that a loaded one shows as it is. -/
theorem map_destinations_loadEntry {view : Destination → Destination}
    (hview : ∀ members i d, loadDestination (.object members) i = some d → view d = d) {options : Options}
    {entry : DirEntry} {client : Client} (h : loadEntry options entry = some client) :
    { client with destinations := client.destinations.map view } = client := by
  have hall : ∀ d ∈ client.destinations, view d = d := by
    intro d hd
    obtain ⟨members, i, hjson⟩ := exists_of_loadEntry h hd
    exact hview members i d hjson
  rw [(List.map_congr_left hall).trans (List.map_id' _)]

theorem exists_of_mem_loadedClients {options : Options} {directory : Directory} {client : Client}
    (h : client ∈ loadedClients options directory) : ∃ entry, loadEntry options entry = some client := by
  obtain ⟨entry, -, hentry⟩ := List.mem_filterMap.mp ((List.perm_insertionSort _ _).mem_iff.mp h)
  exact ⟨entry, hentry⟩

/-- A carried-over client has its own settings, and destinations that are new or carry over
the state of an old one with their id and address. -/
theorem carryOver_destination {client : Client} {previous : List Client} {d : Destination}
    (h : d ∈ (client.carryOver previous).destinations) :
    d ∈ client.destinations ∨ ∃ before ∈ previous, ∃ old ∈ before.destinations,
      ∃ new ∈ client.destinations, before.id = client.id ∧ old.id = new.id ∧
        old.address = new.address ∧ d = new.carryOver old := by
  unfold Client.carryOver at h
  split at h
  · exact Or.inl h
  · next before hbefore =>
    obtain ⟨new, hnew, rfl⟩ := List.mem_map.mp h
    split
    · exact Or.inl hnew
    · next old hold =>
      have hclient := List.find?_some hbefore
      have hmatch := List.find?_some hold
      simp only [decide_eq_true_eq] at hclient hmatch
      exact Or.inr ⟨before, List.mem_of_find?_eq_some hbefore, old, List.mem_of_find?_eq_some hold,
        new, hnew, hclient, hmatch.1, hmatch.2, rfl⟩

theorem carryOver_interval (client : Client) (previous : List Client) :
    (client.carryOver previous).intervalUs = client.intervalUs ∧
      (client.carryOver previous).timeoutUs = client.timeoutUs := by
  unfold Client.carryOver
  split <;> exact ⟨rfl, rfl⟩

theorem mem_of_recycled {previous : List Prober} {st : Rebuild} {key : Bytes} {i : ℕ} {p : Prober}
    (h : st.recycled previous key = some (i, p)) :
    previous[i]? = some p ∧ p.key = key ∧ i ∉ st.consumed := by
  unfold Rebuild.recycled at h
  split at h
  · next j q hlookup =>
    split_ifs at h with hconsumed
    cases h
    obtain ⟨⟨q, j⟩, hq, he⟩ := List.mem_map.mp (mem_of_lookup hlookup)
    simp only [Prod.mk.injEq] at he
    obtain ⟨hkey, rfl, rfl⟩ := he
    exact ⟨List.mem_zipIdx_iff_getElem?.mp hq, hkey, hconsumed⟩
  · cases h

/-- Where the probers of a rebuild come from: the previous ones, and new ones for the
destinations of the clients. -/
def Origin (numeric : Bytes → Option Endpoint) (now : ℕ) (m : Monitor) (q : Prober) : Prop :=
  q ∈ m.probers ∨ ∃ uid host, ∃ client ∈ m.clients,
    q = freshProber numeric now uid host client.intervalUs client.timeoutUs

theorem origin_addProber (numeric : Bytes → Option Endpoint) (now : ℕ) (m : Monitor) {client : Client}
    (hclient : client ∈ m.clients) (st : Rebuild) (host : Bytes)
    (h : ∀ p ∈ st.probers, ∃ q subscribers, Origin numeric now m q ∧ p = { q with subscribers := subscribers }) :
    ∀ p ∈ (st.addProber numeric now m.probers host client.intervalUs client.timeoutUs).probers,
      ∃ q subscribers, Origin numeric now m q ∧ p = { q with subscribers := subscribers } := by
  intro p hp
  unfold Rebuild.addProber at hp
  dsimp only at hp
  split at hp
  · next i old hold =>
    rcases List.mem_append.mp hp with hp | hp
    · exact h p hp
    · exact ⟨old, [], Or.inl (List.mem_of_getElem? (mem_of_recycled hold).1), List.mem_singleton.mp hp⟩
  · rcases List.mem_append.mp hp with hp | hp
    · exact h p hp
    · rw [List.mem_singleton.mp hp]
      exact ⟨_, [], Or.inr ⟨_, host, client, hclient, rfl⟩, rfl⟩

theorem origin_subscribe (numeric : Bytes → Option Endpoint) (now : ℕ) (m : Monitor) {client : Client}
    (hclient : client ∈ m.clients) (c : ℕ) (st : Rebuild) (slot : Destination × ℕ)
    (h : ∀ p ∈ st.probers, ∃ q subscribers, Origin numeric now m q ∧ p = { q with subscribers := subscribers }) :
    ∀ p ∈ (st.subscribe numeric now m.probers client c slot).1.probers,
      ∃ q subscribers, Origin numeric now m q ∧ p = { q with subscribers := subscribers } := by
  unfold Rebuild.subscribe
  split
  · exact h
  · refine every_modify _ ?_ ?_
    · rintro p ⟨q, subscribers, hq, rfl⟩
      exact ⟨q, _, hq, rfl⟩
    · split
      · exact h
      · exact origin_addProber numeric now m hclient st _ h

/-- Every prober after a rebuild is one of its origins, with its subscribers set anew. -/
theorem origin_rebuildProbers (numeric : Bytes → Option Endpoint) (now : ℕ) (m : Monitor) :
    ∀ p ∈ (m.rebuildProbers numeric now).probers, ∃ q subscribers, Origin numeric now m q ∧
      p = { q with subscribers := subscribers, maxInFlight := neededInFlight q.intervalUs q.timeoutUs } := by
  intro p hp
  obtain ⟨p', hp', rfl⟩ := List.mem_map.mp hp
  have hall := mapAccum_keeps (f := Rebuild.subscribeClient numeric now m.probers)
    (fun st : Rebuild => ∀ p ∈ st.probers, ∃ q subscribers, Origin numeric now m q ∧
      p = { q with subscribers := subscribers }) m.clients.zipIdx
    (fun st slot hslot hst => mapAccum_keeps _ _ (fun st dest _ hst =>
      origin_subscribe numeric now m (List.fst_mem_of_mem_zipIdx hslot) slot.2 st dest hst) hst)
    (s := ⟨[], [], [], m.nextUid⟩) (by simp)
  obtain ⟨q, subscribers, hq, rfl⟩ := hall p' hp'
  exact ⟨q, subscribers, hq, rfl⟩

namespace DestinationRule
variable {Inv : Destination → Prop} (rule : DestinationRule Inv)
include rule

theorem boardRule (subscribers : List Subscriber) :
    BoardRule subscribers fun b => EveryDestination Inv b.clients where
  sampled b s _ received rttUs realNow h := by
    unfold Board.sampleAt
    split
    · exact h
    · exact every_modifyDestination s (fun d => rule.sampled d received rttUs realNow) h
  noted _ h := h
  asked _ _ h := h

theorem handleReply {m : Monitor} (h : EveryDestination Inv m.clients) (now : ℕ) (io : Io)
    (reply : Datagram) : EveryDestination Inv (m.handleReply now io reply).clients := by
  rcases m.handleReply_cases io now reply with he | ⟨i, p, q, -, -, -, -, he⟩ <;> rw [he]
  · exact h
  · exact (rule.boardRule p.subscribers).applySample h true _ now _

theorem rebuildProbers {m : Monitor} (h : EveryDestination Inv m.clients)
    (numeric : Bytes → Option Endpoint) (now : ℕ) :
    EveryDestination Inv (m.rebuildProbers numeric now).clients := by
  intro client hclient d hd
  obtain ⟨⟨before, c⟩, hbefore, st, -, rfl⟩ :=
    exists_of_mem_mapAccum (fun _ => True) _ (fun _ _ _ _ => trivial) trivial hclient
  obtain ⟨⟨old, i⟩, hold, st', -, rfl⟩ :=
    exists_of_mem_mapAccum (fun _ => True) _ (fun _ _ _ _ => trivial) trivial hd
  have hinv := h before (List.fst_mem_of_mem_zipIdx hbefore) old (List.fst_mem_of_mem_zipIdx hold)
  unfold Rebuild.subscribe
  dsimp only
  split_ifs <;> exact rule.wired old _ hinv

theorem reloadClients {m : Monitor} (h : EveryDestination Inv m.clients)
    (numeric : Bytes → Option Endpoint) (now : ℕ) (directory : Directory) :
    EveryDestination Inv (m.reloadClients numeric now directory).clients := by
  refine rule.rebuildProbers (m := { m with
    configDirty := false, clients := (loadedClients m.options directory).map (·.carryOver m.clients) })
    ?_ numeric now
  intro client hclient d hd
  obtain ⟨loaded, hloaded, rfl⟩ := List.mem_map.mp hclient
  obtain ⟨entry, hentry⟩ := exists_of_mem_loadedClients hloaded
  have hnew : ∀ new ∈ loaded.destinations, Inv new := fun new hnew =>
    rule.loaded new (loaded_of_loadEntry hentry hnew)
  rcases carryOver_destination hd with hd | ⟨before, hbefore, old, hold, new, hmem, -, hid, haddress, rfl⟩
  · exact hnew d hd
  · exact rule.carried new old (hnew new hmem) (h before hbefore old hold) hid haddress

theorem tick {m : Monitor} (h : EveryDestination Inv m.clients) (now : ℕ) (io : Io) :
    EveryDestination Inv (m.tick now io).clients :=
  mapAccum_keeps (fun b : Board => EveryDestination Inv b.clients) m.probers
    (fun _ p _ hb => (rule.boardRule p.subscribers).tickProber m.socket4 m.socket6 io now hb) h

theorem handleReplies {m : Monitor} (h : EveryDestination Inv m.clients) (now : ℕ) (io : Io)
    (replies : List Datagram) : EveryDestination Inv (m.handleReplies now io replies).clients :=
  Machine.foldl_keeps (fun m : Monitor => EveryDestination Inv m.clients)
    (fun _ reply hm => rule.handleReply hm now io reply) h replies

theorem step (numeric : Bytes → Option Endpoint) {m : Monitor} (h : EveryDestination Inv m.clients)
    (event : Event) : EveryDestination Inv (m.step numeric event).clients := by
  obtain ⟨now, handler⟩ := event
  cases handler with
  | reloadClients directory => exact rule.reloadClients h numeric now directory
  | tick io => exact rule.tick h now io
  | handleReplies io replies => exact rule.handleReplies h now io replies
  | handleResolutions results => rwa [Monitor.step, Monitor.clients_handleResolutions]
  | dropExpiredClients after realNow mtime =>
    rwa [Monitor.step, (Monitor.quiet_dropExpiredClients ..).1]
  | noteIdle after => rwa [Monitor.step, (Monitor.quiet_noteIdle ..).1]
  | publish force => rwa [Monitor.step, (Monitor.quiet_publish ..).1]
  | flag configChanged shutdown => exact h
  | enter => exact h

/-- What holds of a destination by the rule holds of all of them in every reachable state. -/
theorem run (numeric : Bytes → Option Endpoint) {m : Monitor} (h : EveryDestination Inv m.clients)
    (events : List Event) : EveryDestination Inv ((handlers numeric).run m events).clients :=
  Machine.run_keeps (fun m : Monitor => EveryDestination Inv m.clients)
    (fun _ event h => rule.step numeric h event) h events

theorem reachable (numeric : Bytes → Option Endpoint) (options : Options)
    (socket4 socket6 : IcmpSocket) (cookie startedRealUs : ℕ) (events : List Event) :
    EveryDestination Inv ((handlers numeric).run
      (.initial options socket4 socket6 cookie startedRealUs) events).clients :=
  rule.run numeric (fun _ h => absurd h (by simp [Monitor.initial])) events

end DestinationRule

theorem TickRule.tickProber {now : ℕ} {Inv : Prober → Prop} (rule : TickRule now Inv)
    (socket4 socket6 : IcmpSocket) (io : Io) (b : Board) {p : Prober} (h : Inv p) :
    Inv (tickProber socket4 socket6 io now b p).2 := by
  have hexpire : Inv (expire io now b p p.inFlight).2 := expire_keeps io now b p Inv rule.gaveUp h
  have hfront : ∀ oldest ∈ (expire io now b p p.inFlight).2.inFlight.head?,
      now + kSendSlackUs < oldest.deadlineUs := by
    intro oldest holdest
    rw [inFlight_expire] at holdest
    exact lt_deadline_unexpired now p holdest
  have hasked : Inv (requestLookup now (expire io now b p p.inFlight).1
      (expire io now b p p.inFlight).2).2 ∧ (requestLookup now (expire io now b p p.inFlight).1
      (expire io now b p p.inFlight).2).2.inFlight = (expire io now b p p.inFlight).2.inFlight := by
    unfold requestLookup
    split_ifs
    · exact ⟨rule.asked _ hexpire, rfl⟩
    · exact ⟨hexpire, rfl⟩
  unfold Daemon.tickProber sendDue
  dsimp only
  split_ifs with hdue
  · exact rule.sent _ _ hasked.1 (by rw [hasked.2]; exact hfront) hdue.1 hdue.2 (sendOutcome_sendProbe ..)
  · exact hasked.1

theorem TickRule.tick {now : ℕ} {Inv : Prober → Prop} (rule : TickRule now Inv) {m : Monitor}
    (h : ∀ p ∈ m.probers, Inv p) (io : Io) : ∀ p ∈ (m.tick now io).probers, Inv p := by
  intro p hp
  obtain ⟨q, hq, b, -, rfl⟩ :=
    exists_of_mem_mapAccum (fun _ => True) m.probers (fun _ _ _ _ => trivial) trivial hp
  exact rule.tickProber m.socket4 m.socket6 io b (h q hq)

namespace ProberRule
variable {Inv : ℕ → Prober → Prop} (rule : ProberRule Inv)
include rule

theorem tickRule (now : ℕ) : TickRule now (Inv now) where
  gaveUp := rule.gaveUp now
  asked := rule.asked now
  sent := rule.sent now

theorem reloadClients {m : Monitor} {now : ℕ} (h : ∀ p ∈ m.probers, Inv now p)
    (numeric : Bytes → Option Endpoint) (directory : Directory) :
    ∀ p ∈ (m.reloadClients numeric now directory).probers, Inv now p := by
  intro p hp
  obtain ⟨q, subscribers, horigin, rfl⟩ := origin_rebuildProbers numeric now { m with
    configDirty := false, clients := (loadedClients m.options directory).map (·.carryOver m.clients) } p hp
  refine rule.rewired now q subscribers ?_
  rcases horigin with hq | ⟨uid, host, client, hclient, rfl⟩
  · exact h q hq
  · obtain ⟨loaded, hloaded, rfl⟩ := List.mem_map.mp hclient
    obtain ⟨entry, hentry⟩ := exists_of_mem_loadedClients hloaded
    rw [(carryOver_interval loaded m.clients).1, (carryOver_interval loaded m.clients).2]
    exact rule.fresh numeric now uid host _ _ (clamped_of_loadEntry hentry)

theorem handleReply {m : Monitor} {now : ℕ} (h : ∀ p ∈ m.probers, Inv now p) (io : Io)
    (reply : Datagram) : ∀ p ∈ (m.handleReply now io reply).probers, Inv now p := by
  rcases m.handleReply_cases io now reply with he | ⟨i, p, q, hp, hprobe, -, -, he⟩ <;> rw [he]
  · exact h
  · intro p' hp'
    rcases List.mem_or_eq_of_mem_set hp' with hp' | rfl
    · exact h p' hp'
    · exact rule.answered now p q _ _
        (h p (List.mem_of_getElem? (Monitor.proberOf_eq_some.mp hp).2)) hprobe

theorem handleResolution {m : Monitor} {now : ℕ} (h : ∀ p ∈ m.probers, Inv now p) (result : Resolution) :
    ∀ p ∈ (m.handleResolution now result).probers, Inv now p := by
  rcases m.handleResolution_cases now result with he | ⟨i, p, dirty, hp, he⟩ <;> rw [he]
  · exact h
  · intro p' hp'
    rcases List.mem_or_eq_of_mem_set hp' with hp' | rfl
    · exact h p' hp'
    · exact rule.resolved now p result
        (h p (List.mem_of_getElem? (Monitor.proberOf_eq_some.mp hp).2))

theorem handleReplies {m : Monitor} {now : ℕ} (h : ∀ p ∈ m.probers, Inv now p) (io : Io)
    (replies : List Datagram) : ∀ p ∈ (m.handleReplies now io replies).probers, Inv now p :=
  Machine.foldl_keeps (fun m : Monitor => ∀ p ∈ m.probers, Inv now p)
    (fun _ reply hm => rule.handleReply hm io reply) h replies

theorem handleResolutions {m : Monitor} {now : ℕ} (h : ∀ p ∈ m.probers, Inv now p)
    (results : List Resolution) : ∀ p ∈ (m.handleResolutions now results).probers, Inv now p :=
  Machine.foldl_keeps (fun m : Monitor => ∀ p ∈ m.probers, Inv now p)
    (fun _ result hm => rule.handleResolution hm result) h results

theorem step (numeric : Bytes → Option Endpoint) {t : ℕ} {m : Monitor} (event : Event)
    (h : ∀ p ∈ m.probers, Inv t p) (ht : t ≤ event.now) :
    ∀ p ∈ (m.step numeric event).probers, Inv event.now p := by
  obtain ⟨now, handler⟩ := event
  have hnow : ∀ p ∈ m.probers, Inv now p := fun p hp => rule.later t now p ht (h p hp)
  cases handler with
  | reloadClients directory => exact rule.reloadClients hnow numeric directory
  | tick io => exact (rule.tickRule now).tick hnow io
  | handleReplies io replies => exact rule.handleReplies hnow io replies
  | handleResolutions results => exact rule.handleResolutions hnow results
  | dropExpiredClients after realNow mtime =>
    rwa [Monitor.step, (Monitor.quiet_dropExpiredClients ..).2]
  | noteIdle after => rwa [Monitor.step, (Monitor.quiet_noteIdle ..).2]
  | publish force => rwa [Monitor.step, (Monitor.quiet_publish ..).2]
  | flag configChanged shutdown => exact hnow
  | enter => exact hnow

/-- What holds of a prober by the rule holds of all of them in every state that a timed run
reaches. -/
theorem run (numeric : Bytes → Option Endpoint) {t : ℕ} {m : Monitor} (h : ∀ p ∈ m.probers, Inv t p)
    {events : List Event} (hevents : Machine.Timed Event.now t events) :
    ∃ t', t ≤ t' ∧ (∀ event ∈ events, event.now ≤ t') ∧
      ∀ p ∈ ((handlers numeric).run m events).probers, Inv t' p :=
  Machine.run_timed Event.now (fun t (m : Monitor) => ∀ p ∈ m.probers, Inv t p)
    (fun _ _ event h ht => rule.step numeric event h ht) h hevents

theorem reachable (numeric : Bytes → Option Endpoint) (options : Options)
    (socket4 socket6 : IcmpSocket) (cookie startedRealUs : ℕ) {events : List Event}
    (hevents : Machine.Timed Event.now 0 events) :
    ∃ t, ∀ p ∈ ((handlers numeric).run
      (.initial options socket4 socket6 cookie startedRealUs) events).probers, Inv t p := by
  obtain ⟨t, -, -, h⟩ := rule.run numeric
    (m := .initial options socket4 socket6 cookie startedRealUs) (t := 0)
    (fun _ h => absurd h (by simp [Monitor.initial])) hevents
  exact ⟨t, h⟩

omit rule in
/-- What does not speak of the time holds at any times. -/
theorem always {Inv : Prober → Prop} (rule : ProberRule fun _ p => Inv p)
    (numeric : Bytes → Option Endpoint) (options : Options)
    (socket4 socket6 : IcmpSocket) (cookie startedRealUs : ℕ) (events : List Event) :
    ∀ p ∈ ((handlers numeric).run
      (.initial options socket4 socket6 cookie startedRealUs) events).probers, Inv p :=
  Machine.run_keeps (fun m : Monitor => ∀ p ∈ m.probers, Inv p)
    (fun _ event h => rule.step numeric event h (Nat.zero_le _))
    (fun _ h => absurd h (by simp [Monitor.initial])) events

end ProberRule

/-- Where the probers come from that a handler other than `tick` leaves behind, as far as can
be told from a view of a prober that such handlers do not change. -/
theorem view_step {β : Type*} (view : Prober → β) (numeric : Bytes → Option Endpoint) (m : Monitor)
    (event : Event) (hevent : ∀ io, event.handler ≠ .tick io)
    (hrewired : ∀ p subscribers n, view { p with subscribers := subscribers, maxInFlight := n } = view p)
    (hanswered : ∀ io replies, event.handler = .handleReplies io replies →
      ∀ p seq rttUs now, view ((Prober.answer p seq now).count true rttUs now) = view p)
    (hresolved : ∀ results, event.handler = .handleResolutions results →
      ∀ p now result, view (Prober.resolve p now result) = view p) :
    ∀ p ∈ (m.step numeric event).probers, (∃ q ∈ m.probers, view p = view q) ∨
      ∃ uid host intervalUs timeoutUs,
        view p = view (freshProber numeric event.now uid host intervalUs timeoutUs) := by
  have hset : ∀ m' : Monitor, (∀ p ∈ m'.probers, ∃ q ∈ m.probers, view p = view q) → ∀ i old new,
      m'.probers[i]? = some old → view new = view old →
      ∀ p ∈ m'.probers.set i new, ∃ q ∈ m.probers, view p = view q := by
    intro m' hm' i old new hold hview p hp
    rcases List.mem_or_eq_of_mem_set hp with hp | rfl
    · exact hm' p hp
    · rw [hview]
      exact hm' old (List.mem_of_getElem? hold)
  have hself : ∀ p ∈ m.probers, ∃ q ∈ m.probers, view p = view q := fun p hp => ⟨p, hp, rfl⟩
  obtain ⟨now, handler⟩ := event
  cases handler with
  | reloadClients directory =>
    intro p hp
    obtain ⟨q, subscribers, hq | ⟨uid, host, client, -, rfl⟩, rfl⟩ :=
      origin_rebuildProbers numeric now { m with
        configDirty := false, clients := (loadedClients m.options directory).map (·.carryOver m.clients) } p hp
    · exact Or.inl ⟨q, hq, hrewired q subscribers _⟩
    · exact Or.inr ⟨uid, host, client.intervalUs, client.timeoutUs, hrewired _ subscribers _⟩
  | tick io => exact absurd rfl (hevent io)
  | handleReplies io replies =>
    refine fun p hp => Or.inl (Machine.foldl_keeps (f := Monitor.handleReply now io)
      (fun m' : Monitor => ∀ p ∈ m'.probers, ∃ q ∈ m.probers, view p = view q)
      (fun m' reply hm' => ?_) hself replies p hp)
    obtain he | ⟨i, old, -, hold, -, -, -, he⟩ := m'.handleReply_cases io now reply <;> rw [he]
    · exact hm'
    · exact hset m' hm' i old _ (Monitor.proberOf_eq_some.mp hold).2 (hanswered io replies rfl old _ _ _)
  | handleResolutions results =>
    refine fun p hp => Or.inl (Machine.foldl_keeps (f := Monitor.handleResolution now)
      (fun m' : Monitor => ∀ p ∈ m'.probers, ∃ q ∈ m.probers, view p = view q)
      (fun m' result hm' => ?_) hself results p hp)
    obtain he | ⟨i, old, dirty, hold, he⟩ := m'.handleResolution_cases now result <;> rw [he]
    · exact hm'
    · exact hset m' hm' i old _ (Monitor.proberOf_eq_some.mp hold).2 (hresolved results rfl old _ _)
  | dropExpiredClients after realNow mtime =>
    rw [Monitor.step, (Monitor.quiet_dropExpiredClients ..).2]
    exact fun p hp => Or.inl (hself p hp)
  | noteIdle after =>
    rw [Monitor.step, (Monitor.quiet_noteIdle ..).2]
    exact fun p hp => Or.inl (hself p hp)
  | publish force =>
    rw [Monitor.step, (Monitor.quiet_publish ..).2]
    exact fun p hp => Or.inl (hself p hp)
  | flag configChanged shutdown => exact fun p hp => Or.inl (hself p hp)
  | enter => exact fun p hp => Or.inl (hself p hp)

theorem name_of_loadEntry {options : Options} {entry : DirEntry} {client : Client}
    (h : loadEntry options entry = some client) : entry.name = client.id ++ ascii ".json" := by
  obtain ⟨hname, members, hclient⟩ := loadClientFile_of_loadEntry h
  obtain rfl := Option.some.inj hclient
  have hsuffix : ascii ".json" <:+ entry.name := by simpa [hasSuffix] using hname
  obtain ⟨stem, hstem⟩ := hsuffix
  have hlength : entry.name.length - 5 = stem.length := by
    rw [← hstem, List.length_append, show (ascii ".json").length = 5 from rfl, Nat.add_sub_cancel]
  change entry.name = entry.name.take (entry.name.length - 5) ++ ascii ".json"
  rw [hlength, ← hstem, List.take_left]

theorem nodup_ids_loadedClients (options : Options) (directory : Directory) :
    ((loadedClients options directory).map Client.id).Nodup := by
  have hloaded : ((directory.entries.filterMap (loadEntry options)).map Client.id).Nodup := by
    refine List.pairwise_map.mpr ((List.pairwise_map.mp directory.nodup).filterMap _ ?_)
    intro entry entry' hne client hclient client' hclient' hsame
    refine hne ?_
    rw [name_of_loadEntry hclient, name_of_loadEntry hclient', hsame]
  exact ((List.perm_insertionSort _ _).map Client.id).nodup_iff.mpr hloaded

section ClientView
variable {β : Type*} {view : Client → β} (hview : ∀ (client : Client) i received rttUs realNow,
  view { client with destinations := client.destinations.modify i (·.sample received rttUs realNow) } = view client)
include hview

theorem view_boardRule (b : Board) (subscribers : List Subscriber) :
    BoardRule subscribers fun b' => b'.clients.map view = b.clients.map view where
  sampled b' s _ received rttUs realNow h := by
    unfold Board.sampleAt
    split
    · exact h
    · exact (map_modify_eq (fun client => hview client s.destination received rttUs realNow) _ _).trans h
  noted _ h := h
  asked _ _ h := h

/-- What sampling leaves alone in the clients, only a reload changes. -/
theorem map_clients_step (numeric : Bytes → Option Endpoint) (m : Monitor) (event : Event)
    (hquiet : ∀ directory, event.handler ≠ .reloadClients directory) :
    (m.step numeric event).clients.map view = m.clients.map view := by
  obtain ⟨now, handler⟩ := event
  cases handler with
  | reloadClients directory => exact absurd rfl (hquiet directory)
  | tick io =>
    exact mapAccum_keeps (fun b : Board => b.clients.map view = m.clients.map view) m.probers
      (fun b p _ hb => ((view_boardRule hview b p.subscribers).tickProber m.socket4 m.socket6 io now rfl).trans hb) rfl
  | handleReplies io replies =>
    refine Machine.foldl_keeps (f := Monitor.handleReply now io)
      (fun m' : Monitor => m'.clients.map view = m.clients.map view) (fun m' reply hm' => ?_) rfl replies
    obtain he | ⟨i, p, q, -, -, -, -, he⟩ := m'.handleReply_cases io now reply <;> rw [he]
    · exact hm'
    · exact ((view_boardRule hview m'.toBoard (p.answer reply.seq now).subscribers).applySample rfl true _ now _).trans hm'
  | handleResolutions results => rw [Monitor.step, Monitor.clients_handleResolutions]
  | dropExpiredClients after realNow mtime =>
    rw [Monitor.step, (Monitor.quiet_dropExpiredClients ..).1]
  | noteIdle after => rw [Monitor.step, (Monitor.quiet_noteIdle ..).1]
  | publish force => rw [Monitor.step, (Monitor.quiet_publish ..).1]
  | flag configChanged shutdown => rfl
  | enter => rfl

end ClientView

theorem id_carryOver (client : Client) (previous : List Client) :
    (client.carryOver previous).id = client.id := by
  unfold Client.carryOver
  split <;> rfl

theorem ids_rebuildProbers (numeric : Bytes → Option Endpoint) (now : ℕ) (m : Monitor) :
    (m.rebuildProbers numeric now).clients.map Client.id = m.clients.map Client.id := by
  refine (map_mapAccum (fun slot : Client × ℕ => slot.1.id) Client.id (fun _ _ => rfl) _ _).trans ?_
  change m.clients.zipIdx.map (Client.id ∘ Prod.fst) = _
  rw [← List.map_map, List.zipIdx_map_fst]

/-- Two clients never have the same id. -/
theorem nodup_ids_step (numeric : Bytes → Option Endpoint) {m : Monitor}
    (h : (m.clients.map Client.id).Nodup) (event : Event) :
    ((m.step numeric event).clients.map Client.id).Nodup := by
  by_cases hquiet : ∃ directory, event.handler = .reloadClients directory
  · obtain ⟨directory, hdirectory⟩ := hquiet
    unfold Monitor.step
    rw [hdirectory]
    change ((Monitor.rebuildProbers numeric event.now { m with
      configDirty := false, clients := (loadedClients m.options directory).map (·.carryOver m.clients) }
        ).clients.map Client.id).Nodup
    rw [ids_rebuildProbers, List.map_map, show Client.id ∘ (·.carryOver m.clients) = Client.id from
      funext fun client => id_carryOver client m.clients]
    exact nodup_ids_loadedClients m.options directory
  · rwa [map_clients_step (fun _ _ _ _ _ => rfl) numeric m event fun directory he => hquiet ⟨directory, he⟩]

theorem nodup_ids_run (numeric : Bytes → Option Endpoint) (options : Options)
    (socket4 socket6 : IcmpSocket) (cookie startedRealUs : ℕ) (events : List Event) :
    (((handlers numeric).run (.initial options socket4 socket6 cookie startedRealUs) events).clients.map
      Client.id).Nodup :=
  Machine.run_keeps (fun m : Monitor => (m.clients.map Client.id).Nodup)
    (fun _ event h => nodup_ids_step numeric h event) (by simp [Monitor.initial]) events

end NetworkHealth.Daemon
