import NetworkHealth.Daemon.Wiring

/-! The representation invariant of the probers, over all orders of the handlers: wiring,
identities, uids and bounds. The uid counter is 32 bits wide, so uids stay apart only as
long as it has not come around. -/
namespace NetworkHealth.Daemon

/-- Handed out while the counter went from `first` to `next`. -/
def HandedOut (first next uid : ℕ) : Prop := ∃ k, first ≤ k ∧ k < next ∧ uid = k % 2 ^ 32

theorem HandedOut.ne {middle next uid uid' : ℕ} (h : HandedOut 1 middle uid)
    (h' : HandedOut middle next uid') (hnext : next ≤ 2 ^ 32 + 1) : uid ≠ uid' := by
  obtain ⟨k, hk, hlt, rfl⟩ := h
  obtain ⟨k', hk', hlt', rfl⟩ := h'
  omega

theorem HandedOut.mono {first next uid first' next' : ℕ} (h : HandedOut first next uid)
    (hfirst : first' ≤ first) (hnext : next ≤ next') : HandedOut first' next' uid := by
  obtain ⟨k, hk, hlt, he⟩ := h
  exact ⟨k, hfirst.trans hk, hlt.trans_le hnext, he⟩

/-- The uids of a rebuild so far: each from another previous prober, or new. -/
structure Rebuild.Numbered (previous : List Prober) (first : ℕ) (st : Rebuild) : Prop where
  le : first ≤ st.nextUid
  origin : ∀ p ∈ st.probers, (∃ i ∈ st.consumed, (previous.map Prober.uid)[i]? = some p.uid) ∨
    HandedOut first st.nextUid p.uid
  distinct : st.nextUid ≤ 2 ^ 32 + 1 → (st.probers.map Prober.uid).Nodup

namespace Rebuild
variable (numeric : Bytes → Option Endpoint) (now : ℕ) {previous : List Prober} {first : ℕ} {st : Rebuild}

theorem Numbered.addProber (h : st.Numbered previous first) (hfirst : 1 ≤ first)
    (hdistinct : first ≤ 2 ^ 32 + 1 → (previous.map Prober.uid).Nodup)
    (hhanded : ∀ p ∈ previous, HandedOut 1 first p.uid) (host : Bytes) (intervalUs timeoutUs : ℕ) :
    (st.addProber numeric now previous host intervalUs timeoutUs).Numbered previous first := by
  unfold Rebuild.addProber
  dsimp only
  split
  · next i q hrecycled =>
    obtain ⟨hq, -, hunused⟩ := mem_of_recycled hrecycled
    have huid : (previous.map Prober.uid)[i]? = some q.uid := by rw [List.getElem?_map, hq]; rfl
    refine ⟨h.le, fun p hp => ?_, fun hnext => ?_⟩
    · rcases List.mem_append.mp hp with hold | hnew
      · rcases h.origin p hold with ⟨j, hj, hp⟩ | hp
        · exact Or.inl ⟨j, List.mem_cons_of_mem i hj, hp⟩
        · exact Or.inr hp
      · rw [List.mem_singleton.mp hnew]
        exact Or.inl ⟨i, List.mem_cons_self, huid⟩
    · rw [List.map_append, List.map_singleton, ← List.concat_eq_append]
      refine List.Nodup.concat (fun hmem => ?_) (h.distinct hnext)
      obtain ⟨p, hp, hsame⟩ := List.mem_map.mp hmem
      rcases h.origin p hp with ⟨j, hj, hpj⟩ | hpnew
      · have hij : j = i := (List.getElem?_inj (List.getElem?_eq_some_iff.mp hpj).1
          (hdistinct (h.le.trans hnext))).mp (by rw [hpj, huid, hsame])
        exact hunused (hij ▸ hj)
      · exact (hhanded q (List.mem_of_getElem? hq)).ne hpnew hnext hsame.symm
  · have hnew : HandedOut st.nextUid (st.nextUid + 1) (st.nextUid % 2 ^ 32) :=
      ⟨st.nextUid, le_rfl, Nat.lt_succ_self _, rfl⟩
    refine ⟨h.le.trans (Nat.le_succ _), fun p hp => ?_, fun hnext => ?_⟩
    · rcases List.mem_append.mp hp with hold | hlast
      · exact (h.origin p hold).imp_right fun hp => hp.mono le_rfl (Nat.le_succ _)
      · rw [List.mem_singleton.mp hlast]
        exact Or.inr (hnew.mono h.le le_rfl)
    · rw [List.map_append, List.map_singleton, ← List.concat_eq_append]
      refine List.Nodup.concat (fun hmem => ?_) (h.distinct ((Nat.le_succ _).trans hnext))
      obtain ⟨p, hp, hsame⟩ := List.mem_map.mp hmem
      have hbefore : HandedOut 1 st.nextUid p.uid := by
        rcases h.origin p hp with ⟨j, -, hpj⟩ | hpnew
        · obtain ⟨q, hq, hquid⟩ := List.mem_map.mp (List.mem_of_getElem? hpj)
          exact hquid ▸ (hhanded q hq).mono le_rfl h.le
        · exact hpnew.mono hfirst le_rfl
      exact hbefore.ne hnew hnext hsame

theorem Numbered.subscribe (h : st.Numbered previous first) (hfirst : 1 ≤ first)
    (hdistinct : first ≤ 2 ^ 32 + 1 → (previous.map Prober.uid).Nodup)
    (hhanded : ∀ p ∈ previous, HandedOut 1 first p.uid) (client : Client) (c : ℕ)
    (slot : Destination × ℕ) :
    (st.subscribe numeric now previous client c slot).1.Numbered previous first := by
  have hmodify : ∀ (st : Rebuild) (i : ℕ) (s : Subscriber), st.Numbered previous first →
      { st with probers := st.probers.modify i fun p =>
        { p with subscribers := p.subscribers ++ [s] } }.Numbered previous first := by
    intro st i s h
    refine ⟨h.le, every_modify i (fun p hp => hp) h.origin, fun hnext => ?_⟩
    dsimp only
    rw [map_modify_eq]
    · exact h.distinct hnext
    · exact fun _ => rfl
  unfold Rebuild.subscribe
  split
  · exact h
  · refine hmodify _ _ _ ?_
    split
    · exact h
    · exact h.addProber numeric now hfirst hdistinct hhanded _ _ _

end Rebuild

/-- The whole wiring of a daemon. -/
structure WellWired (groups : List SlotGroup) (streams : List Stream) (proberByUid : List (ℕ × ℕ))
    (nextUid : ℕ) : Prop where
  linked : Linked (wires groups) streams
  used : ∀ i < streams.length, ∃ wire ∈ wires groups, wire.prober = some i
  positive : 1 ≤ nextUid
  handedOut : ∀ stream ∈ streams, HandedOut 1 nextUid stream.uid
  distinct : nextUid ≤ 2 ^ 32 + 1 → (streams.map Stream.uid).Nodup
  table : proberByUid = (streams.map Stream.uid).zipIdx.reverse

namespace Monitor

def WellWired (m : Monitor) : Prop :=
  Daemon.WellWired (m.clients.map Client.group) (m.probers.map Prober.stream) m.proberByUid m.nextUid

theorem uids_streams (probers : List Prober) :
    (probers.map Prober.stream).map Stream.uid = probers.map Prober.uid := by
  rw [List.map_map]
  rfl

/-- Whatever the clients are, a rebuild leaves a good wiring behind. -/
theorem wellWired_rebuildProbers (numeric : Bytes → Option Endpoint) (now : ℕ) {m : Monitor}
    (hpositive : 1 ≤ m.nextUid) (hhanded : ∀ p ∈ m.probers, HandedOut 1 m.nextUid p.uid)
    (hdistinct : m.nextUid ≤ 2 ^ 32 + 1 → (m.probers.map Prober.uid).Nodup) :
    (m.rebuildProbers numeric now).WellWired := by
  obtain ⟨hlinked, hused⟩ := linked_rebuildProbers numeric now m
  have hnumbered := mapAccum_keeps (f := Rebuild.subscribeClient numeric now m.probers)
    (Rebuild.Numbered m.probers m.nextUid) m.clients.zipIdx
    (fun st slot _ hst => mapAccum_keeps _ _ (fun st dest _ hst =>
      hst.subscribe numeric now hpositive hdistinct hhanded slot.1 slot.2 dest) hst)
    (s := ⟨[], [], [], m.nextUid⟩) ⟨le_rfl, by simp, by simp⟩
  have huids : (m.rebuildProbers numeric now).probers.map Prober.uid =
      (mapAccum (Rebuild.subscribeClient numeric now m.probers) ⟨[], [], [], m.nextUid⟩
        m.clients.zipIdx).1.probers.map Prober.uid := by
    simp only [rebuildProbers, List.map_map]
    rfl
  refine ⟨hlinked, by simpa using hused, hpositive.trans hnumbered.le, ?_, ?_, ?_⟩
  · intro stream hstream
    have hmem : stream.uid ∈ (m.rebuildProbers numeric now).probers.map Prober.uid := by
      rw [← uids_streams]
      exact List.mem_map_of_mem hstream
    rw [huids] at hmem
    obtain ⟨p, hp, hsame⟩ := List.mem_map.mp hmem
    rw [← hsame]
    rcases hnumbered.origin p hp with ⟨i, -, hi⟩ | hnew
    · obtain ⟨q, hq, hquid⟩ := List.mem_map.mp (List.mem_of_getElem? hi)
      exact hquid ▸ (hhanded q hq).mono le_rfl hnumbered.le
    · exact hnew.mono hpositive le_rfl
  · rw [uids_streams, huids]
    exact hnumbered.distinct
  · rw [uids_streams, huids]
    change List.reverse _ = _
    rw [List.zipIdx_map]
    rfl

/-- What the wiring is read from. -/
def wiring (m : Monitor) : List SlotGroup × List Stream × List (ℕ × ℕ) × ℕ :=
  (m.clients.map Client.group, m.probers.map Prober.stream, m.proberByUid, m.nextUid)

theorem WellWired.of_wiring {m m' : Monitor} (h : m.WellWired) (hsame : m'.wiring = m.wiring) :
    m'.WellWired := by
  simp only [wiring, Prod.mk.injEq] at hsame
  obtain ⟨hgroups, hstreams, htable, hnext⟩ := hsame
  unfold WellWired
  rw [hgroups, hstreams, htable, hnext]
  exact h

theorem wiring_tick (m : Monitor) (now : ℕ) (io : Io) : (m.tick now io).wiring = m.wiring := by
  have hgroups : (m.tick now io).clients.map Client.group = m.clients.map Client.group :=
    mapAccum_keeps (fun b : Board => b.clients.map Client.group = m.clients.map Client.group) m.probers
      (fun b p _ hb => (group_tickProber m.socket4 m.socket6 io now b p).trans hb) rfl
  have hstreams : (m.tick now io).probers.map Prober.stream = m.probers.map Prober.stream :=
    map_mapAccum _ _ (fun b p => stream_tickProber m.socket4 m.socket6 io now b p) _ _
  simp only [wiring, hgroups, hstreams]
  rfl

theorem wiring_handleReply (m : Monitor) (now : ℕ) (io : Io) (reply : Datagram) :
    (m.handleReply now io reply).wiring = m.wiring := by
  rcases m.handleReply_cases io now reply with h | ⟨i, p, q, hp, -, -, -, h⟩ <;> rw [h]
  have hget := (proberOf_eq_some.mp hp).2
  simp only [wiring, group_applySample]
  rw [map_set_eq hget]
  rfl

theorem wiring_handleResolution (m : Monitor) (now : ℕ) (result : Resolution) :
    (m.handleResolution now result).wiring = m.wiring := by
  rcases m.handleResolution_cases now result with h | ⟨i, p, dirty, hp, h⟩ <;> rw [h]
  have hget := (proberOf_eq_some.mp hp).2
  simp only [wiring]
  rw [map_set_eq hget (stream_resolve now p result)]

/-- Only a reload changes the wiring. -/
theorem wiring_step (numeric : Bytes → Option Endpoint) (m : Monitor) (event : Event)
    (hquiet : ∀ directory, event.handler ≠ .reloadClients directory) :
    (m.step numeric event).wiring = m.wiring := by
  obtain ⟨now, handler⟩ := event
  cases handler with
  | reloadClients directory => exact absurd rfl (hquiet directory)
  | tick io => exact m.wiring_tick now io
  | handleReplies io replies =>
    exact Machine.foldl_keeps (fun m' : Monitor => m'.wiring = m.wiring)
      (fun m' reply h => (m'.wiring_handleReply now io reply).trans h) rfl replies
  | handleResolutions results =>
    exact Machine.foldl_keeps (fun m' : Monitor => m'.wiring = m.wiring)
      (fun m' result h => (m'.wiring_handleResolution now result).trans h) rfl results
  | dropExpiredClients after realNow mtime =>
    unfold step dropExpiredClients
    dsimp only
    split_ifs <;> rfl
  | noteIdle after =>
    unfold step noteIdle
    dsimp only
    split_ifs <;> rfl
  | publish force =>
    unfold step publish
    dsimp only
    split_ifs <;> rfl
  | flag configChanged shutdown => rfl
  | enter => rfl

theorem wellWired_step (numeric : Bytes → Option Endpoint) {m : Monitor} (h : m.WellWired)
    (event : Event) : (m.step numeric event).WellWired := by
  obtain ⟨now, handler⟩ := event
  cases handler with
  | reloadClients directory =>
    refine wellWired_rebuildProbers numeric now (m := { m with
      configDirty := false, clients := (loadedClients m.options directory).map (·.carryOver m.clients) })
      h.positive ?_ ?_
    · exact fun p hp => h.handedOut p.stream (List.mem_map_of_mem hp)
    · rw [← uids_streams]
      exact h.distinct
  | tick | handleReplies | handleResolutions | dropExpiredClients | noteIdle | publish | flag | enter =>
    exact h.of_wiring (m.wiring_step numeric _ (by simp))

theorem wellWired_empty : Daemon.WellWired [] [] [] 1 where
  linked := ⟨.nil, by simp, by simp [wires], by simp [wires]⟩
  used := by simp
  positive := le_rfl
  handedOut := by simp
  distinct := fun _ => .nil
  table := rfl

theorem wellWired_run (numeric : Bytes → Option Endpoint) (options : Options)
    (socket4 socket6 : IcmpSocket) (cookie startedRealUs : ℕ) (events : List Event) :
    ((handlers numeric).run (.initial options socket4 socket6 cookie startedRealUs) events).WellWired :=
  Machine.run_keeps WellWired (fun _ event h => wellWired_step numeric h event)
    (s := .initial options socket4 socket6 cookie startedRealUs) wellWired_empty events

end Monitor

theorem mem_wires {groups : List SlotGroup} {wire : Wire} :
    wire ∈ wires groups ↔ ∃ c group d slot, groups[c]? = some group ∧ group.slots[d]? = some slot ∧
      wire = Slot.wire group.intervalUs group.timeoutUs c (slot, d) := by
  simp only [wires, SlotGroup.wires, List.mem_flatMap, List.mem_map]
  constructor
  · rintro ⟨⟨group, c⟩, hgroup, ⟨slot, d⟩, hslot, rfl⟩
    exact ⟨c, group, d, slot, List.mem_zipIdx_iff_getElem?.mp hgroup, List.mem_zipIdx_iff_getElem?.mp hslot, rfl⟩
  · rintro ⟨c, group, d, slot, hgroup, hslot, rfl⟩
    exact ⟨(group, c), List.mem_zipIdx_iff_getElem?.mpr hgroup, (slot, d),
      List.mem_zipIdx_iff_getElem?.mpr hslot, rfl⟩

/-- No destination is listed twice. -/
theorem nodup_subscribers (groups : List SlotGroup) : ((wires groups).map Wire.subscriber).Nodup := by
  unfold wires
  rw [List.map_flatMap, List.nodup_flatMap]
  constructor
  · rintro ⟨group, c⟩ -
    have hsame : (SlotGroup.wires (group, c)).map Wire.subscriber =
        (group.slots.zipIdx.map Prod.snd).map (Subscriber.mk c) := by
      rw [SlotGroup.wires, List.map_map, List.map_map]
      rfl
    rw [hsame, List.zipIdx_map_snd]
    exact List.Nodup.map (fun _ _ h => (Subscriber.mk.inj h).2) List.nodup_range'
  · have hindices : (groups.zipIdx.map Prod.snd).Nodup := by
      rw [List.zipIdx_map_snd]
      exact List.nodup_range'
    refine (List.pairwise_map.mp hindices).imp ?_
    rintro ⟨group, c⟩ ⟨group', c'⟩ hne
    refine List.disjoint_left.mpr fun s hs hs' => hne ?_
    simp only [SlotGroup.wires, List.map_map, List.mem_map, Function.comp_apply, Slot.wire] at hs hs'
    obtain ⟨_, -, rfl⟩ := hs
    obtain ⟨_, -, hsame⟩ := hs'
    exact (Subscriber.mk.inj hsame).1.symm

/-- What holds of clients and probers whatever the uids are. -/
structure Represented (m : Monitor) : Prop where
  /-- An enabled destination has exactly one prober, which is the one it asks for. -/
  enabled : ∀ (c d : ℕ) client dest, m.clients[c]? = some client → client.destinations[d]? = some dest →
    dest.enabled = true → ∃ i p, dest.prober = some i ∧ m.probers[i]? = some p ∧
      p.host = dest.address ∧ trimmed dest.address = dest.address ∧
      p.intervalUs = client.intervalUs ∧ p.timeoutUs = client.timeoutUs ∧
      p.subscribers.count ⟨c, d⟩ = 1 ∧
      ∀ j p', m.probers[j]? = some p' → j ≠ i → ⟨c, d⟩ ∉ p'.subscribers
  disabled : ∀ (c d : ℕ) client dest, m.clients[c]? = some client → client.destinations[d]? = some dest →
    dest.enabled = false → dest.prober = none ∧ ∀ p ∈ m.probers, ⟨c, d⟩ ∉ p.subscribers
  subscribed : ∀ p ∈ m.probers, p.subscribers ≠ []
  valid : ∀ p ∈ m.probers, ∀ s ∈ p.subscribers, (m.destination? s).isSome = true
  identities : (m.probers.map fun p => (p.host, p.intervalUs, p.timeoutUs)).Nodup
  bounds : ∀ p ∈ m.probers, 100000 ≤ p.intervalUs ∧ 50000 ≤ p.timeoutUs ∧
    1 ≤ p.maxInFlight ∧ p.maxInFlight ≤ 8

theorem trimmed_rule : DestinationRule fun d => trimmed d.address = d.address where
  loaded := fun _ h => h.trimmed
  carried := fun _ _ h _ _ _ => h
  wired := fun _ _ h => h
  sampled := by
    intro d received rttUs realNow h
    have haddress := congrArg Slot.address (d.slot_sample received rttUs realNow)
    change (d.sample received rttUs realNow).address = d.address at haddress
    rw [haddress]
    exact h

/-- The bounds of a prober. -/
structure Bounded (p : Prober) : Prop where
  clamped : Clamped p.intervalUs p.timeoutUs
  positive : 1 ≤ p.maxInFlight
  capped : p.maxInFlight ≤ 8

theorem Bounded.of_stream {p p' : Prober} (h : Bounded p) (hsame : p'.stream = p.stream) : Bounded p' := by
  obtain ⟨hinterval, htimeout, hmax⟩ := fields_of_stream hsame
  refine ⟨?_, ?_, ?_⟩
  · rw [hinterval, htimeout]
    exact h.clamped
  · rw [hmax]
    exact h.positive
  · rw [hmax]
    exact h.capped

theorem bounded_rule : ProberRule fun _ p => Bounded p where
  later := fun _ _ _ _ h => h
  fresh := fun _ _ _ _ _ _ hclamped => ⟨hclamped, le_rfl, show 1 ≤ 8 by decide⟩
  rewired := fun _ p _ h => ⟨h.clamped, one_le_neededInFlight _ _, neededInFlight_le _ _⟩
  asked := fun _ _ h => h.of_stream rfl
  gaveUp := fun _ _ _ _ h _ _ => h.of_stream rfl
  sent := by
    intro now p p' h _ _ _ houtcome
    exact h.of_stream ((p'.stream_advance now).trans (stream_of_sendOutcome houtcome))
  answered := fun _ _ _ _ _ h _ => h.of_stream rfl
  resolved := fun now p result h => h.of_stream (stream_resolve now p result)

theorem wire_mem {m : Monitor} {c d : ℕ} {client : Client} {dest : Destination}
    (hclient : m.clients[c]? = some client) (hdest : client.destinations[d]? = some dest) :
    Slot.wire client.intervalUs client.timeoutUs c (dest.slot, d) ∈ wires (m.clients.map Client.group) := by
  refine mem_wires.mpr ⟨c, client.group, d, dest.slot, ?_, ?_, rfl⟩
  · rw [List.getElem?_map, hclient]
    rfl
  · simp [Client.group, hdest]

/-- Every wire belongs to a destination of a client. -/
theorem exists_of_mem_wires {m : Monitor} {wire : Wire} (h : wire ∈ wires (m.clients.map Client.group)) :
    ∃ c d client dest, m.clients[c]? = some client ∧ client.destinations[d]? = some dest ∧
      wire = Slot.wire client.intervalUs client.timeoutUs c (dest.slot, d) := by
  obtain ⟨c, group, d, slot, hgroup, hslot, rfl⟩ := mem_wires.mp h
  rw [List.getElem?_map] at hgroup
  obtain ⟨client, hclient, rfl⟩ := Option.map_eq_some_iff.mp hgroup
  simp only [Client.group, List.getElem?_map] at hslot
  obtain ⟨dest, hdest, rfl⟩ := Option.map_eq_some_iff.mp hslot
  exact ⟨c, d, client, dest, hclient, hdest, rfl⟩

namespace Monitor.WellWired
variable {m : Monitor} (h : m.WellWired)
include h

/-- The subscribers of a prober are the destinations wired to it. -/
theorem subscribers_eq {i : ℕ} {p : Prober} (hp : m.probers[i]? = some p) :
    p.subscribers = ((wires (m.clients.map Client.group)).filter (·.prober = some i)).map
      Wire.subscriber :=
  h.linked.subscribers i p.stream (by rw [List.getElem?_map, hp]; rfl)

theorem mem_subscribers {i : ℕ} {p : Prober} (hp : m.probers[i]? = some p) (s : Subscriber) :
    s ∈ p.subscribers ↔ ∃ wire ∈ wires (m.clients.map Client.group), wire.prober = some i ∧
      wire.subscriber = s := by
  rw [h.subscribers_eq hp]
  simp only [List.mem_map, List.mem_filter, decide_eq_true_eq, and_assoc]

/-- A destination is among the subscribers of the prober it is wired to and of no other. -/
theorem prober_of_mem_subscribers {wire : Wire} (hwire : wire ∈ wires (m.clients.map Client.group)) {i : ℕ}
    {p : Prober} (hp : m.probers[i]? = some p) (hs : wire.subscriber ∈ p.subscribers) :
    wire.prober = some i := by
  obtain ⟨wire', hwire', hprober, hsame⟩ := (h.mem_subscribers hp _).mp hs
  rw [← List.inj_on_of_nodup_map (nodup_subscribers _) hwire' hwire hsame]
  exact hprober

theorem represented (htrimmed : EveryDestination (fun d => trimmed d.address = d.address) m.clients)
    (hbounded : ∀ p ∈ m.probers, Bounded p) : Represented m where
  enabled := by
    intro c d client dest hclient hdest hon
    have hwire := wire_mem hclient hdest
    obtain ⟨i, stream, hprober, hstream, hidentity⟩ := h.linked.enabled _ hwire hon
    rw [List.getElem?_map] at hstream
    obtain ⟨p, hp, rfl⟩ := Option.map_eq_some_iff.mp hstream
    simp only [Stream.identity, Prober.stream, Slot.wire, Destination.slot, Prod.mk.injEq] at hidentity
    refine ⟨i, p, hprober, hp, hidentity.1, ?_, hidentity.2.1, hidentity.2.2, ?_, ?_⟩
    · exact htrimmed client (List.mem_of_getElem? hclient) dest (List.mem_of_getElem? hdest)
    · have hnodup : p.subscribers.Nodup := by
        rw [h.subscribers_eq hp]
        exact (nodup_subscribers _).sublist (List.filter_sublist.map _)
      exact List.count_eq_one_of_mem hnodup ((h.mem_subscribers hp _).mpr ⟨_, hwire, hprober, rfl⟩)
    · intro j p' hp' hne hmem
      have hother := h.prober_of_mem_subscribers hwire hp' hmem
      exact hne (Option.some.inj (hother.symm.trans hprober))
  disabled := by
    intro c d client dest hclient hdest hoff
    have hwire := wire_mem hclient hdest
    have hnone := h.linked.disabled _ hwire hoff
    refine ⟨hnone, fun p hp hmem => ?_⟩
    obtain ⟨i, hi⟩ := List.mem_iff_getElem?.mp hp
    exact absurd ((h.prober_of_mem_subscribers hwire hi hmem).symm.trans hnone) (by simp)
  subscribed := by
    intro p hp hempty
    obtain ⟨i, hi⟩ := List.mem_iff_getElem?.mp hp
    obtain ⟨wire, hwire, hprober⟩ := h.used i (by simpa using (List.getElem?_eq_some_iff.mp hi).1)
    have hmem := (h.mem_subscribers hi _).mpr ⟨wire, hwire, hprober, rfl⟩
    rw [hempty] at hmem
    exact absurd hmem (by simp)
  valid := by
    intro p hp s hs
    obtain ⟨i, hi⟩ := List.mem_iff_getElem?.mp hp
    obtain ⟨wire, hwire, -, rfl⟩ := (h.mem_subscribers hi s).mp hs
    obtain ⟨c, d, client, dest, hclient, hdest, rfl⟩ := exists_of_mem_wires hwire
    simp [Board.destination?, Slot.wire, hclient, hdest]
  identities := by
    have hnodup := h.linked.identities
    rw [List.map_map] at hnodup
    exact hnodup
  bounds := fun p hp => ⟨(hbounded p hp).clamped.interval_ge, (hbounded p hp).clamped.timeout_ge,
    (hbounded p hp).positive, (hbounded p hp).capped⟩

/-- The uid table, as long as the counter has not come around. -/
theorem uids (hnext : m.nextUid ≤ 2 ^ 32 + 1) : (m.probers.map Prober.uid).Nodup ∧
    ∀ uid i, m.proberByUid.lookup uid = some i ↔ ∃ p, m.probers[i]? = some p ∧ p.uid = uid := by
  have hnodup := h.distinct hnext
  have htable := h.table
  rw [uids_streams] at hnodup htable
  refine ⟨hnodup, fun uid i => ?_⟩
  rw [htable, lookup_reverse_zipIdx_iff hnodup, List.getElem?_map, Option.map_eq_some_iff]

end Monitor.WellWired

/-- The representation invariant, in every state that the handlers reach in any order and at
any times; the uids as long as no more than `2 ^ 32` probers have been created. -/
theorem prober_invariant (numeric : Bytes → Option Endpoint) (options : Options)
    (socket4 socket6 : IcmpSocket) (cookie startedRealUs : ℕ) (events : List Event) :
    let m := (handlers numeric).run (.initial options socket4 socket6 cookie startedRealUs) events
    Represented m ∧ (m.nextUid ≤ 2 ^ 32 + 1 → (m.probers.map Prober.uid).Nodup ∧
      ∀ uid i, m.proberByUid.lookup uid = some i ↔ ∃ p, m.probers[i]? = some p ∧ p.uid = uid) := by
  intro m
  have hwired := Monitor.wellWired_run numeric options socket4 socket6 cookie startedRealUs events
  refine ⟨hwired.represented ?_ ?_, hwired.uids⟩
  · exact trimmed_rule.reachable numeric options socket4 socket6 cookie startedRealUs events
  · exact bounded_rule.always numeric options socket4 socket6 cookie startedRealUs events

/-- Two widgets that share one address, which contains the separator of the keys. -/
theorem prober_invariant_run :
    let entry : Bytes → Json := fun text => .object [(ascii "address", .string text)]
    let document : Json := .object [(ascii "destinations",
      .array [entry [0x61, 0x1f, 0x31], entry (ascii "a")])]
    let directory : Directory :=
      ⟨[⟨ascii "v.json", some document⟩, ⟨ascii "w.json", some document⟩], by decide⟩
    let m := (handlers fun _ => none).run
      (.initial ⟨[], 1000000, 0, 0, 50, by decide, by decide⟩ ⟨true, false, []⟩ ⟨true, false, []⟩ 5 0)
      [⟨1000, .reloadClients directory⟩]
    m.probers.map Prober.uid = [1, 2] ∧ Represented m ∧
      ∀ uid i, m.proberByUid.lookup uid = some i ↔ ∃ p, m.probers[i]? = some p ∧ p.uid = uid := by
  intro entry document directory m
  have hinvariant := prober_invariant (fun _ => none) ⟨[], 1000000, 0, 0, 50, by decide, by decide⟩
    ⟨true, false, []⟩ ⟨true, false, []⟩ 5 0 [⟨1000, .reloadClients directory⟩]
  exact ⟨by decide +kernel, hinvariant.1, (hinvariant.2 (by decide +kernel)).2⟩

/-- What a client file asks for. -/
def Client.asks (client : Client) : ℕ × ℕ × List (Bytes × Bool) :=
  (client.intervalUs, client.timeoutUs, client.destinations.map fun d => (d.address, d.enabled))

theorem asks_carryOver (client : Client) (previous : List Client) :
    (client.carryOver previous).asks = client.asks := by
  unfold Client.carryOver
  split
  · rfl
  · simp only [Client.asks, List.map_map]
    refine congrArg (fun asked => (client.intervalUs, client.timeoutUs, asked))
      (List.map_congr_left fun d _ => ?_)
    rw [Function.comp_apply]
    split <;> rfl

/-- Bringing in a second destination next to the one that is already probed. -/
theorem rebuild_pair (numeric : Bytes → Option Endpoint) (now : ℕ) {m : Monitor} {i t : ℕ} {x y : Bytes}
    {p : Prober} (hclients : m.clients.map Client.asks = [(i, t, [(x, true), (y, true)])])
    (hprobers : m.probers = [p]) (hkey : p.key = proberKey x i t) (hxy : x ≠ y) :
    let next := m.rebuildProbers numeric now
    next.nextUid = m.nextUid + 1 ∧ ∃ p' q, next.probers = [p', q] ∧ p'.key = p.key ∧ p'.uid = p.uid ∧
      q.uid = m.nextUid % 2 ^ 32 ∧ q.resolving = false := by
  have hne : proberKey y i t ≠ p.key := fun h => hxy (proberKey_inj.mp (hkey.symm.trans h.symm)).1
  obtain ⟨client, hclient, hasks⟩ := List.map_eq_singleton_iff.mp hclients
  simp only [Client.asks, Prod.mk.injEq] at hasks
  obtain ⟨rfl, rfl, hdestinations⟩ := hasks
  obtain ⟨a, _, hab, ha, hrest⟩ := List.map_eq_cons_iff.mp hdestinations
  obtain ⟨b, rfl, hb⟩ := List.map_eq_singleton_iff.mp hrest
  simp only [Prod.mk.injEq] at ha hb
  obtain ⟨rfl, ha⟩ := ha
  obtain ⟨rfl, hb⟩ := hb
  simp only [Monitor.rebuildProbers, hclient, hprobers, Rebuild.subscribeClient, hab, List.zipIdx_cons,
    List.zipIdx_nil, mapAccum_cons, mapAccum_nil, Rebuild.subscribe, ha, hb, ← hkey, Rebuild.addProber,
    Rebuild.recycled, List.lookup_nil, List.map_cons, List.map_nil, List.lookup_cons, Bool.not_true,
    Bool.false_eq_true, if_false, beq_self_eq_true]
  simp [List.lookup_cons, beq_eq_false_iff_ne.mpr hne]
  exact ⟨rfl, rfl, rfl⟩

/-- Taking it out again. -/
theorem rebuild_single (numeric : Bytes → Option Endpoint) (now : ℕ) {m : Monitor} {i t : ℕ} {x : Bytes}
    {p q : Prober} (hclients : m.clients.map Client.asks = [(i, t, [(x, true)])])
    (hprobers : m.probers = [p, q]) (hkey : p.key = proberKey x i t) :
    let next := m.rebuildProbers numeric now
    next.nextUid = m.nextUid ∧ ∃ p', next.probers = [p'] ∧ p'.key = p.key ∧ p'.uid = p.uid := by
  obtain ⟨client, hclient, hasks⟩ := List.map_eq_singleton_iff.mp hclients
  simp only [Client.asks, Prod.mk.injEq] at hasks
  obtain ⟨rfl, rfl, hdestinations⟩ := hasks
  obtain ⟨a, hab, ha⟩ := List.map_eq_singleton_iff.mp hdestinations
  simp only [Prod.mk.injEq] at ha
  obtain ⟨rfl, ha⟩ := ha
  simp only [Monitor.rebuildProbers, hclient, hprobers, Rebuild.subscribeClient, hab, List.zipIdx_cons,
    List.zipIdx_nil, mapAccum_cons, mapAccum_nil, Rebuild.subscribe, ha, ← hkey, Rebuild.addProber,
    Rebuild.recycled, List.lookup_nil, List.map_cons, List.map_nil, List.lookup_cons, Bool.not_true,
    Bool.false_eq_true, if_false, beq_self_eq_true]
  simp
  rfl

/-- One destination stays while another comes and goes: its prober stays too, and every turn
uses up a uid. -/
theorem churn (numeric : Bytes → Option Endpoint) {pair single : Directory} {m : Monitor} {i t : ℕ}
    {x y : Bytes} {p : Prober}
    (hpair : (loadedClients m.options pair).map Client.asks = [(i, t, [(x, true), (y, true)])])
    (hsingle : (loadedClients m.options single).map Client.asks = [(i, t, [(x, true)])])
    (hxy : x ≠ y) (hprobers : m.probers = [p]) (hkey : p.key = proberKey x i t) (turns : ℕ) :
    ∃ p' q, ((handlers numeric).run m ((List.replicate turns
        [⟨0, .reloadClients pair⟩, ⟨0, .reloadClients single⟩]).flatten ++
          [⟨0, .reloadClients pair⟩])).probers = [p', q] ∧
      p'.uid = p.uid ∧ q.uid = (m.nextUid + turns) % 2 ^ 32 ∧ q.resolving = false := by
  have hloaded : ∀ (m : Monitor) (directory : Directory) (asks : List (ℕ × ℕ × List (Bytes × Bool))),
      (loadedClients m.options directory).map Client.asks = asks →
      ((loadedClients m.options directory).map (·.carryOver m.clients)).map Client.asks = asks := by
    intro m directory asks h
    simpa [Function.comp_def, asks_carryOver] using h
  induction turns generalizing m p with
  | zero =>
    obtain ⟨-, p', q, hboth, -, huid, hquid, hidle⟩ := rebuild_pair numeric 0 (m := { m with
      configDirty := false, clients := (loadedClients m.options pair).map (·.carryOver m.clients) })
      (hloaded m pair _ hpair) hprobers hkey hxy
    exact ⟨p', q, hboth, huid, hquid, hidle⟩
  | succ turns ih =>
    obtain ⟨hnext, p', q, hboth, hkey', huid, -⟩ := rebuild_pair numeric 0 (m := { m with
      configDirty := false, clients := (loadedClients m.options pair).map (·.carryOver m.clients) })
      (hloaded m pair _ hpair) hprobers hkey hxy
    obtain ⟨hnext', p'', hone, hkey'', huid'⟩ := rebuild_single numeric 0
      (m := { m.reloadClients numeric 0 pair with
        configDirty := false
        clients := (loadedClients m.options single).map
          (·.carryOver (m.reloadClients numeric 0 pair).clients) })
      (hloaded (m.reloadClients numeric 0 pair) single _ hsingle) hboth (hkey'.trans hkey)
    obtain ⟨r, s, hrest, hruid, hsuid, hidle⟩ :=
      ih (m := (m.reloadClients numeric 0 pair).reloadClients numeric 0 single) hpair hsingle hone
        (hkey''.trans (hkey'.trans hkey))
    have hstep : ((m.reloadClients numeric 0 pair).reloadClients numeric 0 single).nextUid = m.nextUid + 1 :=
      hnext'.trans hnext
    rw [hstep, Nat.add_right_comm] at hsuid
    exact ⟨r, s, hrest, hruid.trans (huid'.trans huid), hsuid, hidle⟩

/-- After `2 ^ 32 - 1` turns the counter is back where it began, and two probers share uid 1. -/
theorem uids_come_around :
    let entry : Bytes → Json := fun text => .object [(ascii "address", .string text)]
    let directory : List Json → Directory := fun destinations =>
      ⟨[⟨ascii "w.json", some (.object [(ascii "destinations", .array destinations)])⟩],
        List.nodup_singleton _⟩
    let single : Directory := directory [entry (ascii "a")]
    let pair : Directory := directory [entry (ascii "a"), entry (ascii "b")]
    let m := (handlers fun _ => none).run
      (.initial ⟨[], 1000000, 0, 0, 50, by decide, by decide⟩ ⟨true, false, []⟩ ⟨true, false, []⟩ 5 0)
      (⟨0, .reloadClients single⟩ :: ((List.replicate 4294967295
        [⟨0, .reloadClients pair⟩, ⟨0, .reloadClients single⟩]).flatten ++ [⟨0, .reloadClients pair⟩]))
    ∃ p q, m.probers = [p, q] ∧ p.uid = 1 ∧ q.uid = 1 := by
  intro entry directory single pair m
  let start : Monitor := (handlers fun _ => none).step
    (.initial ⟨[], 1000000, 0, 0, 50, by decide, by decide⟩ ⟨true, false, []⟩ ⟨true, false, []⟩ 5 0)
    ⟨0, .reloadClients single⟩
  have hstart : start.probers.map (fun p => (p.key, p.uid)) = [(proberKey (ascii "a") 1000000 3000000, 1)] ∧
      start.nextUid = 2 := by decide +kernel
  obtain ⟨⟨p, hp, hpkey⟩, hnext⟩ := And.imp_left List.map_eq_singleton_iff.mp hstart
  have hpair : (loadedClients start.options pair).map Client.asks =
      [(1000000, 3000000, [(ascii "a", true), (ascii "b", true)])] := by decide +kernel
  have hsingle : (loadedClients start.options single).map Client.asks =
      [(1000000, 3000000, [(ascii "a", true)])] := by decide +kernel
  obtain ⟨p', q, hprobers, huid, hquid, -⟩ := churn (fun _ => none) hpair hsingle (by decide) hp
    (Prod.mk.inj hpkey).1 4294967295
  rw [hnext] at hquid
  refine ⟨p', q, ?_, huid.trans (Prod.mk.inj hpkey).2, hquid.trans (by decide)⟩
  have hm : m = (handlers fun _ => none).run start ((List.replicate 4294967295
      [⟨0, .reloadClients pair⟩, ⟨0, .reloadClients single⟩]).flatten ++ [⟨0, .reloadClients pair⟩]) :=
    Machine.run_cons ..
  rw [hm]
  exact hprobers

end NetworkHealth.Daemon
