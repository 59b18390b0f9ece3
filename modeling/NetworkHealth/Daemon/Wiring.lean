import NetworkHealth.Daemon.Rules

/-! How destinations and probers point at each other. `rebuildProbers` wires one destination
after the other; the subscribers of a prober are at any time the destinations wired to it so
far, in their order. -/
namespace NetworkHealth.Daemon

/-- Host, interval and timeout: what a prober exists for, and what a destination asks for. -/
def Stream.identity (stream : Stream) : Bytes × ℕ × ℕ :=
  (stream.host, stream.intervalUs, stream.timeoutUs)

/-- One destination as the wiring sees it. -/
structure Wire where
  subscriber : Subscriber
  identity : Bytes × ℕ × ℕ
  enabled : Bool
  prober : Option ℕ
  deriving DecidableEq, Repr

def Slot.wire (intervalUs timeoutUs c : ℕ) (slot : Slot × ℕ) : Wire where
  subscriber := ⟨c, slot.2⟩
  identity := (slot.1.address, intervalUs, timeoutUs)
  enabled := slot.1.enabled
  prober := slot.1.prober

def SlotGroup.wires (group : SlotGroup × ℕ) : List Wire :=
  group.1.slots.zipIdx.map (Slot.wire group.1.intervalUs group.1.timeoutUs group.2)

/-- All destinations in the order of the clients. -/
def wires (groups : List SlotGroup) : List Wire := groups.zipIdx.flatMap SlotGroup.wires

/-- The wires and the streams agree. -/
structure Linked (wires : List Wire) (streams : List Stream) : Prop where
  identities : (streams.map Stream.identity).Nodup
  subscribers : ∀ i stream, streams[i]? = some stream →
    stream.subscribers = (wires.filter (·.prober = some i)).map Wire.subscriber
  enabled : ∀ wire ∈ wires, wire.enabled = true →
    ∃ i stream, wire.prober = some i ∧ streams[i]? = some stream ∧ stream.identity = wire.identity
  disabled : ∀ wire ∈ wires, wire.enabled = false → wire.prober = none

namespace Linked
variable {wires : List Wire} {streams : List Stream}

theorem lt_length (h : Linked wires streams) {wire : Wire} (hwire : wire ∈ wires) {i : ℕ}
    (hi : wire.prober = some i) : i < streams.length := by
  cases henabled : wire.enabled with
  | false => exact absurd ((h.disabled wire hwire henabled).symm.trans hi) (by simp)
  | true =>
    obtain ⟨j, stream, hj, hstream, -⟩ := h.enabled wire hwire henabled
    obtain rfl : j = i := Option.some.inj (hj.symm.trans hi)
    exact (List.getElem?_eq_some_iff.mp hstream).1

/-- A disabled destination is wired to nothing. -/
theorem skip (h : Linked wires streams) {wire : Wire} (hdisabled : wire.enabled = false)
    (hprober : wire.prober = none) : Linked (wires ++ [wire]) streams := by
  refine ⟨h.identities, fun i stream hstream => ?_, fun w hw henabled => ?_, fun w hw hoff => ?_⟩
  · rw [h.subscribers i stream hstream, List.filter_append]
    simp [hprober]
  · rcases List.mem_append.mp hw with hw | hw
    · exact h.enabled w hw henabled
    · rw [List.mem_singleton.mp hw, hdisabled] at henabled
      exact absurd henabled (by simp)
  · rcases List.mem_append.mp hw with hw | hw
    · exact h.disabled w hw hoff
    · rwa [List.mem_singleton.mp hw]

/-- A new stream has no subscribers yet. -/
theorem append (h : Linked wires streams) {stream : Stream} (hnew : stream.identity ∉ streams.map Stream.identity)
    (hsubscribers : stream.subscribers = []) : Linked wires (streams ++ [stream]) := by
  refine ⟨?_, fun i s hs => ?_, fun wire hwire henabled => ?_, h.disabled⟩
  · rw [List.map_append, List.map_singleton, ← List.concat_eq_append]
    exact List.Nodup.concat hnew h.identities
  · rcases Nat.lt_or_ge i streams.length with hi | hi
    · rw [List.getElem?_append_left hi] at hs
      exact h.subscribers i s hs
    · rw [List.getElem?_append_right hi] at hs
      have hmem := List.mem_singleton.mp (List.mem_of_getElem? hs)
      have hnone : wires.filter (·.prober = some i) = [] := by
        refine List.filter_eq_nil_iff.mpr fun wire hwire hprober => ?_
        exact absurd (h.lt_length hwire (of_decide_eq_true hprober)) (Nat.not_lt.mpr hi)
      rw [hmem, hsubscribers, hnone, List.map_nil]
  · obtain ⟨i, s, hi, hs, hidentity⟩ := h.enabled wire hwire henabled
    refine ⟨i, s, hi, ?_, hidentity⟩
    rw [List.getElem?_append_left (List.getElem?_eq_some_iff.mp hs).1]
    exact hs

/-- An enabled destination is wired to the stream that exists for it. -/
theorem attach (h : Linked wires streams) {wire : Wire} {k : ℕ} {stream : Stream}
    (hstream : streams[k]? = some stream) (hidentity : stream.identity = wire.identity)
    (henabled : wire.enabled = true) (hprober : wire.prober = some k) :
    Linked (wires ++ [wire]) (streams.modify k fun s =>
      { s with subscribers := s.subscribers ++ [wire.subscriber] }) := by
  refine ⟨?_, fun i s hs => ?_, fun w hw hon => ?_, fun w hw hoff => ?_⟩
  · rw [map_modify_eq]
    · exact h.identities
    · exact fun _ => rfl
  · rw [List.getElem?_modify] at hs
    obtain ⟨old, hold, rfl⟩ := Option.map_eq_some_iff.mp hs
    rw [List.filter_append, List.map_append, ← h.subscribers i old hold]
    by_cases hik : k = i
    · simp [hik, hprober]
    · simp [hik, hprober]
  · have hkeep : ∀ (i : ℕ) (s : Stream), streams[i]? = some s → s.identity = w.identity →
        ∃ s' : Stream, (streams.modify k fun s => { s with subscribers := s.subscribers ++ [wire.subscriber] })[i]? =
          some s' ∧ s'.identity = w.identity := by
      intro i s hs hsame
      rw [List.getElem?_modify, hs]
      by_cases hik : k = i
      · exact ⟨{ s with subscribers := s.subscribers ++ [wire.subscriber] }, by simp [hik], hsame⟩
      · exact ⟨s, by simp [hik], hsame⟩
    rcases List.mem_append.mp hw with hw | hw
    · obtain ⟨i, s, hi, hs, hsame⟩ := h.enabled w hw hon
      obtain ⟨s', hs', hsame'⟩ := hkeep i s hs hsame
      exact ⟨i, s', hi, hs', hsame'⟩
    · rw [List.mem_singleton.mp hw] at hkeep ⊢
      obtain ⟨s', hs', hsame'⟩ := hkeep k stream hstream hidentity
      exact ⟨k, s', hprober, hs', hsame'⟩
  · rcases List.mem_append.mp hw with hw | hw
    · exact h.disabled w hw hoff
    · rw [List.mem_singleton.mp hw, henabled] at hoff
      exact absurd hoff (by simp)

/-- The wiring looks at nothing else of a stream. -/
theorem map (h : Linked wires streams) {f : Stream → Stream} (hidentity : ∀ s, (f s).identity = s.identity)
    (hsubscribers : ∀ s, (f s).subscribers = s.subscribers) : Linked wires (streams.map f) := by
  refine ⟨?_, fun i s hs => ?_, fun wire hwire hon => ?_, h.disabled⟩
  · rw [List.map_map, show Stream.identity ∘ f = Stream.identity from funext hidentity]
    exact h.identities
  · rw [List.getElem?_map] at hs
    obtain ⟨old, hold, rfl⟩ := Option.map_eq_some_iff.mp hs
    rw [hsubscribers]
    exact h.subscribers i old hold
  · obtain ⟨i, s, hi, hs, hsame⟩ := h.enabled wire hwire hon
    exact ⟨i, f s, hi, by rw [List.getElem?_map, hs]; rfl, (hidentity s).trans hsame⟩

end Linked

theorem identity_eq_of_key {p : Prober} {host : Bytes} {intervalUs timeoutUs : ℕ}
    (h : p.key = proberKey host intervalUs timeoutUs) : p.stream.identity = (host, intervalUs, timeoutUs) := by
  obtain ⟨hhost, hinterval, htimeout⟩ := proberKey_inj.mp h
  simp [Stream.identity, Prober.stream, hhost, hinterval, htimeout]

/-- A rebuild that has wired `wires` so far. -/
structure Rebuild.Wired (wires : List Wire) (st : Rebuild) : Prop where
  linked : Linked wires (st.probers.map Prober.stream)
  used : ∀ i < st.probers.length, ∃ wire ∈ wires, wire.prober = some i
  keys : st.currentByKey = (st.probers.map Prober.key).zipIdx

namespace Rebuild
variable (numeric : Bytes → Option Endpoint) (now : ℕ) (previous : List Prober) {wires : List Wire}
  {st : Rebuild}

theorem key_modify (probers : List Prober) (i : ℕ) (s : Subscriber) :
    (probers.modify i fun p => { p with subscribers := p.subscribers ++ [s] }).map Prober.key =
      probers.map Prober.key := by
  refine map_modify_eq (fun p => ?_) probers i
  rfl

theorem stream_modify (probers : List Prober) (i : ℕ) (s : Subscriber) :
    (probers.modify i fun p => { p with subscribers := p.subscribers ++ [s] }).map Prober.stream =
      (probers.map Prober.stream).modify i fun stream =>
        { stream with subscribers := stream.subscribers ++ [s] } := by
  refine map_modify (fun p => ?_) probers i
  rfl

/-- Adding a prober appends one without subscribers that has the key it was added for. -/
theorem exists_addProber (st : Rebuild) (host : Bytes) (intervalUs timeoutUs : ℕ) :
    ∃ p : Prober, p.key = proberKey host intervalUs timeoutUs ∧ p.subscribers = [] ∧
      (st.addProber numeric now previous host intervalUs timeoutUs).probers = st.probers ++ [p] ∧
      (st.addProber numeric now previous host intervalUs timeoutUs).currentByKey =
        st.currentByKey ++ [(proberKey host intervalUs timeoutUs, st.probers.length)] := by
  unfold addProber
  dsimp only
  split
  · next i p hrecycled =>
    exact ⟨{ p with subscribers := [] }, (mem_of_recycled hrecycled).2.1, rfl, rfl, rfl⟩
  · exact ⟨freshProber numeric now _ host intervalUs timeoutUs, rfl, rfl, rfl, rfl⟩

/-- After the prober for a key has been found or added, the key leads to it. -/
theorem Wired.located (h : st.Wired wires) (host : Bytes) (intervalUs timeoutUs : ℕ) :
    let key := proberKey host intervalUs timeoutUs
    let st' := if (st.currentByKey.lookup key).isSome then st
      else st.addProber numeric now previous host intervalUs timeoutUs
    Linked wires (st'.probers.map Prober.stream) ∧
      st'.currentByKey = (st'.probers.map Prober.key).zipIdx ∧
      ∃ k stream, st'.currentByKey.lookup key = some k ∧
        (st'.probers.map Prober.stream)[k]? = some stream ∧
        stream.identity = (host, intervalUs, timeoutUs) ∧
        ∀ i < st'.probers.length, i ≠ k → ∃ wire ∈ wires, wire.prober = some i := by
  intro key st'
  cases hlookup : st.currentByKey.lookup key with
  | some k =>
    have hst' : st' = st := if_pos (by rw [hlookup]; rfl)
    rw [hst']
    have hkey := getElem?_of_lookup_zipIdx (h.keys ▸ hlookup)
    rw [List.getElem?_map] at hkey
    obtain ⟨p, hp, hpkey⟩ := Option.map_eq_some_iff.mp hkey
    exact ⟨h.linked, h.keys, k, p.stream, hlookup, by rw [List.getElem?_map, hp]; rfl,
      identity_eq_of_key hpkey, fun i hi _ => h.used i hi⟩
  | none =>
    have hst' : st' = st.addProber numeric now previous host intervalUs timeoutUs :=
      if_neg (by rw [hlookup]; simp)
    have hnew : key ∉ st.probers.map Prober.key := lookup_zipIdx_eq_none_iff.mp (h.keys ▸ hlookup)
    obtain ⟨p, hpkey, hsubscribers, hprobers, hcurrent⟩ :=
      exists_addProber numeric now previous st host intervalUs timeoutUs
    have hidentity := identity_eq_of_key hpkey
    rw [hst', hprobers, hcurrent]
    refine ⟨?_, ?_, st.probers.length, p.stream, ?_, ?_, hidentity, fun i hi hne => ?_⟩
    · rw [List.map_append, List.map_singleton]
      refine h.linked.append ?_ hsubscribers
      rintro hmem
      obtain ⟨stream, hstream, hsame⟩ := List.mem_map.mp hmem
      obtain ⟨q, hq, rfl⟩ := List.mem_map.mp hstream
      rw [hidentity] at hsame
      refine hnew (List.mem_map.mpr ⟨q, hq, ?_⟩)
      simp only [Stream.identity, Prober.stream, Prod.mk.injEq] at hsame
      rw [Prober.key, hsame.1, hsame.2.1, hsame.2.2]
    · rw [List.map_append, List.map_singleton, List.zipIdx_append, h.keys, hpkey]
      simp
    · rw [List.lookup_append, hlookup]
      simp [key]
    · simp
    · rw [List.length_append, List.length_singleton] at hi
      exact h.used i (by omega)

/-- One turn of the inner loop. -/
theorem Wired.subscribe (h : st.Wired wires) (client : Client) (c : ℕ) (slot : Destination × ℕ) :
    (st.subscribe numeric now previous client c slot).1.Wired (wires ++
      [Slot.wire client.intervalUs client.timeoutUs c ((st.subscribe numeric now previous client c slot).2.slot, slot.2)]) := by
  unfold Rebuild.subscribe
  split_ifs with hoff
  · have hdisabled : slot.1.enabled = false := by simpa using hoff
    refine ⟨h.linked.skip hdisabled rfl, fun i hi => ?_, h.keys⟩
    · obtain ⟨wire, hwire, hi⟩ := h.used i hi
      exact ⟨wire, by simp [hwire], hi⟩
  · obtain ⟨hlinked, hkeys, k, stream, hlookup, hstream, hidentity, hused⟩ :=
      h.located numeric now previous slot.1.address client.intervalUs client.timeoutUs
    dsimp only at hlinked hkeys hlookup hstream hused ⊢
    have henabled : slot.1.enabled = true := by simpa using hoff
    rw [hlookup]
    refine ⟨?_, fun i hi => ?_, ?_⟩
    · rw [Option.getD_some, stream_modify]
      exact hlinked.attach hstream hidentity henabled rfl
    · rw [Option.getD_some] at hi ⊢
      rw [List.length_modify] at hi
      by_cases hik : i = k
      · exact ⟨_, List.mem_append_right _ (List.mem_singleton_self _), by rw [hik]; rfl⟩
      · obtain ⟨wire, hwire, hi⟩ := hused i hi hik
        exact ⟨wire, by simp [hwire], hi⟩
    · rw [key_modify]
      exact hkeys

/-- The inner loop, from any destination on. -/
theorem Wired.subscribeAll (client : Client) (c : ℕ) (destinations : List Destination) (j : ℕ)
    (h : st.Wired wires) :
    let next := mapAccum (Rebuild.subscribe numeric now previous client c) st (destinations.zipIdx j)
    next.1.Wired (wires ++ ((next.2.map Destination.slot).zipIdx j).map (Slot.wire client.intervalUs client.timeoutUs c)) := by
  induction destinations generalizing j st wires with
  | nil => simpa using h
  | cons d rest ih =>
    have hrest := ih (j + 1) (h.subscribe numeric now previous client c (d, j))
    simpa using hrest

/-- The outer loop, from any client on. -/
theorem Wired.subscribeClients (clients : List Client) (c : ℕ) (h : st.Wired wires) :
    let next := mapAccum (Rebuild.subscribeClient numeric now previous) st (clients.zipIdx c)
    next.1.Wired (wires ++ ((next.2.map Client.group).zipIdx c).flatMap SlotGroup.wires) := by
  induction clients generalizing c st wires with
  | nil => simpa using h
  | cons client rest ih =>
    have hrest := ih (c + 1) (h.subscribeAll numeric now previous client c client.destinations 0)
    simpa [SlotGroup.wires, Rebuild.subscribeClient, Client.group] using hrest

end Rebuild

/-- A rebuild wires every destination. -/
theorem linked_rebuildProbers (numeric : Bytes → Option Endpoint) (now : ℕ) (m : Monitor) :
    let next := m.rebuildProbers numeric now
    Linked (wires (next.clients.map Client.group)) (next.probers.map Prober.stream) ∧
      ∀ i < next.probers.length, ∃ wire ∈ wires (next.clients.map Client.group), wire.prober = some i := by
  have hinitial : Rebuild.Wired [] ⟨[], [], [], m.nextUid⟩ :=
    ⟨⟨.nil, by simp, by simp, by simp⟩, by simp, rfl⟩
  have hwired := hinitial.subscribeClients numeric now m.probers m.clients 0
  dsimp only at hwired ⊢
  rw [List.nil_append] at hwired
  refine ⟨?_, fun i hi => hwired.used i (by simpa [Monitor.rebuildProbers] using hi)⟩
  have hmap := hwired.linked.map
    (f := fun s => { s with maxInFlight := neededInFlight s.intervalUs s.timeoutUs }) (fun _ => rfl)
    fun _ => rfl
  rw [List.map_map] at hmap
  simp only [Monitor.rebuildProbers, List.map_map]
  exact hmap

end NetworkHealth.Daemon
