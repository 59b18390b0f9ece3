import NetworkHealth.Daemon.LostVerdict

/-! What a reload does to the probe streams. Those still wanted go on, the others end, and nothing
that was on its way to a stream that ended reaches another one. -/
namespace NetworkHealth.Daemon

/-- What a stream is for: address, interval and timeout. -/
def Prober.triple (p : Prober) : Bytes × ℕ × ℕ := (p.host, p.intervalUs, p.timeoutUs)

/-- Some enabled destination asks for the triple. -/
def Monitor.Wants (m : Monitor) (triple : Bytes × ℕ × ℕ) : Prop :=
  ∃ client ∈ m.clients, ∃ d ∈ client.destinations,
    d.enabled = true ∧ (d.address, client.intervalUs, client.timeoutUs) = triple

theorem key_eq_iff {p q : Prober} : p.key = q.key ↔ p.triple = q.triple := by
  simp [Prober.key, proberKey_inj, Prober.triple]

/-- A previous prober, or a new one for a key that none of them has. -/
def Heir (numeric : Bytes → Option Endpoint) (now : ℕ) (previous : List Prober) (first next : ℕ)
    (p : Prober) : Prop :=
  p ∈ previous ∨ p.key ∉ previous.map Prober.key ∧ HandedOut first next p.uid ∧
    p = freshProber numeric now p.uid p.host p.intervalUs p.timeoutUs

theorem Heir.mono {numeric : Bytes → Option Endpoint} {now : ℕ} {previous : List Prober} {first next next' : ℕ}
    {p : Prober} (h : Heir numeric now previous first next p) (hnext : next ≤ next') :
    Heir numeric now previous first next' p :=
  h.imp_right fun hnew => ⟨hnew.1, hnew.2.1.mono le_rfl hnext, hnew.2.2⟩

/-- A rebuild so far: no previous prober has been taken for a key that still lacks one. -/
structure Rebuild.Settled (numeric : Bytes → Option Endpoint) (now : ℕ) (previous : List Prober) (first : ℕ)
    (st : Rebuild) : Prop where
  le : first ≤ st.nextUid
  keys : st.currentByKey = (st.probers.map Prober.key).zipIdx
  consumed : ∀ i ∈ st.consumed, ∀ p, previous[i]? = some p → p.key ∈ st.probers.map Prober.key
  heirs : ∀ p ∈ st.probers, ∃ heir subscribers, Heir numeric now previous first st.nextUid heir ∧
    p = { heir with subscribers := subscribers }

namespace Rebuild
variable {numeric : Bytes → Option Endpoint} {now : ℕ} {previous : List Prober} {first : ℕ} {st : Rebuild}

theorem key_of_recycled_eq_none {key : Bytes} (h : st.recycled previous key = none)
    (hconsumed : ∀ i ∈ st.consumed, ∀ p, previous[i]? = some p → p.key ≠ key) :
    key ∉ previous.map Prober.key := by
  intro hmem
  unfold recycled at h
  split at h
  · next i p hlookup =>
    split_ifs at h with hi
    obtain ⟨⟨q, j⟩, hq, he⟩ := List.mem_map.mp (mem_of_lookup hlookup)
    simp only [Prod.mk.injEq] at he
    obtain ⟨hkey, rfl, rfl⟩ := he
    exact hconsumed j hi q (List.mem_zipIdx_iff_getElem?.mp hq) hkey
  · next hlookup =>
    rw [lookup_eq_none_iff_notMem, List.map_map] at hlookup
    have hkeys : previous.zipIdx.map (Prod.fst ∘ fun x : Prober × ℕ => (x.1.key, x.2, x.1)) =
        previous.map Prober.key := map_fst_zipIdx Prober.key previous
    exact hlookup (hkeys ▸ hmem)

theorem Settled.addProber (h : st.Settled numeric now previous first) {host : Bytes} {intervalUs timeoutUs : ℕ}
    (hnew : st.currentByKey.lookup (proberKey host intervalUs timeoutUs) = none) :
    (st.addProber numeric now previous host intervalUs timeoutUs).Settled numeric now previous first := by
  have hlacks : proberKey host intervalUs timeoutUs ∉ st.probers.map Prober.key :=
    lookup_zipIdx_eq_none_iff.mp (h.keys ▸ hnew)
  have hkeys : ∀ p : Prober, p.key = proberKey host intervalUs timeoutUs →
      st.currentByKey ++ [(proberKey host intervalUs timeoutUs, st.probers.length)] =
        ((st.probers ++ [p]).map Prober.key).zipIdx := by
    intro p hp
    rw [List.map_append, List.zipIdx_append, h.keys, List.map_singleton, hp, List.length_map, zero_add]
    rfl
  have hgrown : ∀ (p : Prober) {i : ℕ}, i ∈ st.consumed → ∀ q, previous[i]? = some q →
      q.key ∈ (st.probers ++ [p]).map Prober.key := by
    intro p i hi q hq
    rw [List.map_append]
    exact List.mem_append_left _ (h.consumed i hi q hq)
  unfold Rebuild.addProber
  dsimp only
  split
  · next i old hrecycled =>
    obtain ⟨hold, hkey, -⟩ := mem_of_recycled hrecycled
    refine ⟨h.le, hkeys _ hkey, fun j hj q hq => ?_, fun p hp => ?_⟩
    · obtain rfl | hj := List.mem_cons.mp hj
      · obtain rfl := Option.some.inj (hold.symm.trans hq)
        rw [List.map_append]
        exact List.mem_append_right _ (List.mem_singleton_self _)
      · exact hgrown _ hj q hq
    · obtain hp | hp := List.mem_append.mp hp
      · exact h.heirs p hp
      · exact ⟨old, [], Or.inl (List.mem_of_getElem? hold), List.mem_singleton.mp hp⟩
  · next hrecycled =>
    have hfirst : proberKey host intervalUs timeoutUs ∉ previous.map Prober.key :=
      key_of_recycled_eq_none hrecycled fun i hi p hp he => hlacks (he ▸ h.consumed i hi p hp)
    refine ⟨h.le.trans (Nat.le_succ _), hkeys _ rfl, fun j hj q hq => hgrown _ hj q hq, fun p hp => ?_⟩
    obtain hp | hp := List.mem_append.mp hp
    · obtain ⟨heir, subscribers, hheir, he⟩ := h.heirs p hp
      exact ⟨heir, subscribers, hheir.mono (Nat.le_succ _), he⟩
    · have huid : HandedOut first (st.nextUid + 1) (st.nextUid % 2 ^ 32) :=
        ⟨st.nextUid, h.le, Nat.lt_succ_self _, rfl⟩
      exact ⟨freshProber numeric now (st.nextUid % 2 ^ 32) host intervalUs timeoutUs, [],
        Or.inr ⟨hfirst, huid, rfl⟩, List.mem_singleton.mp hp⟩

/-- One turn of the inner loop. -/
theorem Settled.subscribe (h : st.Settled numeric now previous first) (client : Client) (c : ℕ)
    (slot : Destination × ℕ) :
    (st.subscribe numeric now previous client c slot).1.Settled numeric now previous first := by
  have hmodify : ∀ {st : Rebuild} (i : ℕ) (s : Subscriber), st.Settled numeric now previous first →
      { st with probers := st.probers.modify i fun p =>
        { p with subscribers := p.subscribers ++ [s] } }.Settled numeric now previous first := by
    intro st i s h
    refine ⟨h.le, ?_, fun j hj p hp => ?_, every_modify i ?_ h.heirs⟩
    · rw [key_modify]
      exact h.keys
    · rw [key_modify]
      exact h.consumed j hj p hp
    · rintro p ⟨heir, subscribers, hheir, rfl⟩
      exact ⟨heir, subscribers ++ [s], hheir, rfl⟩
  unfold Rebuild.subscribe
  split
  · exact h
  · refine hmodify _ _ ?_
    split
    · exact h
    · next hnone => exact h.addProber (Option.not_isSome_iff_eq_none.mp hnone)

end Rebuild

/-- What a reload makes of the probers. -/
theorem heirs_reloadClients (numeric : Bytes → Option Endpoint) (now : ℕ) (directory : Directory) (m : Monitor) :
    let next := m.reloadClients numeric now directory
    m.nextUid ≤ next.nextUid ∧ ∀ p ∈ next.probers, ∃ heir subscribers,
      Heir numeric now m.probers m.nextUid next.nextUid heir ∧
        p = { heir with
          subscribers := subscribers
          maxInFlight := neededInFlight heir.intervalUs heir.timeoutUs } := by
  have hsettled := mapAccum_keeps (f := Rebuild.subscribeClient numeric now m.probers)
    (Rebuild.Settled numeric now m.probers m.nextUid)
    ((loadedClients m.options directory).map (·.carryOver m.clients)).zipIdx
    (fun st slot _ hst => mapAccum_keeps _ _ (fun st dest _ hst => hst.subscribe slot.1 slot.2 dest) hst)
    (s := ⟨[], [], [], m.nextUid⟩) ⟨le_rfl, rfl, by simp, by simp⟩
  refine ⟨hsettled.le, fun p hp => ?_⟩
  obtain ⟨q, hq, rfl⟩ := List.mem_map.mp hp
  obtain ⟨heir, subscribers, hheir, rfl⟩ := hsettled.heirs q hq
  exact ⟨heir, subscribers, hheir, rfl⟩

namespace Monitor

/-- The streams are those that some enabled destination asks for. -/
theorem wants_iff {m : Monitor} (h : m.WellWired) {triple : Bytes × ℕ × ℕ} :
    m.Wants triple ↔ ∃ p ∈ m.probers, p.triple = triple := by
  constructor
  · rintro ⟨client, hclient, d, hd, henabled, rfl⟩
    obtain ⟨c, hc⟩ := List.mem_iff_getElem?.mp hclient
    obtain ⟨j, hj⟩ := List.mem_iff_getElem?.mp hd
    obtain ⟨i, stream, -, hstream, hidentity⟩ := h.linked.enabled _ (wire_mem hc hj) henabled
    obtain ⟨p, hp, rfl⟩ := List.mem_map.mp (List.mem_of_getElem? hstream)
    exact ⟨p, hp, hidentity⟩
  · rintro ⟨p, hp, rfl⟩
    obtain ⟨i, hi⟩ := List.mem_iff_getElem?.mp hp
    have hlt : i < (m.probers.map Prober.stream).length := by
      rw [List.length_map]
      exact (List.getElem?_eq_some_iff.mp hi).1
    obtain ⟨wire, hwire, hprober⟩ := h.used i hlt
    cases henabled : wire.enabled with
    | false => exact absurd ((h.linked.disabled wire hwire henabled).symm.trans hprober) (by simp)
    | true =>
      obtain ⟨j, stream, hj, hstream, hidentity⟩ := h.linked.enabled wire hwire henabled
      obtain rfl : j = i := Option.some.inj (hj.symm.trans hprober)
      rw [List.getElem?_map, hi] at hstream
      obtain rfl := Option.some.inj hstream
      obtain ⟨c, d, client, dest, hclient, hdest, rfl⟩ := exists_of_mem_wires hwire
      exact ⟨client, List.mem_of_getElem? hclient, dest, List.mem_of_getElem? hdest, henabled, hidentity.symm⟩

theorem triples {m : Monitor} (h : m.WellWired) : (m.probers.map Prober.triple).Nodup := by
  have hnodup := h.linked.identities
  rw [List.map_map] at hnodup
  exact hnodup

theorem eq_of_triple {m : Monitor} (h : m.WellWired) {p q : Prober} (hp : p ∈ m.probers)
    (hq : q ∈ m.probers) (he : p.triple = q.triple) : p = q :=
  List.inj_on_of_nodup_map (triples h) hp hq he

theorem handedOut_uid {m : Monitor} (h : m.WellWired) {p : Prober} (hp : p ∈ m.probers) :
    HandedOut 1 m.nextUid p.uid :=
  h.handedOut p.stream (List.mem_map_of_mem hp)

/-- A step leaves the wiring alone or is a reload. -/
theorem step_cases (numeric : Bytes → Option Endpoint) (m : Monitor) (event : Event) :
    (m.step numeric event).wiring = m.wiring ∨ ∃ directory, event.handler = .reloadClients directory ∧
      m.step numeric event = m.reloadClients numeric event.now directory := by
  by_cases hquiet : ∃ directory, event.handler = .reloadClients directory
  · obtain ⟨directory, hdirectory⟩ := hquiet
    refine Or.inr ⟨directory, hdirectory, ?_⟩
    unfold step
    rw [hdirectory]
  · exact Or.inl (m.wiring_step numeric event fun directory he => hquiet ⟨directory, he⟩)

/-- Every prober may have as much in flight as its stream needs. -/
def Roomy (m : Monitor) : Prop :=
  ∀ stream ∈ m.wiring.2.1, stream.maxInFlight = neededInFlight stream.intervalUs stream.timeoutUs

theorem roomy_step (numeric : Bytes → Option Endpoint) {m : Monitor} (h : m.Roomy) (event : Event) :
    (m.step numeric event).Roomy := by
  obtain hsame | ⟨directory, -, he⟩ := m.step_cases numeric event
  · unfold Roomy
    rw [hsame]
    exact h
  · rw [he]
    intro stream hstream
    obtain ⟨p, hp, rfl⟩ := List.mem_map.mp hstream
    obtain ⟨q, -, rfl⟩ := List.mem_map.mp hp
    rfl

theorem uids_of_wiring {m m' : Monitor} (hsame : m'.wiring = m.wiring) :
    m'.probers.map Prober.uid = m.probers.map Prober.uid := by
  have hstreams : m'.probers.map Prober.stream = m.probers.map Prober.stream :=
    congrArg (fun w : List SlotGroup × List Stream × List (ℕ × ℕ) × ℕ => w.2.1) hsame
  rw [← uids_streams, hstreams, uids_streams]

theorem nextUid_of_wiring {m m' : Monitor} (hsame : m'.wiring = m.wiring) : m'.nextUid = m.nextUid :=
  congrArg (fun w : List SlotGroup × List Stream × List (ℕ × ℕ) × ℕ => w.2.2.2) hsame

/-- Uids are only ever handed out. -/
theorem nextUid_step (numeric : Bytes → Option Endpoint) (m : Monitor) (event : Event) :
    m.nextUid ≤ (m.step numeric event).nextUid := by
  obtain hsame | ⟨directory, -, he⟩ := m.step_cases numeric event
  · exact (nextUid_of_wiring hsame).ge
  · rw [he]
    exact (heirs_reloadClients numeric event.now directory m).1

theorem nextUid_run (numeric : Bytes → Option Endpoint) (m : Monitor) (events : List Event) :
    m.nextUid ≤ ((handlers numeric).run m events).nextUid :=
  Machine.run_keeps (fun m' : Monitor => m.nextUid ≤ m'.nextUid)
    (fun m' event h => h.trans (m'.nextUid_step numeric event)) le_rfl events

variable {m : Monitor} (hwired : m.WellWired) (numeric : Bytes → Option Endpoint)
include hwired

/-- A stream wanted before and after goes on as it was. -/
theorem reload_keeps (hroomy : m.Roomy) (now : ℕ) (directory : Directory) {old p : Prober} (hold : old ∈ m.probers)
    (hp : p ∈ (m.reloadClients numeric now directory).probers) (htriple : p.triple = old.triple) :
    p = { old with subscribers := p.subscribers } := by
  obtain ⟨heir, subscribers, hheir, rfl⟩ := (heirs_reloadClients numeric now directory m).2 p hp
  obtain hheir | ⟨hnone, -⟩ := hheir
  · obtain rfl := eq_of_triple hwired hheir hold htriple
    have hroom := hroomy heir.stream (List.mem_map_of_mem hheir)
    change heir.maxInFlight = neededInFlight heir.intervalUs heir.timeoutUs at hroom
    rw [← hroom]
  · exact absurd (List.mem_map.mpr ⟨old, hold, key_eq_iff.mpr htriple.symm⟩) hnone

omit hwired in
/-- Any other stream is new. -/
theorem reload_creates (now : ℕ) (directory : Directory) {p : Prober}
    (hp : p ∈ (m.reloadClients numeric now directory).probers) (hnew : ∀ old ∈ m.probers, old.triple ≠ p.triple) :
    HandedOut m.nextUid (m.reloadClients numeric now directory).nextUid p.uid ∧
      p = { freshProber numeric now p.uid p.host p.intervalUs p.timeoutUs with
        subscribers := p.subscribers
        maxInFlight := p.maxInFlight } := by
  obtain ⟨heir, subscribers, hheir, rfl⟩ := (heirs_reloadClients numeric now directory m).2 p hp
  obtain hheir | ⟨-, huid, he⟩ := hheir
  · exact absurd rfl (hnew heir hheir)
  · exact ⟨huid, congrArg (fun heir : Prober => { heir with
      subscribers := subscribers
      maxInFlight := neededInFlight heir.intervalUs heir.timeoutUs }) he⟩

/-- Once a stream has ended, its uid is gone. -/
theorem reload_drops (now : ℕ) (directory : Directory) {old : Prober} (hold : old ∈ m.probers)
    (hnot : ¬ (m.reloadClients numeric now directory).Wants old.triple)
    (hnext : (m.reloadClients numeric now directory).nextUid ≤ 2 ^ 32 + 1) :
    old.uid ∉ (m.reloadClients numeric now directory).probers.map Prober.uid := by
  intro hmem
  obtain ⟨hle, hheirs⟩ := heirs_reloadClients numeric now directory m
  obtain ⟨p, hp, huid⟩ := List.mem_map.mp hmem
  have hwanted : (m.reloadClients numeric now directory).Wants p.triple :=
    (wants_iff (wellWired_step numeric hwired ⟨now, .reloadClients directory⟩)).mpr ⟨p, hp, rfl⟩
  obtain ⟨heir, subscribers, hheir, rfl⟩ := hheirs p hp
  obtain hheir | ⟨-, hnew, -⟩ := hheir
  · obtain rfl := List.inj_on_of_nodup_map (Monitor.WellWired.uids hwired (hle.trans hnext)).1 hheir hold huid
    exact hnot hwanted
  · exact (handedOut_uid hwired hold).ne hnew hnext huid.symm

/-- The uid of a stream that has ended is not handed out again before the counter comes around. -/
theorem uid_stays_gone {uid : ℕ} (hhanded : HandedOut 1 m.nextUid uid)
    (hgone : m.nextUid ≤ 2 ^ 32 + 1 → uid ∉ m.probers.map Prober.uid) (later : List Event) :
    let s := (handlers numeric).run m later
    s.WellWired ∧ (s.nextUid ≤ 2 ^ 32 + 1 → uid ∉ s.probers.map Prober.uid) := by
  have hkeep := Machine.run_keeps (M := handlers numeric)
    (fun s : Monitor => s.WellWired ∧ HandedOut 1 s.nextUid uid ∧
      (s.nextUid ≤ 2 ^ 32 + 1 → uid ∉ s.probers.map Prober.uid)) ?_ ⟨hwired, hhanded, hgone⟩ later
  · exact ⟨hkeep.1, hkeep.2.2⟩
  rintro s event ⟨hw, hh, hg⟩
  have hle := s.nextUid_step numeric event
  refine ⟨wellWired_step numeric hw event, hh.mono le_rfl hle, fun hnext hmem => ?_⟩
  have hbefore := hg (hle.trans hnext)
  obtain hsame | ⟨directory, -, he⟩ := s.step_cases numeric event
  · rw [handlers_step, uids_of_wiring hsame] at hmem
    exact hbefore hmem
  · rw [handlers_step, he] at hmem hnext
    obtain ⟨p, hp, rfl⟩ := List.mem_map.mp hmem
    obtain ⟨heir, subscribers, hheir, rfl⟩ := (heirs_reloadClients numeric event.now directory s).2 p hp
    obtain hheir | ⟨-, huid, -⟩ := hheir
    · exact hbefore (List.mem_map.mpr ⟨heir, hheir, rfl⟩)
    · exact hh.ne huid hnext rfl

/-- Nobody hears what comes for a uid that no prober has. -/
theorem proberOf_eq_none {uid : ℕ} (hgone : uid ∉ m.probers.map Prober.uid) : m.proberOf uid = none := by
  cases hfound : m.proberOf uid with
  | none => rfl
  | some found =>
    have hmem := List.mem_of_getElem? (proberOf_eq_some.mp hfound).2
    exact absurd (List.mem_map.mpr ⟨found.2, hmem, hwired.uid_of_proberOf hfound⟩) hgone

theorem handleReplies_filter {uid : ℕ} (hgone : uid ∉ m.probers.map Prober.uid) (now : ℕ) (io : Io)
    (replies : List Datagram) :
    m.handleReplies now io (replies.filter (·.uid ≠ uid)) = m.handleReplies now io replies := by
  refine Machine.foldl_filter_idle (fun s : Monitor => s.wiring = m.wiring)
    (fun s reply h => (s.wiring_handleReply now io reply).trans h) (fun s reply h huid => ?_) rfl replies
  obtain rfl : reply.uid = uid := by simpa using huid
  have hnone := proberOf_eq_none (hwired.of_wiring h) (uids_of_wiring h ▸ hgone)
  unfold handleReply
  rw [hnone]
  split_ifs <;> rfl

theorem handleResolutions_filter {uid : ℕ} (hgone : uid ∉ m.probers.map Prober.uid) (now : ℕ)
    (results : List Resolution) :
    m.handleResolutions now (results.filter (·.uid ≠ uid)) = m.handleResolutions now results := by
  refine Machine.foldl_filter_idle (fun s : Monitor => s.wiring = m.wiring)
    (fun s result h => (s.wiring_handleResolution now result).trans h) (fun s result h huid => ?_) rfl results
  obtain rfl : result.uid = uid := by simpa using huid
  have hnone := proberOf_eq_none (hwired.of_wiring h) (uids_of_wiring h ▸ hgone)
  unfold handleResolution
  rw [hnone]

end Monitor

/-- What a rebuild lays out of the streams so far. -/
def Rebuild.layout (st : Rebuild) : List (Bytes × List Subscriber) × List (Bytes × ℕ) :=
  (st.probers.map fun p => (p.key, p.subscribers), st.currentByKey)

section Layout
variable {numeric : Bytes → Option Endpoint} {now now' : ℕ} {previous previous' : List Prober} {st st' : Rebuild}

theorem layout_addProber (h : st.layout = st'.layout) (host : Bytes) (intervalUs timeoutUs : ℕ) :
    (st.addProber numeric now previous host intervalUs timeoutUs).layout =
      (st'.addProber numeric now' previous' host intervalUs timeoutUs).layout := by
  obtain ⟨p, hkey, hsubscribers, hprobers, hcurrent⟩ :=
    Rebuild.exists_addProber numeric now previous st host intervalUs timeoutUs
  obtain ⟨p', hkey', hsubscribers', hprobers', hcurrent'⟩ :=
    Rebuild.exists_addProber numeric now' previous' st' host intervalUs timeoutUs
  obtain ⟨hsame, htable⟩ := Prod.mk.inj h
  have hlength : st.probers.length = st'.probers.length := by
    simpa using congrArg List.length hsame
  unfold Rebuild.layout
  rw [hprobers, hprobers', hcurrent, hcurrent', List.map_append, List.map_append, hsame, htable, hlength,
    List.map_singleton, List.map_singleton, hkey, hkey', hsubscribers, hsubscribers']

theorem layout_attach (h : st.layout = st'.layout) (key : Bytes) (s : Subscriber) :
    { st with probers := st.probers.modify ((st.currentByKey.lookup key).getD 0) fun p =>
        { p with subscribers := p.subscribers ++ [s] } }.layout =
      { st' with probers := st'.probers.modify ((st'.currentByKey.lookup key).getD 0) fun p =>
        { p with subscribers := p.subscribers ++ [s] } }.layout := by
  obtain ⟨hsame, htable⟩ := Prod.mk.inj h
  have hmap : ∀ (probers : List Prober) (i : ℕ),
      (probers.modify i fun p => { p with subscribers := p.subscribers ++ [s] }).map
        (fun p => (p.key, p.subscribers)) = (probers.map fun p => (p.key, p.subscribers)).modify i
          fun entry => (entry.1, entry.2 ++ [s]) := by
    intro probers i
    refine map_modify (fun p => ?_) probers i
    rfl
  unfold Rebuild.layout
  rw [hmap, hmap, hsame, htable]

/-- The layout asks for nothing but the addresses, the intervals and what is enabled. -/
theorem layout_subscribe (h : st.layout = st'.layout) {client client' : Client} (c : ℕ)
    (hclient : (client.intervalUs, client.timeoutUs) = (client'.intervalUs, client'.timeoutUs))
    {slot slot' : Destination × ℕ}
    (hslot : ((slot.1.address, slot.1.enabled), slot.2) = ((slot'.1.address, slot'.1.enabled), slot'.2)) :
    (st.subscribe numeric now previous client c slot).1.layout =
      (st'.subscribe numeric now' previous' client' c slot').1.layout := by
  obtain ⟨hinterval, htimeout⟩ := Prod.mk.inj hclient
  obtain ⟨hask, hindex⟩ := Prod.mk.inj hslot
  obtain ⟨haddress, henabled⟩ := Prod.mk.inj hask
  obtain ⟨-, htable⟩ := Prod.mk.inj h
  unfold Rebuild.subscribe
  rw [henabled, haddress, hinterval, htimeout, hindex]
  split
  · exact h
  · refine layout_attach ?_ _ _
    rw [htable]
    split
    · exact h
    · exact layout_addProber h ..

/-- Two rebuilds for clients that ask for the same lay out the same. -/
theorem layout_subscribeClients (numeric : Bytes → Option Endpoint) (now now' : ℕ) (previous previous' : List Prober)
    (h : st.layout = st'.layout) {clients clients' : List Client}
    (hasks : clients.map Client.asks = clients'.map Client.asks) :
    (mapAccum (Rebuild.subscribeClient numeric now previous) st clients.zipIdx).1.layout =
      (mapAccum (Rebuild.subscribeClient numeric now' previous') st' clients'.zipIdx).1.layout := by
  refine mapAccum_rel (fun st st' : Rebuild => st.layout = st'.layout)
    (fun slot : Client × ℕ => (slot.1.asks, slot.2)) (fun slot : Client × ℕ => (slot.1.asks, slot.2))
    (fun st st' slot slot' h hslot => ?_) h ?_
  · obtain ⟨hclient, hindex⟩ := Prod.mk.inj hslot
    obtain ⟨hinterval, hrest⟩ := Prod.mk.inj hclient
    obtain ⟨htimeout, hdestinations⟩ := Prod.mk.inj hrest
    unfold Rebuild.subscribeClient
    rw [hindex]
    refine mapAccum_rel (fun st st' : Rebuild => st.layout = st'.layout)
      (fun d : Destination × ℕ => ((d.1.address, d.1.enabled), d.2))
      (fun d : Destination × ℕ => ((d.1.address, d.1.enabled), d.2))
      (fun st st' d d' h hd => layout_subscribe h slot'.2 (by rw [hinterval, htimeout]) hd) h ?_
    have hzip := congrArg List.zipIdx hdestinations
    rw [List.zipIdx_map, List.zipIdx_map] at hzip
    exact hzip
  · have hzip := congrArg List.zipIdx hasks
    rw [List.zipIdx_map, List.zipIdx_map] at hzip
    exact hzip

end Layout
/-- The order in which the directory is read does not matter. -/
theorem loadedClients_perm (options : Options) {directory directory' : Directory}
    (h : directory'.entries.Perm directory.entries) :
    loadedClients options directory' = loadedClients options directory := by
  have hperm : (loadedClients options directory').Perm (loadedClients options directory) :=
    (List.perm_insertionSort ..).trans ((h.filterMap _).trans (List.perm_insertionSort ..).symm)
  refine hperm.eq_of_pairwise (fun a b ha hb hab hba => ?_) (List.pairwise_insertionSort _ _)
    (List.pairwise_insertionSort _ _)
  have hid : a.id = b.id := List.le_antisymm hab hba
  exact List.inj_on_of_nodup_map (nodup_ids_loadedClients options directory) (hperm.subset ha) hb hid

namespace Monitor

theorem options_step (numeric : Bytes → Option Endpoint) (m : Monitor) (event : Event) :
    (m.step numeric event).options = m.options := by
  obtain ⟨now, handler⟩ := event
  cases handler with
  | handleReplies io replies =>
    have hbare : (m.handleReplies now io replies).bare.options = m.bare.options := by rw [bare_handleReplies]
    exact hbare
  | handleResolutions results =>
    have hbare : (m.handleResolutions now results).bare.options = m.bare.options := by rw [bare_handleResolutions]
    exact hbare
  | dropExpiredClients after realNow mtime =>
    unfold step dropExpiredClients
    dsimp only
    split_ifs <;> rfl
  | noteIdle after =>
    unfold step noteIdle
    dsimp only
    split_ifs <;> rfl
  | publish force =>
    unfold step publish
    dsimp only
    split_ifs <;> rfl
  | reloadClients | tick | flag | enter => rfl

/-- A reload of the files that were read last lays out the streams there are, and keeps each. -/
theorem reload_unchanged (numeric : Bytes → Option Endpoint) {m before : Monitor} (hwired : m.WellWired)
    (hroomy : m.Roomy) {t : ℕ} {files : Directory} (hoptions : m.options = before.options)
    (hsame : m.wiring = (before.reloadClients numeric t files).wiring) (now : ℕ) {directory : Directory}
    (hfiles : directory.entries.Perm files.entries) :
    (m.reloadClients numeric now directory).probers = m.probers := by
  have hasks : ∀ m : Monitor, ((loadedClients m.options files).map (·.carryOver m.clients)).map Client.asks =
      (loadedClients m.options files).map Client.asks := by
    intro m
    rw [List.map_map]
    exact List.map_congr_left fun client _ => asks_carryOver client m.clients
  have hempty : Rebuild.layout ⟨[], [], [], m.nextUid⟩ = Rebuild.layout ⟨[], [], [], before.nextUid⟩ := rfl
  have hclients : ((loadedClients m.options files).map (·.carryOver m.clients)).map Client.asks =
      ((loadedClients before.options files).map (·.carryOver before.clients)).map Client.asks := by
    rw [hasks, hasks, hoptions]
  have hrebuilt := layout_subscribeClients numeric now t m.probers before.probers hempty hclients
  have hlayout : (m.reloadClients numeric now directory).probers.map (fun p => (p.key, p.subscribers)) =
      m.probers.map fun p => (p.key, p.subscribers) := by
    have hbefore : m.probers.map (fun p => (p.key, p.subscribers)) =
        (before.reloadClients numeric t files).probers.map fun p => (p.key, p.subscribers) := by
      have hstreams : m.probers.map Prober.stream = (before.reloadClients numeric t files).probers.map Prober.stream :=
        congrArg (fun w : List SlotGroup × List Stream × List (ℕ × ℕ) × ℕ => w.2.1) hsame
      have hmap := congrArg (List.map fun stream : Stream =>
        (proberKey stream.host stream.intervalUs stream.timeoutUs, stream.subscribers)) hstreams
      rw [List.map_map, List.map_map] at hmap
      exact hmap
    have hrooms : ∀ probers : List Prober, (probers.map fun p =>
        { p with maxInFlight := neededInFlight p.intervalUs p.timeoutUs }).map (fun p => (p.key, p.subscribers)) =
          probers.map fun p => (p.key, p.subscribers) := by
      intro probers
      rw [List.map_map]
      rfl
    have hrebuilt' := (hrooms _).trans ((Prod.mk.inj hrebuilt).1.trans (hrooms _).symm)
    rw [hbefore]
    unfold reloadClients rebuildProbers
    dsimp only
    rw [loadedClients_perm m.options hfiles]
    exact hrebuilt'
  refine List.ext_getElem? fun i => ?_
  have hentry := congrArg (·[i]?) hlayout
  simp only [List.getElem?_map] at hentry
  cases hold : m.probers[i]? with
  | none =>
    rw [hold] at hentry
    simpa using hentry
  | some old =>
    rw [hold] at hentry
    obtain ⟨p, hp, he⟩ := Option.map_eq_some_iff.mp hentry
    obtain ⟨hkey, hsubscribers⟩ := Prod.mk.inj he
    have hkept := reload_keeps hwired numeric hroomy now directory (List.mem_of_getElem? hold)
      (List.mem_of_getElem? hp) (key_eq_iff.mp hkey)
    rw [hp, hkept, hsubscribers]

/-- Nor does anything that happens in between keep it from that. -/
theorem reload_unchanged_run (numeric : Bytes → Option Endpoint) (before : Monitor) {t : ℕ} {files : Directory}
    {after : List Event} (hquiet : ∀ event ∈ after, ∀ files, event.handler ≠ .reloadClients files)
    (hwired : ((handlers numeric).run (before.reloadClients numeric t files) after).WellWired)
    (hroomy : ((handlers numeric).run (before.reloadClients numeric t files) after).Roomy) (now : ℕ)
    {directory : Directory} (hfiles : directory.entries.Perm files.entries) :
    (((handlers numeric).run (before.reloadClients numeric t files) after).reloadClients numeric now directory).probers =
      ((handlers numeric).run (before.reloadClients numeric t files) after).probers := by
  obtain ⟨hsame, hoptions⟩ := Machine.run_invariant (M := handlers numeric)
    (fun s : Monitor => s.wiring = (before.reloadClients numeric t files).wiring ∧ s.options = before.options)
    (fun _ event => ∀ files, event.handler ≠ .reloadClients files)
    (fun s event h hevent => ⟨(s.wiring_step numeric event hevent).trans h.1, (s.options_step numeric event).trans h.2⟩)
    ⟨rfl, rfl⟩ (Machine.admits_of_forall (fun event hevent _ => hquiet event hevent)
      (before.reloadClients numeric t files))
  exact reload_unchanged numeric hwired hroomy hoptions hsame now hfiles

end Monitor
/-- What a reload does to the streams, given the probers there have ever been. -/
structure StreamsSurvive (numeric : Bytes → Option Endpoint) (now : ℕ) (seen : Prober → Prop) (m next : Monitor) :
    Prop where
  kept : ∀ triple, m.Wants triple → next.Wants triple → ∃ old ∈ m.probers, ∃ p ∈ next.probers,
    old.triple = triple ∧ p.triple = triple ∧ p = { old with subscribers := p.subscribers }
  created : ∀ triple, ¬ m.Wants triple → next.Wants triple → ∃ p ∈ next.probers, p.triple = triple ∧
    p = { freshProber numeric now p.uid p.host p.intervalUs p.timeoutUs with
      subscribers := p.subscribers
      maxInFlight := p.maxInFlight } ∧
    (next.nextUid - 1 < 2 ^ 32 → ∀ earlier, seen earlier → earlier.uid ≠ p.uid)
  wanted : ∀ p ∈ next.probers, next.Wants p.triple
  triples : (next.probers.map Prober.triple).Nodup
  uids : next.nextUid - 1 < 2 ^ 32 → (next.probers.map Prober.uid).Nodup
  /-- Replies and lookup results for a stream that ended, whenever they come. -/
  dropped : ∀ old ∈ m.probers, ¬ next.Wants old.triple → ∀ later,
    let s := (handlers numeric).run next later
    s.nextUid - 1 < 2 ^ 32 → ∀ now,
      (∀ io replies, s.handleReplies now io (replies.filter (·.uid ≠ old.uid)) = s.handleReplies now io replies) ∧
      ∀ results, s.handleResolutions now (results.filter (·.uid ≠ old.uid)) = s.handleResolutions now results

namespace Monitor
variable {m : Monitor} (hwired : m.WellWired) (hroomy : m.Roomy) (numeric : Bytes → Option Endpoint)
include hwired hroomy

theorem streamsSurvive_reload (now : ℕ) (directory : Directory) {seen : Prober → Prop}
    (hseen : ∀ earlier, seen earlier → HandedOut 1 m.nextUid earlier.uid) :
    StreamsSurvive numeric now seen m (m.reloadClients numeric now directory) := by
  have hnext : (m.reloadClients numeric now directory).WellWired :=
    wellWired_step numeric hwired ⟨now, .reloadClients directory⟩
  refine ⟨fun triple hm hn => ?_, fun triple hm hn => ?_, fun p hp => (wants_iff hnext).mpr ⟨p, hp, rfl⟩,
    triples hnext, fun hcount => ?_, fun old hold hnot later => ?_⟩
  · obtain ⟨old, hold, rfl⟩ := (wants_iff hwired).mp hm
    obtain ⟨p, hp, htriple⟩ := (wants_iff hnext).mp hn
    exact ⟨old, hold, p, hp, rfl, htriple, reload_keeps hwired numeric hroomy now directory hold hp htriple⟩
  · obtain ⟨p, hp, rfl⟩ := (wants_iff hnext).mp hn
    obtain ⟨huid, hfresh⟩ := reload_creates numeric now directory hp
      fun old hold he => hm ((wants_iff hwired).mpr ⟨old, hold, he⟩)
    exact ⟨p, hp, rfl, hfresh, fun hcount earlier hearlier => (hseen earlier hearlier).ne huid (by omega)⟩
  · exact (WellWired.uids hnext (by omega)).1
  · intro s hcount now'
    have hle := (heirs_reloadClients numeric now directory m).1
    obtain ⟨hlater, hgone⟩ := uid_stays_gone hnext numeric ((handedOut_uid hwired hold).mono le_rfl hle)
      (reload_drops hwired numeric now directory hold hnot) later
    have huid := hgone (show s.nextUid ≤ 2 ^ 32 + 1 by omega)
    exact ⟨fun io replies => handleReplies_filter hlater huid now' io replies,
      fun results => handleResolutions_filter hlater huid now' results⟩

end Monitor

/-- Any reload in any state that the handlers reach; one that finds the files of the last reload
leaves the probers as they are. -/
theorem streams_survive_reload (numeric : Bytes → Option Endpoint) (options : Options)
    (socket4 socket6 : IcmpSocket) (cookie startedRealUs : ℕ) (events : List Event) (now : ℕ)
    (directory : Directory) :
    let initial := Monitor.initial options socket4 socket6 cookie startedRealUs
    let m := (handlers numeric).run initial events
    let next := m.reloadClients numeric now directory
    StreamsSurvive numeric now
        (fun p => ∃ before after, events = before ++ after ∧ p ∈ ((handlers numeric).run initial before).probers)
        m next ∧
      ∀ before t files after, events = before ++ ⟨t, .reloadClients files⟩ :: after →
        (∀ event ∈ after, ∀ files, event.handler ≠ .reloadClients files) →
        directory.entries.Perm files.entries → next.probers = m.probers := by
  intro initial m next
  have hwired : ∀ events, ((handlers numeric).run initial events).WellWired := fun events =>
    Monitor.wellWired_run numeric options socket4 socket6 cookie startedRealUs events
  have hroomy : m.Roomy := Machine.run_keeps Monitor.Roomy (fun _ event h => Monitor.roomy_step numeric h event)
    (show initial.Roomy by simp [initial, Monitor.initial, Monitor.Roomy, Monitor.wiring]) events
  refine ⟨Monitor.streamsSurvive_reload (hwired events) hroomy numeric now directory ?_, ?_⟩
  · rintro p ⟨before, after, rfl, hp⟩
    refine (Monitor.handedOut_uid (hwired before) hp).mono le_rfl ?_
    have hle := Monitor.nextUid_run numeric ((handlers numeric).run initial before) after
    rwa [← Machine.run_append] at hle
  · rintro before t files after rfl hquiet hfiles
    have hm : m = (handlers numeric).run
        (((handlers numeric).run initial before).reloadClients numeric t files) after := by
      simp only [m, Machine.run_append, Machine.run_cons]
      rfl
    have hwired' := hwired (before ++ ⟨t, .reloadClients files⟩ :: after)
    change m.WellWired at hwired'
    change (m.reloadClients numeric now directory).probers = m.probers
    rw [hm] at hwired' hroomy ⊢
    exact Monitor.reload_unchanged_run numeric _ hquiet hwired' hroomy now hfiles

/-- Of two streams with a probe in flight one ends and another begins; the reply to the one that
ended comes after that. -/
theorem streams_survive_reload_run :
    let numeric : Bytes → Option Endpoint := fun host => some ⟨.inet, ⟨.inet, host⟩, 16, host⟩
    let file : List String → DirEntry := fun hosts => ⟨ascii "w.json", some (.object [(ascii "destinations",
      .array (hosts.map fun host => .object [(ascii "address", .string (ascii host))]))])⟩
    let io : Io := ⟨fun _ => .sent, fun _ => 0⟩
    let m := (handlers numeric).run
      (.initial ⟨[], 1000000, 0, 0, 50, by decide, by decide⟩ ⟨true, false, []⟩ ⟨true, false, []⟩ 5 0)
      [⟨1000, .reloadClients ⟨[file ["a", "b"]], by simp⟩⟩, ⟨1000, .tick io⟩]
    let next := m.reloadClients numeric 2000 ⟨[file ["c", "a"]], by simp⟩
    let reply : Datagram := ⟨5, 2, 1, 1000, ⟨.inet, ascii "b"⟩, 16⟩
    m.probers.map (fun p => (p.uid, p.inFlight.length)) = [(1, 1), (2, 1)] ∧
      next.probers.map (fun p => (p.uid, p.inFlight.length)) = [(3, 0), (1, 1)] ∧
      (m.handleReplies 2000 io [reply]).probers ≠ m.probers ∧ next.handleReplies 2000 io [reply] = next ∧
      (m.reloadClients numeric 2000 ⟨[file ["a", "b"]], by simp⟩).probers = m.probers := by
  intro numeric file io m next reply
  let options : Options := ⟨[], 1000000, 0, 0, 50, by decide, by decide⟩
  let events : List Event := [⟨1000, .reloadClients ⟨[file ["a", "b"]], by simp⟩⟩, ⟨1000, .tick io⟩]
  obtain ⟨hsurvive, -⟩ := streams_survive_reload numeric options ⟨true, false, []⟩ ⟨true, false, []⟩ 5 0 events
    2000 ⟨[file ["c", "a"]], by simp⟩
  obtain ⟨-, hunchanged⟩ := streams_survive_reload numeric options ⟨true, false, []⟩ ⟨true, false, []⟩ 5 0 events
    2000 ⟨[file ["a", "b"]], by simp⟩
  refine ⟨by decide +kernel, by decide +kernel, by decide +kernel, ?_, ?_⟩
  · obtain ⟨old, hold, huid, hgone⟩ : ∃ old ∈ m.probers, old.uid = 2 ∧
        ∀ p ∈ next.probers, p.triple ≠ old.triple := by decide +kernel
    have hnext : next.WellWired := Monitor.wellWired_step numeric
      (Monitor.wellWired_run numeric options ⟨true, false, []⟩ ⟨true, false, []⟩ 5 0 events) ⟨2000, .reloadClients _⟩
    have hnot : ¬ next.Wants old.triple := by
      rw [Monitor.wants_iff hnext]
      rintro ⟨p, hp, he⟩
      exact hgone p hp he
    have hidle := (hsurvive.dropped old hold hnot [] (by decide +kernel) 2000).1 io [reply]
    rw [huid] at hidle
    exact hidle.symm
  · exact hunchanged [] 1000 _ [⟨1000, .tick io⟩] rfl (by simp) (List.Perm.refl _)

end NetworkHealth.Daemon
