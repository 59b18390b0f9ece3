import NetworkHealth.Daemon.Reload

/-! What a reload does to evaluated states. A destination is known by its client, its id and its
address: what is known about it goes on under these three, and nothing else of the old
configuration reaches the new one. -/
namespace NetworkHealth.Daemon

/-- What the daemon has found out about a destination. -/
structure Evaluation where
  state : HealthState
  candidate : HealthState
  candidateStreak : ℕ
  haveRtt : Bool
  rttUs : ℕ
  sent : ℕ
  received : ℕ
  lastReplyRealUs : ℕ
  lastChangeRealUs : ℕ
  deriving DecidableEq, Repr

/-- Nothing is known. -/
def Evaluation.fresh : Evaluation := ⟨.unknown, .unknown, 0, false, 0, 0, 0, 0, 0⟩

namespace Destination

def evaluation (d : Destination) : Evaluation :=
  ⟨d.state, d.candidate, d.candidateStreak, d.haveRtt, d.rttUs, d.sent, d.received, d.lastReplyRealUs,
    d.lastChangeRealUs⟩

/-- What a destination is known by within its client. -/
def pair (d : Destination) : Bytes × Bytes := (d.id, d.address)

/-- A destination with what is known about it. -/
def known (d : Destination) : (Bytes × Bytes) × Evaluation := (d.pair, d.evaluation)

@[simp] theorem pair_sample (d : Destination) (received : Bool) (rttUs realNow : ℕ) :
    (d.sample received rttUs realNow).pair = d.pair := by
  unfold sample judge
  dsimp only
  split_ifs <;> rfl

end Destination

/-- A client's destinations with what is known about them. -/
def Client.known (client : Client) : Bytes × List ((Bytes × Bytes) × Evaluation) :=
  (client.id, client.destinations.map Destination.known)

/-- A client with the pairs its destinations are known by. -/
def Client.pairs (client : Client) : Bytes × List (Bytes × Bytes) :=
  (client.id, client.destinations.map Destination.pair)

/-- No client file names the same destination twice. -/
def DistinctPairs (options : Options) (files : Directory) : Prop :=
  ∀ client ∈ loadedClients options files, (client.destinations.map Destination.pair).Nodup

instance (options : Options) (files : Directory) : Decidable (DistinctPairs options files) :=
  inferInstanceAs (Decidable (∀ client ∈ loadedClients options files, _))

/-- What a destination takes over from the rows that were there before: what is known about the
first of them with its pair. -/
def inherited (rows : List Destination) (pair : Bytes × Bytes) : Evaluation :=
  ((rows.find? fun old => old.pair = pair).map Destination.evaluation).getD .fresh

theorem pair_eq_iff {d old : Destination} : old.pair = d.pair ↔ old.id = d.id ∧ old.address = d.address :=
  Prod.mk_inj

theorem inherited_of_mem {rows : List Destination} {old : Destination}
    (hdistinct : (rows.map Destination.pair).Nodup) (hold : old ∈ rows) :
    inherited rows old.pair = old.evaluation := by
  have hfound : (rows.find? fun other => other.pair = old.pair) = some old := by
    cases hfind : rows.find? fun other => other.pair = old.pair with
    | none =>
      rw [List.find?_eq_none] at hfind
      exact absurd (by simp) (hfind old hold)
    | some other =>
      have hother : other.pair = old.pair := by simpa using List.find?_some hfind
      rw [List.inj_on_of_nodup_map hdistinct (List.mem_of_find?_eq_some hfind) hold hother]
  rw [inherited, hfound]
  rfl

theorem inherited_of_notMem {rows : List Destination} {pair : Bytes × Bytes}
    (h : pair ∉ rows.map Destination.pair) : inherited rows pair = .fresh := by
  have hnone : (rows.find? fun old => old.pair = pair) = none := by
    rw [List.find?_eq_none]
    intro old hold hpair
    exact h (List.mem_map.mpr ⟨old, hold, by simpa using hpair⟩)
  rw [inherited, hnone]
  rfl

/-- The rows a client had before, none if it is new. -/
def rowsBefore (previous : List Client) (id : Bytes) : List Destination :=
  ((previous.find? (·.id = id)).map Client.destinations).getD []

theorem rowsBefore_of_mem {previous : List Client} (hids : (previous.map Client.id).Nodup) {before : Client}
    (h : before ∈ previous) : rowsBefore previous before.id = before.destinations := by
  have hfound : previous.find? (·.id = before.id) = some before := by
    cases hfind : previous.find? (·.id = before.id) with
    | none =>
      rw [List.find?_eq_none] at hfind
      exact absurd (by simp) (hfind before h)
    | some other =>
      have hother : other.id = before.id := by simpa using List.find?_some hfind
      rw [List.inj_on_of_nodup_map hids (List.mem_of_find?_eq_some hfind) h hother]
  rw [rowsBefore, hfound]
  rfl

theorem rowsBefore_of_notMem {previous : List Client} {id : Bytes} (h : id ∉ previous.map Client.id) :
    rowsBefore previous id = [] := by
  have hnone : previous.find? (·.id = id) = none := by
    rw [List.find?_eq_none]
    intro before hbefore hid
    exact h (List.mem_map.mpr ⟨before, hbefore, by simpa using hid⟩)
  rw [rowsBefore, hnone]
  rfl

/-- What a client that is loaded with these pairs knows after a reload. -/
def inheritAll (previous : List Client) (client : Bytes × List (Bytes × Bytes)) :
    Bytes × List ((Bytes × Bytes) × Evaluation) :=
  (client.1, client.2.map fun pair => (pair, inherited (rowsBefore previous client.1) pair))

theorem evaluation_of_loadDestination {entry : Json} {i : ℕ} {d : Destination}
    (h : loadDestination entry i = some d) : d.evaluation = .fresh := by
  cases entry <;> simp only [loadDestination, reduceCtorEq] at h
  next members =>
    split at h
    · cases h
    · obtain rfl := Option.some.inj h
      rfl

/-- A client takes over what is known about its destinations, row by row. -/
theorem known_carryOver {client : Client} (hfresh : ∀ d ∈ client.destinations, d.evaluation = .fresh)
    (previous : List Client) : (client.carryOver previous).known = inheritAll previous client.pairs := by
  unfold Client.carryOver inheritAll Client.pairs rowsBefore
  dsimp only
  rw [List.map_map]
  cases previous.find? (·.id = client.id) with
  | none =>
    refine congrArg (Prod.mk client.id) (List.map_congr_left fun d hd => ?_)
    rw [Destination.known, hfresh d hd]
    rfl
  | some before =>
    refine congrArg (Prod.mk client.id) ?_
    rw [List.map_map]
    apply List.map_congr_left
    intro d hd
    simp only [Function.comp_apply, Option.map_some, Option.getD_some, inherited, pair_eq_iff]
    cases before.destinations.find? fun old => old.id = d.id ∧ old.address = d.address with
    | none => simp [Destination.known, hfresh d hd]
    | some old => rfl

/-- Wiring the destinations to their probers changes nothing else about them. -/
theorem map_rebuildProbers {β : Type*} {view : Destination → β}
    (hview : ∀ d prober, view { d with prober := prober } = view d) (numeric : Bytes → Option Endpoint)
    (now : ℕ) (m : Monitor) :
    (m.rebuildProbers numeric now).clients.map (fun client => (client.id, client.destinations.map view)) =
      m.clients.map fun client => (client.id, client.destinations.map view) := by
  have hrow : ∀ (client : Client) c st slot,
      view (Rebuild.subscribe numeric now m.probers client c st slot).2 = view slot.1 := by
    intro client c st slot
    unfold Rebuild.subscribe
    split_ifs
    · exact hview _ _
    all_goals exact hview _ _
  refine (map_mapAccum (fun slot : Client × ℕ => (slot.1.id, slot.1.destinations.map view))
    (fun client : Client => (client.id, client.destinations.map view)) (fun st slot => ?_) _ _).trans ?_
  · refine congrArg (Prod.mk slot.1.id) ?_
    refine (map_mapAccum (fun slot : Destination × ℕ => view slot.1) view
      (fun st row => hrow slot.1 slot.2 st row) st slot.1.destinations.zipIdx).trans ?_
    change slot.1.destinations.zipIdx.map (view ∘ Prod.fst) = _
    rw [← List.map_map, List.zipIdx_map_fst]
  · change m.clients.zipIdx.map ((fun client : Client => (client.id, client.destinations.map view)) ∘ Prod.fst) = _
    rw [← List.map_map, List.zipIdx_map_fst]

section Reload
variable (numeric : Bytes → Option Endpoint) (now : ℕ) (directory : Directory) (m : Monitor)

/-- A reload: the destinations are those of the files, and what is known about them is what
was known under the same three names before. -/
theorem known_reloadClients : (m.reloadClients numeric now directory).clients.map Client.known =
    ((loadedClients m.options directory).map Client.pairs).map (inheritAll m.clients) := by
  have hkept : ∀ (d : Destination) prober, Destination.known { d with prober := prober } = d.known := fun _ _ => rfl
  refine (map_rebuildProbers hkept numeric now { m with
    configDirty := false, clients := (loadedClients m.options directory).map (·.carryOver m.clients) }).trans ?_
  rw [List.map_map, List.map_map]
  apply List.map_congr_left
  intro client hclient
  obtain ⟨entry, hentry⟩ := exists_of_mem_loadedClients hclient
  refine known_carryOver (fun d hd => ?_) m.clients
  obtain ⟨members, i, hjson⟩ := exists_of_loadEntry hentry hd
  exact evaluation_of_loadDestination hjson

theorem pairs_of_known (client : Client) :
    client.pairs = (client.known.1, client.known.2.map Prod.fst) := by
  simp only [Client.pairs, Client.known, List.map_map]
  rfl

theorem pairs_reloadClients : (m.reloadClients numeric now directory).clients.map Client.pairs =
    (loadedClients m.options directory).map Client.pairs := by
  have hview : Client.pairs = (fun known => (known.1, known.2.map Prod.fst)) ∘ Client.known :=
    funext pairs_of_known
  rw [hview, ← List.map_map, known_reloadClients, ← hview, List.map_map, List.map_map]
  refine List.map_congr_left fun client _ => ?_
  simp [inheritAll, Client.pairs, List.map_map, Function.comp_def]

/-- What is known about a destination after a reload. -/
theorem evaluation_of_reloadClients {client : Client}
    (hclient : client ∈ (m.reloadClients numeric now directory).clients) {d : Destination}
    (hd : d ∈ client.destinations) : d.evaluation = inherited (rowsBefore m.clients client.id) d.pair := by
  have hmem : client.known ∈ ((loadedClients m.options directory).map Client.pairs).map (inheritAll m.clients) := by
    rw [← known_reloadClients numeric now]
    exact List.mem_map_of_mem hclient
  obtain ⟨pairs, -, hpairs⟩ := List.mem_map.mp hmem
  obtain ⟨hid, hrows⟩ := Prod.mk.inj hpairs
  have hrow : d.known ∈ pairs.2.map fun pair => (pair, inherited (rowsBefore m.clients pairs.1) pair) := by
    rw [hrows]
    exact List.mem_map_of_mem hd
  obtain ⟨pair, -, hpair⟩ := List.mem_map.mp hrow
  obtain ⟨rfl, hevaluation⟩ := Prod.mk.inj hpair
  rw [← hevaluation, hid]

/-- A second reload of files that are as they were, with nothing known having been lost in
between, gives every destination back what was known about it. -/
theorem known_reloadClients_of_pairs (hids : (m.clients.map Client.id).Nodup)
    (hpairs : m.clients.map Client.pairs = (loadedClients m.options directory).map Client.pairs)
    (hdistinct : ∀ client ∈ m.clients, (client.destinations.map Destination.pair).Nodup) :
    (m.reloadClients numeric now directory).clients.map Client.known = m.clients.map Client.known := by
  rw [known_reloadClients, ← hpairs, List.map_map]
  apply List.map_congr_left
  intro client hclient
  simp only [Function.comp_apply, inheritAll, Client.pairs, Client.known, List.map_map,
    rowsBefore_of_mem hids hclient]
  refine congrArg (Prod.mk client.id) (List.map_congr_left fun d hd => ?_)
  simp only [Function.comp_apply, Destination.known, inherited_of_mem (hdistinct client hclient) hd]

end Reload

theorem pairs_sampled (client : Client) (i : ℕ) (received : Bool) (rttUs realNow : ℕ) :
    Client.pairs { client with destinations := client.destinations.modify i (·.sample received rttUs realNow) } =
      client.pairs :=
  congrArg (Prod.mk client.id)
    (map_modify_eq (fun d : Destination => d.pair_sample received rttUs realNow) client.destinations i)

/-- Between two reloads every destination keeps its names. -/
theorem pairs_run (numeric : Bytes → Option Endpoint) (m : Monitor) {events : List Event}
    (hquiet : ∀ event ∈ events, ∀ files, event.handler ≠ .reloadClients files) :
    ((handlers numeric).run m events).clients.map Client.pairs = m.clients.map Client.pairs :=
  Machine.run_invariant (fun s : Monitor => s.clients.map Client.pairs = m.clients.map Client.pairs)
    (fun _ event => ∀ files, event.handler ≠ .reloadClients files)
    (fun s event h hevent => (map_clients_step pairs_sampled numeric s event hevent).trans h) rfl
    (Machine.admits_of_forall (fun event hevent _ => hquiet event hevent) m)

theorem options_run (numeric : Bytes → Option Endpoint) (m : Monitor) (events : List Event) :
    ((handlers numeric).run m events).options = m.options :=
  Machine.run_keeps (fun s : Monitor => s.options = m.options)
    (fun s event h => (s.options_step numeric event).trans h) rfl events

/-- In every reachable state, a reload of any files in which no client names a destination
twice: a destination with the client, id and address of an earlier one goes on with what is
known about that one (if earlier files named it twice, about the first of its rows), and every
other destination starts with nothing known. Reloading the files that were read last changes
nothing that is known. -/
theorem evaluated_state_survives (numeric : Bytes → Option Endpoint) (options : Options)
    (socket4 socket6 : IcmpSocket) (cookie startedRealUs : ℕ) (events : List Event) (now : ℕ)
    (directory : Directory) (hdistinct : DistinctPairs options directory) :
    let m := (handlers numeric).run (.initial options socket4 socket6 cookie startedRealUs) events
    let next := m.reloadClients numeric now directory
    (∀ client ∈ next.clients, (client.destinations.map Destination.pair).Nodup ∧ ∀ d ∈ client.destinations,
      (∀ before ∈ m.clients, before.id = client.id → ∀ old,
        before.destinations.find? (fun old => old.pair = d.pair) = some old → d.evaluation = old.evaluation) ∧
      (∀ before ∈ m.clients, before.id = client.id → (before.destinations.map Destination.pair).Nodup →
        ∀ old ∈ before.destinations, old.pair = d.pair → d.evaluation = old.evaluation) ∧
      ((∀ before ∈ m.clients, before.id = client.id → d.pair ∉ before.destinations.map Destination.pair) →
        d.evaluation = .fresh)) ∧
    ∀ earlier t files after, events = earlier ++ ⟨t, .reloadClients files⟩ :: after →
      (∀ event ∈ after, ∀ files, event.handler ≠ .reloadClients files) →
      directory.entries.Perm files.entries → next.clients.map Client.known = m.clients.map Client.known := by
  intro m next
  have hids : (m.clients.map Client.id).Nodup :=
    nodup_ids_run numeric options socket4 socket6 cookie startedRealUs events
  have hoptions : m.options = options := options_run numeric _ events
  have hrows : ∀ client ∈ (loadedClients options directory).map Client.pairs, client.2.Nodup := by
    intro pairs hpairs
    obtain ⟨client, hclient, rfl⟩ := List.mem_map.mp hpairs
    exact hdistinct client hclient
  constructor
  · intro client hclient
    constructor
    · apply hrows client.pairs
      rw [← hoptions, ← pairs_reloadClients numeric now directory m]
      exact List.mem_map_of_mem hclient
    intro d hd
    rw [evaluation_of_reloadClients numeric now directory m hclient hd]
    refine ⟨fun before hbefore hid old hold => ?_, fun before hbefore hid hnodup old hold hpair => ?_, fun hnew => ?_⟩
    · rw [← hid, rowsBefore_of_mem hids hbefore, inherited, hold]
      rfl
    · rw [← hid, rowsBefore_of_mem hids hbefore, ← hpair, inherited_of_mem hnodup hold]
    · by_cases hknown : client.id ∈ m.clients.map Client.id
      · obtain ⟨before, hbefore, hid⟩ := List.mem_map.mp hknown
        rw [← hid, rowsBefore_of_mem hids hbefore]
        exact inherited_of_notMem (hnew before hbefore hid)
      · rw [rowsBefore_of_notMem hknown]
        rfl
  · rintro earlier t files after rfl hquiet hfiles
    set before := (handlers numeric).run (.initial options socket4 socket6 cookie startedRealUs) earlier with hbefore
    have hm : m = (handlers numeric).run (before.reloadClients numeric t files) after := by
      simp only [m, Machine.run_append, Machine.run_cons, handlers_step, Monitor.step, ← hbefore]
    have hpairs : m.clients.map Client.pairs = (loadedClients m.options directory).map Client.pairs := by
      rw [hm, pairs_run numeric _ hquiet, pairs_reloadClients, ← hm, hoptions,
        show before.options = options from options_run numeric _ earlier, loadedClients_perm options hfiles]
    refine known_reloadClients_of_pairs numeric now directory m hids hpairs fun client hclient => ?_
    apply hrows client.pairs
    rw [← hoptions, ← hpairs]
    exact List.mem_map_of_mem hclient

/-- A host that has been found dead stays so when its file is read again. -/
theorem evaluated_state_survives_dead :
    let host : Endpoint := ⟨.inet, ⟨.inet, [192, 0, 2, 1]⟩, 16, ascii "192.0.2.1"⟩
    let files : Directory := ⟨[⟨ascii "w.json", some (.object [(ascii "destinations",
      .array [.object [(ascii "id", .string (ascii "a")), (ascii "address", .string (ascii "192.0.2.1"))]])])⟩],
      by decide⟩
    let io : Io := ⟨fun _ => .unreachable (ascii "no route"), fun _ => 7⟩
    let m := (handlers fun _ => some host).run
      (.initial ⟨[], 1000000, 0, 0, 50, by decide, by decide⟩ ⟨true, false, []⟩ ⟨true, false, []⟩ 5 0)
      [⟨1000, .reloadClients files⟩, ⟨1000, .tick io⟩]
    m.clients.map Client.known = [(ascii "w", [((ascii "a", ascii "192.0.2.1"),
      ⟨.bad, .bad, 0, false, 0, 1, 0, 0, 7⟩)])] ∧
    (m.reloadClients (fun _ => some host) 2000 files).clients.map Client.known = m.clients.map Client.known := by
  intro host files io m
  have hsurvive := evaluated_state_survives (fun _ => some host) ⟨[], 1000000, 0, 0, 50, by decide, by decide⟩
    ⟨true, false, []⟩ ⟨true, false, []⟩ 5 0 [⟨1000, .reloadClients files⟩, ⟨1000, .tick io⟩] 2000 files
    (by decide +kernel)
  exact ⟨by decide +kernel, hsurvive.2 [] 1000 files [⟨1000, .tick io⟩] rfl (by simp) (List.Perm.refl _)⟩

end NetworkHealth.Daemon
