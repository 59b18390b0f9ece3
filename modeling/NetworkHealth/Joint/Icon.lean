import NetworkHealth.Daemon.Published
import NetworkHealth.Joint.Handover
import NetworkHealth.Widget.Rows

/-! The icon of a widget and the overall state its daemon publishes. Both are worked out from
counts, the one over rows that are joined to the payload by id, the other over the daemon's own
destinations, and both are the worst state that is shown. -/
namespace NetworkHealth.Joint
open Daemon (Bytes Json ascii HealthState reportedState)

/-- A state as the widget spells it. -/
def shownHealth : HealthState → Widget.Health
  | .unknown => .unknown
  | .good => .good
  | .warn => .warn
  | .bad => .bad
  | .offline => .offline

def overallName : Widget.Overall → Bytes
  | .idle => ascii "idle"
  | .unknown => ascii "unknown"
  | .good => ascii "good"
  | .warn => ascii "warn"
  | .bad => ascii "bad"

/-- How bad it looks. -/
def rank : Widget.Overall → ℕ
  | .idle => 0
  | .good => 1
  | .unknown => 2
  | .warn => 3
  | .bad => 4

/-- What a single destination would make of the icon. One that is off leaves it alone. -/
def iconOf : HealthState → Widget.Overall
  | .unknown => .unknown
  | .good => .good
  | .warn => .warn
  | .bad => .bad
  | .offline => .idle

/-- The worst-state rule: nothing to report if every enabled destination is a part-time one that
has been found dead, and otherwise the worst of what is shown of the enabled ones. -/
structure WorstState (ds : List Daemon.Destination) (overall : Widget.Overall) : Prop where
  idle : overall = .idle ↔ ∀ d ∈ ds, d.enabled = true → d.partTime = true ∧ d.state = .bad
  shown : overall ≠ .idle → ∃ d ∈ ds, d.enabled = true ∧ iconOf (reportedState d.state d.partTime) = overall
  worst : ∀ d ∈ ds, d.enabled = true → rank (iconOf (reportedState d.state d.partTime)) ≤ rank overall

theorem rank_injective : Function.Injective rank := by
  intro x y h
  cases x <;> cases y <;> first | rfl | cases h

/-- The rule leaves nothing open. -/
theorem WorstState.unique {ds : List Daemon.Destination} {x y : Widget.Overall} (hx : WorstState ds x)
    (hy : WorstState ds y) : x = y := by
  have hle : ∀ {x y : Widget.Overall}, WorstState ds x → WorstState ds y → x ≠ .idle → rank x ≤ rank y := by
    intro x y hx hy hidle
    obtain ⟨d, hd, henabled, hicon⟩ := hx.shown hidle
    rw [← hicon]
    exact hy.worst d hd henabled
  by_cases hidle : x = .idle
  · rw [hidle, hy.idle.mpr (hx.idle.mp hidle)]
  · have hidle' : y ≠ .idle := fun h => hidle (hx.idle.mpr (hy.idle.mp h))
    apply rank_injective
    exact Nat.le_antisymm (hle hx hy hidle) (hle hy hx hidle')

/-! ## Counts -/

section Counters
variable (c : Widget.Counters)

def counted : HealthState → ℕ
  | .unknown => c.unknown
  | .good => c.good
  | .warn => c.warn
  | .bad => c.bad
  | .offline => c.offline

/-- Everything enabled is counted under one state. -/
def Balanced : Prop := c.good + c.warn + c.bad + c.offline + c.unknown = c.enabled

theorem overall_eq_idle_iff : c.overall = .idle ↔ c.enabled = c.offline := by
  unfold Widget.Counters.overall
  split_ifs with h <;> simp [h]

variable {c}

/-- What the icon says is shown of something. -/
theorem exists_counted (hbalanced : Balanced c) (hidle : c.overall ≠ .idle) :
    ∃ state, 0 < counted c state ∧ iconOf state = c.overall := by
  rw [Ne, overall_eq_idle_iff] at hidle
  rw [Widget.Counters.overall, if_neg hidle]
  by_cases hbad : 0 < c.bad
  · exact ⟨.bad, hbad, by rw [if_pos hbad, iconOf]⟩
  by_cases hwarn : 0 < c.warn
  · exact ⟨.warn, hwarn, by rw [if_neg hbad, if_pos hwarn, iconOf]⟩
  by_cases hunknown : 0 < c.unknown
  · exact ⟨.unknown, hunknown, by rw [if_neg hbad, if_neg hwarn, if_pos hunknown, iconOf]⟩
  · refine ⟨.good, ?_, by rw [if_neg hbad, if_neg hwarn, if_neg hunknown, iconOf]⟩
    unfold Balanced at hbalanced
    rw [counted]
    omega

theorem rank_le_overall (hbalanced : Balanced c) {state : HealthState} (h : 0 < counted c state) :
    rank (iconOf state) ≤ rank c.overall := by
  unfold Balanced at hbalanced
  unfold Widget.Counters.overall
  cases state <;> rw [counted] at h <;> split_ifs <;> simp only [rank, iconOf] <;> omega

end Counters

section Daemon
variable (client : Daemon.Client)

/-- The counts of a client, as the widget keeps its own. -/
def countersOf : Widget.Counters where
  good := client.tally .good
  warn := client.tally .warn
  bad := client.tally .bad
  offline := client.tally .offline
  unknown := client.tally .unknown
  enabled := client.enabledCount

@[simp] theorem counted_countersOf (state : HealthState) : counted (countersOf client) state = client.tally state := by
  cases state <;> rfl

theorem balanced_countersOf : Balanced (countersOf client) := by
  unfold Balanced countersOf Daemon.Client.tally Daemon.Client.enabledCount
  dsimp only
  induction client.destinations with
  | nil => rfl
  | cons d rest ih =>
    simp only [List.countP_cons]
    cases d.enabled with
    | false => simpa using ih
    | true => cases reportedState d.state d.partTime <;> simp <;> omega

theorem tally_pos_iff (state : HealthState) : 0 < client.tally state ↔
    ∃ d ∈ client.destinations, d.enabled = true ∧ reportedState d.state d.partTime = state := by
  unfold Daemon.Client.tally
  simp [List.countP_pos_iff]

/-- The two orders of the questions come to the same. -/
theorem overallName_countersOf : overallName (countersOf client).overall = client.overall := by
  have hsum := balanced_countersOf client
  unfold Balanced at hsum
  unfold Widget.Counters.overall Daemon.Client.overall
  unfold countersOf at hsum ⊢
  dsimp only at hsum ⊢
  split_ifs <;> first | rfl | omega

theorem reportedState_eq_offline_iff {state : HealthState} (hstate : state ≠ .offline) (partTime : Bool) :
    reportedState state partTime = .offline ↔ partTime = true ∧ state = .bad := by
  unfold reportedState
  split_ifs with h
  · simpa using h
  · simp only [Bool.and_eq_true, decide_eq_true_eq] at h
    exact iff_of_false hstate h

/-- All that is enabled is off exactly when nothing else is counted. -/
theorem enabledCount_eq_tally_iff : client.enabledCount = client.tally .offline ↔
    ∀ d ∈ client.destinations, d.enabled = true → reportedState d.state d.partTime = .offline := by
  have hsum : client.tally .good + client.tally .warn + client.tally .bad + client.tally .offline +
      client.tally .unknown = client.enabledCount := balanced_countersOf client
  constructor
  · intro hidle d hd henabled
    have hcounted := (tally_pos_iff client _).mpr ⟨d, hd, henabled, rfl⟩
    cases hstate : reportedState d.state d.partTime with
    | offline => rfl
    | good | warn | bad | unknown =>
      rw [hstate] at hcounted
      omega
  · intro hoff
    have hzero : ∀ state, state ≠ .offline → client.tally state = 0 := by
      intro state hne
      apply Nat.eq_zero_of_not_pos
      intro hcounted
      obtain ⟨d, hd, henabled, rfl⟩ := (tally_pos_iff client state).mp hcounted
      exact hne (hoff d hd henabled)
    have hgood := hzero .good nofun
    have hwarn := hzero .warn nofun
    have hbad := hzero .bad nofun
    have hunknown := hzero .unknown nofun
    omega

theorem worstState_countersOf (hmeasured : ∀ d ∈ client.destinations, d.state ≠ .offline) :
    WorstState client.destinations (countersOf client).overall where
  idle := by
    rw [overall_eq_idle_iff]
    refine (enabledCount_eq_tally_iff client).trans ?_
    exact forall₂_congr fun d hd => imp_congr_right fun _ => reportedState_eq_offline_iff (hmeasured d hd) d.partTime
  shown hidle := by
    obtain ⟨state, hcounted, hicon⟩ := exists_counted (balanced_countersOf client) hidle
    rw [counted_countersOf] at hcounted
    obtain ⟨d, hd, henabled, hstate⟩ := (tally_pos_iff client state).mp hcounted
    exact ⟨d, hd, henabled, by rw [hstate, hicon]⟩
  worst d hd henabled := by
    apply rank_le_overall (balanced_countersOf client)
    rw [counted_countersOf]
    exact (tally_pos_iff client _).mpr ⟨d, hd, henabled, rfl⟩

end Daemon

/-- `offline` is never measured. -/
theorem measured_rule : Daemon.DestinationRule fun d => d.state ≠ .offline where
  loaded _ h := by
    rw [h.state]
    nofun
  carried _ _ _ h _ _ := h
  wired _ _ h := h
  sampled d received rttUs realNow h := by
    have hverdict : Daemon.classify received rttUs d.thresholdUs ≠ .offline := by
      unfold Daemon.classify
      split_ifs <;> nofun
    have hcount : (d.count received rttUs realNow).state ≠ .offline := h
    have hjudge : ((d.count received rttUs realNow).judge
        (Daemon.classify received rttUs d.thresholdUs)).state ≠ .offline := by
      unfold Daemon.Destination.judge
      dsimp only
      split_ifs <;> assumption
    unfold Daemon.Destination.sample
    dsimp only
    split_ifs <;> exact hjudge

/-- In every reachable state the clients have different names and no destination has been found
to be off. -/
theorem measured_reachable (numeric : Bytes → Option Daemon.Endpoint) (options : Daemon.Options)
    (socket4 socket6 : Daemon.IcmpSocket) (cookie startedRealUs : ℕ) (events : List Daemon.Event) :
    let m := (Daemon.handlers numeric).run (.initial options socket4 socket6 cookie startedRealUs) events
    (m.clients.map Daemon.Client.id).Nodup ∧ ∀ client ∈ m.clients, ∀ d ∈ client.destinations, d.state ≠ .offline :=
  ⟨Daemon.nodup_ids_run numeric options socket4 socket6 cookie startedRealUs events,
    measured_rule.reachable numeric options socket4 socket6 cookie startedRealUs events⟩

/-! ## What the widget makes of the payload -/

theorem health_healthStateName (state : HealthState) :
    health (text (.string (Daemon.healthStateName state))) = shownHealth state := by
  have hname : ∀ name, ascii name = utf8 name → text (.string (ascii name)) = name := by
    intro name h
    rw [h, text, fromUtf8_utf8]
    rfl
  cases state with
  | unknown => rw [Daemon.healthStateName, hname _ (by decide)]; rfl
  | good => rw [Daemon.healthStateName, hname _ (by decide)]; rfl
  | warn => rw [Daemon.healthStateName, hname _ (by decide)]; rfl
  | bad => rw [Daemon.healthStateName, hname _ (by decide)]; rfl
  | offline => rw [Daemon.healthStateName, hname _ (by decide)]; rfl

/-- The health a row with that id takes from a client. -/
def joined (client : List Widget.Live) (id : String) (partTime : Bool) : Widget.Health :=
  match Widget.byId client id with
  | none => .unknown
  | some live => if live.state = .bad ∧ partTime then .offline else live.state

theorem health_apply (row : Widget.Row) (client : List Widget.Live) :
    (row.apply (Widget.byId client row.destinationId)).health = joined client row.destinationId row.partTime := by
  unfold joined
  cases Widget.byId client row.destinationId <;> rfl

/-- Of destinations with different ids, each is found under its own. -/
theorem byId_of_mem {client : List Widget.Live} (hids : (client.map Widget.Live.id).Nodup) {live : Widget.Live}
    (hlive : live ∈ client) : Widget.byId client live.id = some live := by
  unfold Widget.byId
  cases hfind : client.reverse.find? (·.id = live.id) with
  | none =>
    have hother := List.find?_eq_none.mp hfind live (List.mem_reverse.mpr hlive)
    simp at hother
  | some other =>
    have hmem : other ∈ client := List.mem_reverse.mp (List.mem_of_find?_eq_some hfind)
    have hid : other.id = live.id := by simpa using List.find?_some hfind
    rw [List.inj_on_of_nodup_map hids hmem hlive hid]

section Payload
variable (double : ℚ → ℚ) (probers : List Daemon.Prober) (client : Daemon.Client)

/-- What the widget reads of one of the daemon's destinations. -/
def liveOf (d : Daemon.Destination) : Widget.Live :=
  live (Daemon.destinationJson double (d.prober.bind (probers[·]?)) d false)

theorem lives_clientJson :
    lives (Daemon.clientJson double probers client false) = client.destinations.map (liveOf double probers) := by
  have hdestinations : (Daemon.clientJson double probers client false).field (ascii "destinations") =
      .array (client.destinations.map fun d =>
        Daemon.destinationJson double (d.prober.bind (probers[·]?)) d false) := by
    unfold Daemon.clientJson
    rw [Json.field_set, if_pos rfl, Json.foldl_push, List.nil_append]
  rw [lives, hdestinations, Json.entries, map_fst_zipIdx, List.map_map]
  rfl

theorem id_liveOf (d : Daemon.Destination) : (liveOf double probers d).id = (fromUtf8 d.id).getD "" := by
  unfold liveOf
  rw [Daemon.destinationJson_eq]
  rfl

theorem state_liveOf (d : Daemon.Destination) :
    (liveOf double probers d).state = shownHealth (reportedState d.state d.partTime) := by
  rw [← health_healthStateName]
  unfold liveOf
  rw [Daemon.destinationJson_eq]
  rfl

/-- The widget's own part-time rule has nothing left to do. -/
theorem joined_liveOf (hids : ((client.destinations.map (liveOf double probers)).map Widget.Live.id).Nodup)
    {d : Daemon.Destination} (hd : d ∈ client.destinations) :
    joined (client.destinations.map (liveOf double probers)) ((fromUtf8 d.id).getD "") d.partTime =
      shownHealth (reportedState d.state d.partTime) := by
  unfold joined
  rw [← id_liveOf double probers d, byId_of_mem hids (List.mem_map_of_mem hd)]
  dsimp only
  rw [state_liveOf]
  cases d.partTime <;> cases d.state <;> rfl

/-- The counts depend on the rows in no particular order. -/
theorem ofRows_of_perm {rows : List Widget.Row} {client : Daemon.Client}
    (hperm : (rows.map fun row => (row.enabled, row.health)).Perm
      ((client.destinations.map fun d => (d.enabled, shownHealth (reportedState d.state d.partTime))).filter
        (·.1))) :
    Widget.Counters.ofRows rows = countersOf client := by
  have hcount : ∀ state : HealthState, (rows.filter (·.enabled)).countP (·.health = shownHealth state) =
      client.tally state := by
    intro state
    have hspelled : ∀ other, shownHealth other = shownHealth state ↔ other = state := by
      intro other
      cases other <;> cases state <;> simp [shownHealth]
    have hrows := hperm.countP_eq fun slot => decide (slot.2 = shownHealth state) && slot.1
    rw [List.countP_filter, List.countP_map, List.countP_map] at hrows
    rw [List.countP_filter]
    refine hrows.trans (List.countP_congr fun d _ => ?_)
    simp [hspelled, and_comm]
  have henabled : (rows.filter (·.enabled)).length = client.enabledCount := by
    have hrows := hperm.countP_eq (·.1)
    rw [List.countP_filter, List.countP_map, List.countP_map] at hrows
    rw [← List.countP_eq_length_filter]
    refine hrows.trans (List.countP_congr fun d _ => ?_)
    simp
  unfold Widget.Counters.ofRows countersOf
  dsimp only
  rw [henabled, ← hcount .good, ← hcount .warn, ← hcount .bad, ← hcount .offline, ← hcount .unknown]
  rfl

end Payload

/-- The rows of a widget and the destinations of its client, when the client's file is the one the
widget writes: what a row is made to show is what is shown of its destination. -/
theorem perm_rows {localeCompare : String → String → Ordering} {b : Widget.Backend}
    (hrows : b.RowsListed localeCompare) {client : Daemon.Client} {ls : List Widget.Live}
    (hlisted : client.destinations.map listed = b.destinations.map fun d => (utf8 d.id, d.enabled, d.partTime))
    (hjoined : ∀ d ∈ client.destinations, joined ls ((fromUtf8 d.id).getD "") d.partTime =
      shownHealth (reportedState d.state d.partTime)) :
    ((b.model.map fun row => row.apply (Widget.byId ls row.destinationId)).map fun row =>
      (row.enabled, row.health)).Perm
      ((client.destinations.map fun d => (d.enabled, shownHealth (reportedState d.state d.partTime))).filter
        (·.1)) := by
  -- what the join makes of a row, from the three things both sides know of it
  let slot : Bytes × Bool × Bool → Bool × Widget.Health :=
    fun known => (known.2.1, joined ls ((fromUtf8 known.1).getD "") known.2.2)
  have hwidget : (b.model.map fun row => row.apply (Widget.byId ls row.destinationId)).map
      (fun row => (row.enabled, row.health)) =
        (b.model.map Widget.Row.entry).map fun d => slot (utf8 d.id, d.enabled, d.partTime) := by
    rw [List.map_map, List.map_map]
    refine List.map_congr_left fun row _ => ?_
    have henabled : (row.apply (Widget.byId ls row.destinationId)).enabled = row.enabled :=
      congrArg Widget.Destination.enabled (row.entry_apply _)
    simp only [Function.comp_apply, slot, health_apply, henabled, fromUtf8_utf8, Option.getD_some, Widget.Row.entry]
  have hdaemon : b.destinations.map (fun d => slot (utf8 d.id, d.enabled, d.partTime)) =
      client.destinations.map fun d => (d.enabled, shownHealth (reportedState d.state d.partTime)) := by
    change b.destinations.map (slot ∘ fun d => (utf8 d.id, d.enabled, d.partTime)) = _
    rw [← List.map_map, ← hlisted, List.map_map]
    exact List.map_congr_left fun d hd => congrArg (Prod.mk d.enabled) (hjoined d hd)
  rw [hwidget, hrows, ← hdaemon, List.filter_map]
  exact (b.perm_listedDestinations localeCompare).map _

theorem listed_configured (client : Daemon.Client) :
    client.configured.destinations.map listed = client.destinations.map listed := by
  rw [Daemon.Client.configured, List.map_map]
  rfl

/-- Applying a payload that has the client: what is counted is what the joined rows show. -/
theorem applyDocument_of_lookup {b : Widget.Backend} {document : Widget.Document} {ls : List Widget.Live}
    (h : document.clients.lookup b.clientId = some ls) (now : ℤ) :
    (b.applyDocument now document).counters = Widget.Counters.ofRows (b.model.map fun row =>
        row.apply (Widget.byId ls row.destinationId)) ∧
      (b.applyDocument now document).overall = (b.applyDocument now document).counters.overall := by
  have hwrite : ∀ (b : Widget.Backend), (b.writeConfig now).counters = b.counters ∧
      (b.writeConfig now).overall = b.overall := by
    intro b
    unfold Widget.Backend.writeConfig
    split_ifs <;> exact ⟨rfl, rfl⟩
  unfold Widget.Backend.applyDocument
  dsimp only
  rw [h]
  dsimp only
  split_ifs
  · rw [(hwrite _).1, (hwrite _).2]
    exact ⟨rfl, rfl⟩
  · exact ⟨rfl, rfl⟩

/-- The payload has the entry of each client under its id. -/
theorem field_clients (double : ℚ → ℚ) {m : Daemon.Monitor} {client : Daemon.Client}
    (hnames : (m.clients.map Daemon.Client.id).Nodup) (hclient : client ∈ m.clients) (pid realNow now : ℕ) :
    ((m.buildStateJson double pid realNow now false).field (ascii "clients")).field client.id =
      Daemon.clientJson double m.probers client false := by
  have hclients : (m.buildStateJson double pid realNow now false).field (ascii "clients") =
      m.clients.foldl (fun (clients : Json) client =>
        clients.set client.id (Daemon.clientJson double m.probers client false)) (.object []) := rfl
  rw [hclients, Daemon.field_foldl_set hnames (Daemon.clientJson double m.probers · false) hclient (.object [])]

/-- What is published of a list that was taken over has the ids of that list, none of them twice. -/
theorem nodup_lives (double : ℚ → ℚ) (probers : List Daemon.Prober) {b : Widget.Backend} {client : Daemon.Client}
    (hlisted : client.destinations.map listed = b.destinations.map fun d => (utf8 d.id, d.enabled, d.partTime))
    (hids : (b.destinations.map Widget.Destination.id).Nodup) :
    ((client.destinations.map (liveOf double probers)).map Widget.Live.id).Nodup := by
  have hspelled : (client.destinations.map (liveOf double probers)).map Widget.Live.id =
      (client.destinations.map listed).map fun known => (fromUtf8 known.1).getD "" := by
    rw [List.map_map, List.map_map]
    exact List.map_congr_left fun d _ => id_liveOf double probers d
  rw [hspelled, hlisted, List.map_map]
  convert hids using 2
  change (fun d : Widget.Destination => (fromUtf8 (utf8 d.id)).getD "") = _
  simp only [fromUtf8_utf8, Option.getD_some]

/-- The names of the counts in the payload. -/
def countNames : List (Bytes × (Widget.Counters → ℕ)) :=
  [(ascii "enabled", (·.enabled)), (ascii "good", (·.good)), (ascii "warn", (·.warn)), (ascii "bad", (·.bad)),
    (ascii "offline", (·.offline)), (ascii "unknown", (·.unknown))]

/-- The daemon takes over the widget's list, and whatever it has measured since, once the widget
has applied what the daemon publishes: icon and counts are those that are published, the icon is
the one the worst-state rule asks for, and the counts add up to the enabled destinations. -/
theorem icon_agrees (double : ℚ → ℚ) {localeCompare : String → String → Ordering} {b : Widget.Backend}
    (hrows : b.RowsListed localeCompare) (hids : (b.destinations.map Widget.Destination.id).Nodup)
    (hempty : ∀ d ∈ b.destinations, d.id ≠ "")
    (haddresses : ∀ d ∈ b.destinations, Daemon.trimmed (utf8 d.address) ≠ []) (options : Daemon.Options)
    (hmax : b.destinations.length ≤ options.maxDestinations) (path : Bytes) :
    ∃ loaded, Daemon.loadClientFile options path (utf8 b.clientId) (configJson b.daemonConfig) = some loaded ∧
      ∀ (m : Daemon.Monitor) (client : Daemon.Client), client ∈ m.clients → client.configured = loaded →
        (m.clients.map Daemon.Client.id).Nodup → (∀ d ∈ client.destinations, d.state ≠ .offline) →
        ∀ (pid realNow now : ℕ) (t : ℤ),
          let payload := m.buildStateJson double pid realNow now false
          let published := (payload.field (ascii "clients")).field (utf8 b.clientId)
          let shown := b.applyDocument t (document payload)
          published.field (ascii "overall") = .string (overallName shown.overall) ∧
          (∀ overall, WorstState client.destinations overall ↔ overall = shown.overall) ∧
          (∀ count ∈ countNames, (published.field (ascii "counts")).field count.1 =
            .number (double (count.2 shown.counters))) ∧
          shown.counters = countersOf client ∧ Balanced shown.counters ∧
          shown.counters.enabled = b.destinations.countP (·.enabled) := by
  obtain ⟨loaded, hloaded, hid, hlisted⟩ := loadClientFile_configJson options path (utf8 b.clientId) b.daemonConfig
    hempty haddresses hmax
  refine ⟨loaded, hloaded, ?_⟩
  rintro m client hclient rfl hnames hmeasured pid realNow now t
  intro payload published shown
  rw [listed_configured] at hlisted
  change _ = b.destinations.map _ at hlisted
  change client.id = _ at hid
  have hentry : published = Daemon.clientJson double m.probers client false := by
    rw [← field_clients double hnames hclient pid realNow now, hid]
  have hlookup : (document payload).clients.lookup b.clientId =
      some (client.destinations.map (liveOf double m.probers)) := by
    rw [← lives_clientJson]
    exact lookup_document payload hentry nofun
  have hlives : ((client.destinations.map (liveOf double m.probers)).map Widget.Live.id).Nodup :=
    nodup_lives double m.probers hlisted hids
  obtain ⟨hcounters, hoverall⟩ := applyDocument_of_lookup hlookup t
  have hperm := perm_rows hrows hlisted fun d hd => joined_liveOf double m.probers client hlives hd
  rw [ofRows_of_perm hperm] at hcounters
  rw [hcounters] at hoverall
  have hworst := worstState_countersOf client hmeasured
  rw [← hoverall] at hworst
  refine ⟨?_, fun overall => ⟨fun h => h.unique hworst, fun h => h ▸ hworst⟩, ?_, hcounters, ?_, ?_⟩
  · rw [hentry, hoverall, overallName_countersOf]
    rfl
  · intro count hcount
    have hcounts : (Daemon.clientJson double m.probers client false).field (ascii "counts") = client.counts double :=
      rfl
    rw [hentry, hcounts, hcounters]
    simp only [countNames, List.mem_cons, List.not_mem_nil, or_false] at hcount
    obtain rfl | rfl | rfl | rfl | rfl | rfl := hcount <;> rfl
  · rw [hcounters]
    exact balanced_countersOf client
  · rw [hcounters]
    have henabled := congrArg (List.countP fun known : Bytes × Bool × Bool => known.2.1) hlisted
    rw [List.countP_map, List.countP_map] at henabled
    exact henabled

/-- A router that answers slowly, a printer that is off and a spare nobody asks about. -/
theorem icon_agrees_slow :
    let b : Widget.Backend := Widget.Backend.rebuildModel (fun _ _ => .eq) { Widget.Backend.initial with
      clientId := "applet-3"
      destinations := [⟨"p", "Printer", "192.0.2.9", 1, 1000, 3, true, true⟩,
        ⟨"r", "Router", "192.0.2.1", 0, 1000, 3, true, false⟩, ⟨"x", "Spare", "192.0.2.7", 2, 1000, 3, false, false⟩] }
    let options : Daemon.Options := ⟨[], 1000000, 0, 0, 50, by decide, by decide⟩
    let row := fun (id name address : String) (order : ℤ) (enabled partTime : Bool) (state : HealthState) =>
      (⟨ascii id, ascii name, ascii address, order, 1000, 3, enabled, partTime, none, state, state, 0, false, 0, 0, 0,
        0, 0, []⟩ : Daemon.Destination)
    let client : Daemon.Client := ⟨ascii "applet-3", [], 1000000, 1000000,
      [row "p" "Printer" "192.0.2.9" 1 true true .bad, row "r" "Router" "192.0.2.1" 0 true false .warn,
        row "x" "Spare" "192.0.2.7" 2 false false .unknown]⟩
    let m : Daemon.Monitor := { Daemon.Monitor.initial options ⟨true, false, []⟩ ⟨true, false, []⟩ 5 0 with
      clients := [client] }
    let shown := b.applyDocument 5000 (document (m.buildStateJson id 7 0 0 false))
    shown.overall = .warn ∧ shown.counters = ⟨0, 1, 0, 1, 0, 2⟩ := by
  intro b options row client m shown
  obtain ⟨loaded, hloaded, hagrees⟩ := icon_agrees id (b := b) (Widget.Backend.rowsListed_rebuildModel _ _)
    (by decide) (by decide) (by decide) options (by decide) []
  have hread : Daemon.loadClientFile options [] (utf8 b.clientId) (configJson b.daemonConfig) =
      some client.configured := by decide +kernel
  obtain ⟨-, hworst, -, hcounters, -, -⟩ := hagrees m client (List.mem_singleton.mpr rfl)
    (Option.some.inj (hread.symm.trans hloaded)) (by decide) (by decide) 7 0 0 5000
  have hwarn : WorstState client.destinations .warn :=
    ⟨by decide, fun _ => ⟨row "r" "Router" "192.0.2.1" 0 true false .warn, by decide⟩, by decide⟩
  exact ⟨((hworst .warn).mp hwarn).symm, hcounters.trans (by decide)⟩

end NetworkHealth.Joint
