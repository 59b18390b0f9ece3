import NetworkHealth.Daemon.ClientsDirectory
import NetworkHealth.Widget.Backend

/-! What the widget and the daemon hand to each other: the configuration as the daemon finds it
in the file, and the payload as the widget decodes it. Strings are text on one side and bytes on
the other. -/
namespace NetworkHealth.Joint
open Daemon (Bytes Json ascii)

/-- The bytes of a text in a file. -/
def utf8 (text : String) : Bytes := text.toList.flatMap String.utf8EncodeChar

/-- The text of some bytes, none if they are no UTF-8. -/
def fromUtf8 (bytes : Bytes) : Option String := String.fromUTF8? bytes.toByteArray

theorem toByteArray_utf8 (text : String) : (utf8 text).toByteArray = text.toByteArray :=
  String.utf8Encode_toList

@[simp] theorem fromUtf8_utf8 (text : String) : fromUtf8 (utf8 text) = some text := by
  unfold fromUtf8 String.fromUTF8?
  simp only [toByteArray_utf8]
  rw [dif_pos text.isValidUTF8]
  rfl

theorem utf8_of_fromUtf8 {bytes : Bytes} {text : String} (h : fromUtf8 bytes = some text) :
    utf8 text = bytes := by
  unfold fromUtf8 String.fromUTF8? at h
  split at h
  · obtain rfl := Option.some.inj h
    exact List.toByteArray_inj.mp (toByteArray_utf8 _)
  · cases h

theorem utf8_injective : Function.Injective utf8 := by
  intro text text' h
  have hread := fromUtf8_utf8 text
  rw [h, fromUtf8_utf8] at hread
  exact (Option.some.inj hread).symm

/-! ## The configuration -/

def destinationJson (d : Widget.Destination) : Json :=
  .object [
    (ascii "id", .string (utf8 d.id)),
    (ascii "name", .string (utf8 d.name)),
    (ascii "address", .string (utf8 d.address)),
    (ascii "order", .number d.order),
    (ascii "threshold_us", .number d.thresholdUs),
    (ascii "sensitivity", .number d.sensitivity),
    (ascii "enabled", .bool d.enabled),
    (ascii "part_time", .bool d.partTime)]

/-- What `daemonConfig` writes down. -/
def configJson (config : Widget.DaemonConfig) : Json :=
  .object [
    (ascii "version", .number 1),
    (ascii "client", .string (utf8 config.client)),
    (ascii "interval_ms", .number config.intervalMs),
    (ascii "timeout_ms", .number config.timeoutMs),
    (ascii "destinations", .array (config.destinations.map destinationJson))]

/-- What makes a row of the daemon's the one the widget has. -/
def listed (d : Daemon.Destination) : Bytes × Bool × Bool := (d.id, d.enabled, d.partTime)

/-- A destination with an id and an address is loaded as it was written down. -/
theorem loadDestination_destinationJson {d : Widget.Destination} (hid : d.id ≠ "")
    (haddress : Daemon.trimmed (utf8 d.address) ≠ []) (i : ℕ) :
    ∃ loaded, Daemon.loadDestination (destinationJson d) i = some loaded ∧
      listed loaded = (utf8 d.id, d.enabled, d.partTime) := by
  have hkept : utf8 d.id ≠ [] := fun h => hid (utf8_injective h)
  have hfields : (destinationJson d).field (ascii "id") = .string (utf8 d.id) ∧
      (destinationJson d).field (ascii "address") = .string (utf8 d.address) ∧
      (destinationJson d).field (ascii "enabled") = .bool d.enabled ∧
      (destinationJson d).field (ascii "part_time") = .bool d.partTime := ⟨rfl, rfl, rfl, rfl⟩
  obtain ⟨hid, haddr, henabled, hpartTime⟩ := hfields
  unfold destinationJson at *
  unfold Daemon.loadDestination
  simp only [hid, haddr, henabled, hpartTime, Json.toString, Json.toBool, Json.isNull, if_neg haddress, if_neg hkept]
  exact ⟨_, rfl, rfl⟩

theorem filterMap_loadDestination {ds : List Widget.Destination} (hids : ∀ d ∈ ds, d.id ≠ "")
    (haddresses : ∀ d ∈ ds, Daemon.trimmed (utf8 d.address) ≠ []) (start : ℕ) :
    (((ds.map destinationJson).zipIdx start).filterMap fun slot => Daemon.loadDestination slot.1 slot.2).map listed =
      ds.map fun d => (utf8 d.id, d.enabled, d.partTime) := by
  induction ds generalizing start with
  | nil => rfl
  | cons d rest ih =>
    obtain ⟨loaded, hloaded, hlisted⟩ := loadDestination_destinationJson (hids d List.mem_cons_self)
      (haddresses d List.mem_cons_self) start
    have hrest := ih (fun e he => hids e (List.mem_cons_of_mem _ he))
      (fun e he => haddresses e (List.mem_cons_of_mem _ he)) (start + 1)
    rw [List.map_cons, List.zipIdx_cons,
      List.filterMap_cons_some (f := fun slot : Json × ℕ => Daemon.loadDestination slot.1 slot.2) hloaded,
      List.map_cons, List.map_cons, hlisted, hrest]

/-- The daemon takes over every destination of the widget, in the order of its list. -/
theorem loadClientFile_configJson (options : Daemon.Options) (path id : Bytes) (config : Widget.DaemonConfig)
    (hids : ∀ d ∈ config.destinations, d.id ≠ "")
    (haddresses : ∀ d ∈ config.destinations, Daemon.trimmed (utf8 d.address) ≠ [])
    (hmax : config.destinations.length ≤ options.maxDestinations) :
    ∃ loaded, Daemon.loadClientFile options path id (configJson config) = some loaded ∧ loaded.id = id ∧
      loaded.destinations.map listed = config.destinations.map fun d => (utf8 d.id, d.enabled, d.partTime) := by
  refine ⟨_, rfl, rfl, ?_⟩
  have hfield : (configJson config).field (ascii "destinations") = .array (config.destinations.map destinationJson) :=
    rfl
  have hlisted := filterMap_loadDestination hids haddresses 0
  have hlength := congrArg List.length hlisted
  simp only [List.length_map] at hlength
  dsimp only
  change List.map listed (List.take _ (List.filterMap _ ((configJson config).field _).entries)) = _
  rw [hfield, Json.entries, List.take_of_length_le (hlength.trans_le hmax), hlisted]

/-! ## The payload -/

/-- A string of the payload. The daemon's own are all text. -/
def text : Json → String
  | .string value => (fromUtf8 value).getD ""
  | _ => ""

def number : Json → ℚ
  | .number value => value
  | _ => 0

/-- The `state` of a published destination. What is none of the five is counted as unknown. -/
def health (state : String) : Widget.Health :=
  if state = "good" then .good
  else if state = "warn" then .warn
  else if state = "bad" then .bad
  else if state = "offline" then .offline
  else .unknown

/-- An entry of `destinations`, as `applyDocument` reads it. -/
def live (entry : Json) : Widget.Live where
  id := text (entry.field (ascii "id"))
  state := health (text (entry.field (ascii "state")))
  resolved := text (entry.field (ascii "resolved"))
  haveRtt := (entry.field (ascii "have_rtt")).toBool false
  rttUs := (number (entry.field (ascii "rtt_us"))).floor
  lossPercent := number (entry.field (ascii "loss_percent"))
  sent := (number (entry.field (ascii "sent"))).floor
  received := (number (entry.field (ascii "received"))).floor
  error := text (entry.field (ascii "error"))

def family (entry : Json) : Widget.Family :=
  ⟨(entry.field (ascii "available")).toBool false, text (entry.field (ascii "error"))⟩

def lives (client : Json) : List Widget.Live :=
  (client.field (ascii "destinations")).entries.map fun slot => live slot.1

def members : Json → List (Bytes × Json)
  | .object members => members
  | _ => []

/-- The payload as the widget decodes it. A client whose name is no text is left out: it decodes
to a name no widget has. -/
def document (payload : Json) : Widget.Document where
  generation := match payload.field (ascii "generation") with
    | .number value => some value.floor
    | _ => none
  ipv4 := family ((payload.field (ascii "engine")).field (ascii "ipv4"))
  ipv6 := family ((payload.field (ascii "engine")).field (ascii "ipv6"))
  clients := (members (payload.field (ascii "clients"))).filterMap fun member =>
    (fromUtf8 member.1).map fun id => (id, lives member.2)

theorem field_eq (json : Json) (key : Bytes) : json.field key = ((members json).lookup key).getD .null := by
  cases json <;> rfl

theorem lookup_members (members : List (Bytes × Json)) (id : String) :
    (members.filterMap fun member => (fromUtf8 member.1).map fun id => (id, lives member.2)).lookup id =
      (members.lookup (utf8 id)).map lives := by
  induction members with
  | nil => rfl
  | cons member rest ih =>
    obtain ⟨name, client⟩ := member
    rw [lookup_cons_ite]
    cases hname : fromUtf8 name with
    | none =>
      rw [List.filterMap_cons_none (by simp [hname]), ih, if_neg fun h => ?_]
      rw [← h, fromUtf8_utf8] at hname
      cases hname
    | some other =>
      have hbytes := utf8_of_fromUtf8 hname
      rw [List.filterMap_cons_some (b := (other, lives client)) (by simp [hname]), lookup_cons_ite, ih, ← hbytes]
      by_cases h : id = other
      · rw [if_pos h, if_pos (congrArg utf8 h)]
        rfl
      · rw [if_neg h, if_neg fun hutf8 => h (utf8_injective hutf8)]

/-- A client is found under the name the widget has for itself. -/
theorem lookup_document (payload : Json) {id : String} {entry : Json}
    (hentry : (payload.field (ascii "clients")).field (utf8 id) = entry) (hnull : entry ≠ .null) :
    (document payload).clients.lookup id = some (lives entry) := by
  rw [field_eq] at hentry
  unfold document
  dsimp only
  rw [lookup_members]
  cases hlookup : (members (payload.field (ascii "clients"))).lookup (utf8 id) with
  | none =>
    rw [hlookup] at hentry
    exact absurd hentry.symm hnull
  | some value =>
    rw [hlookup] at hentry
    rw [Option.map_some, ← hentry]
    rfl

end NetworkHealth.Joint
