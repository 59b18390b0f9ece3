import NetworkHealth.Daemon.Published
import NetworkHealth.Joint.Polled

/-! The state file from the daemon's members to the widget's document. Whatever state the daemon
is in, the file it publishes is read, with every count as it is and the loss to ten digits. -/
namespace NetworkHealth.Joint
open Daemon (Bytes Json ascii)
open Daemon.Json (ValidUtf8 setMember dump)
open CNumber (widen)

section Publishable
variable {document value : Json} {key : Bytes}

theorem keys_setMember (members : List (Bytes × Json)) : (setMember key value members).map Prod.fst =
    if key ∈ members.map Prod.fst then members.map Prod.fst else members.map Prod.fst ++ [key] := by
  induction members with
  | nil => simp [setMember]
  | cons member rest ih =>
    by_cases hkey : member.1 = key
    · simp [setMember, hkey]
    · have hne : key ≠ member.1 := fun h => hkey h.symm
      rw [setMember, if_neg hkey, List.map_cons, ih, List.map_cons]
      simp only [List.mem_cons, hne, false_or]
      split_ifs
      · rfl
      · exact (List.cons_append ..).symm

theorem mem_setMember {members : List (Bytes × Json)} {member : Bytes × Json}
    (h : member ∈ setMember key value members) : member = (key, value) ∨ member ∈ members := by
  induction members with
  | nil => exact Or.inl (by simpa [setMember] using h)
  | cons first rest ih =>
    rw [setMember] at h
    split_ifs at h
    · exact (List.mem_cons.mp h).imp_right (List.mem_cons_of_mem _)
    · rcases List.mem_cons.mp h with rfl | h
      · exact Or.inr List.mem_cons_self
      · exact (ih h).imp_right (List.mem_cons_of_mem _)

theorem Publishable.set (h : Publishable document) (hkey : ValidUtf8 key) (hvalue : Publishable value) :
    Publishable (document.set key value) := by
  have hsingle : Publishable (.object [(key, value)]) :=
    .object (by simp) (by simpa using hkey) (by simpa using hvalue)
  cases h with
  | @object members hnodup hkeys hvalues =>
    refine .object ?_ (fun member hm => ?_) fun member hm => ?_
    · rw [keys_setMember]
      split_ifs with hmem
      · exact hnodup
      · exact hnodup.append (List.nodup_singleton key) (by simpa using hmem)
    · rcases mem_setMember hm with rfl | hm
      · exact hkey
      · exact hkeys member hm
    · rcases mem_setMember hm with rfl | hm
      · exact hvalue
      · exact hvalues member hm
  | null | bool _ | number _ | infinite | string _ | array _ => exact hsingle

theorem Publishable.sets {found : List (Bytes × Json)} (h : Publishable document)
    (hmembers : ∀ member ∈ found, ValidUtf8 member.1 ∧ Publishable member.2) : Publishable (document.sets found) := by
  induction found generalizing document with
  | nil => exact h
  | cons member rest ih =>
    obtain ⟨hkey, hvalue⟩ := hmembers member List.mem_cons_self
    exact ih (h.set hkey hvalue) fun m hm => hmembers m (List.mem_cons_of_mem _ hm)

theorem publishable_empty : Publishable (.object []) := .object (by simp) (by simp) (by simp)

theorem validUtf8_ascii {name : String} (h : isAscii name = true) : ValidUtf8 (ascii name) := by
  rw [ascii_eq_utf8 h]
  exact validUtf8_utf8 name

theorem validUtf8_nil : ValidUtf8 [] := ⟨[], rfl⟩

theorem validUtf8_healthStateName (state : Daemon.HealthState) : ValidUtf8 (Daemon.healthStateName state) := by
  cases state <;> exact validUtf8_ascii rfl

end Publishable

section Payload

/-- The strings that are published are text. -/
structure TextState (m : Daemon.Monitor) : Prop where
  clients : ∀ client ∈ m.clients, ValidUtf8 client.id ∧ ∀ d ∈ client.destinations, ValidUtf8 d.id
  probers : ∀ p ∈ m.probers, ValidUtf8 p.endpoint.text ∧ ValidUtf8 p.lastError
  sockets : ValidUtf8 m.socket4.error ∧ ValidUtf8 m.socket6.error

/-- No count is too large for a double, and to be printed as an integer. -/
structure Counted (m : Daemon.Monitor) : Prop where
  generation : m.generation < 9000000000000000
  destinations : ∀ client ∈ m.clients, ∀ d ∈ client.destinations,
    d.rttUs < 9000000000000000 ∧ d.sent < 9000000000000000 ∧ d.received < 9000000000000000

theorem isCount_roundPlaces {n : ℕ} (h : n < 9000000000000000) : IsCount (.number (roundPlaces n)) :=
  ⟨n, h, by rw [(Binary64.representable_natCast (by omega : n ≤ 2 ^ 53)).roundPlaces_eq]⟩

theorem isEntry_shownEntry {shown : Bytes × Bytes} {d : Daemon.Destination} (hid : ValidUtf8 d.id)
    (hshown : ValidUtf8 shown.1 ∧ ValidUtf8 shown.2)
    (hcounts : d.rttUs < 9000000000000000 ∧ d.sent < 9000000000000000 ∧ d.received < 9000000000000000) :
    IsEntry (Daemon.shownEntry roundPlaces shown d) where
  publishable := by
    refine publishable_empty.sets ?_
    simp only [List.forall_mem_cons, List.not_mem_nil, false_implies, implies_true, and_true]
    exact ⟨⟨validUtf8_ascii rfl, .string hid⟩,
      ⟨validUtf8_ascii rfl, .string (validUtf8_healthStateName _)⟩,
      ⟨validUtf8_ascii rfl, .string hshown.1⟩, ⟨validUtf8_ascii rfl, .bool _⟩,
      ⟨validUtf8_ascii rfl, .number _⟩, ⟨validUtf8_ascii rfl, .number _⟩,
      ⟨validUtf8_ascii rfl, .number _⟩, ⟨validUtf8_ascii rfl, .number _⟩,
      ⟨validUtf8_ascii rfl, .string hshown.2⟩⟩
  haveRtt := ⟨_, rfl⟩
  rttUs := isCount_roundPlaces hcounts.1
  sent := isCount_roundPlaces hcounts.2.1
  received := isCount_roundPlaces hcounts.2.2
  lossPercent := ⟨_, rfl⟩

theorem validUtf8_shown {prober : Option Daemon.Prober}
    (h : ∀ p ∈ prober, ValidUtf8 p.endpoint.text ∧ ValidUtf8 p.lastError) :
    ValidUtf8 ((prober.map Daemon.Prober.shown).getD ([], [])).1 ∧
      ValidUtf8 ((prober.map Daemon.Prober.shown).getD ([], [])).2 := by
  cases prober with
  | none => exact ⟨validUtf8_nil, validUtf8_nil⟩
  | some p =>
    obtain ⟨htext, herror⟩ := h p rfl
    refine ⟨?_, herror⟩
    simp only [Option.map_some, Option.getD_some, Daemon.Prober.shown]
    split_ifs
    · exact htext
    · exact validUtf8_nil

variable {m : Daemon.Monitor}

theorem isEntry_destinationJson (htext : TextState m) (hcounted : Counted m) {client : Daemon.Client}
    (hclient : client ∈ m.clients) {d : Daemon.Destination} (hd : d ∈ client.destinations) :
    IsEntry (Daemon.destinationJson roundPlaces (d.prober.bind (m.probers[·]?)) d false) := by
  rw [Daemon.destinationJson_eq]
  refine isEntry_shownEntry ((htext.clients client hclient).2 d hd) (validUtf8_shown fun p hp => ?_)
    (hcounted.destinations client hclient d hd)
  obtain ⟨i, -, hi⟩ := Option.bind_eq_some_iff.mp hp
  exact htext.probers p (List.mem_of_getElem? hi)

theorem destinations_clientJson (probers : List Daemon.Prober) (client : Daemon.Client) :
    (Daemon.clientJson roundPlaces probers client false).field (ascii "destinations") =
      .array (client.destinations.map fun d =>
        Daemon.destinationJson roundPlaces (d.prober.bind (probers[·]?)) d false) := by
  unfold Daemon.clientJson
  rw [Json.field_set, if_pos rfl, Json.foldl_push, List.nil_append]

theorem publishable_counts (client : Daemon.Client) : Publishable (client.counts roundPlaces) := by
  refine publishable_empty.sets ?_
  simp only [List.forall_mem_cons, List.not_mem_nil, false_implies, implies_true, and_true]
  exact ⟨⟨validUtf8_ascii rfl, .number _⟩, ⟨validUtf8_ascii rfl, .number _⟩,
    ⟨validUtf8_ascii rfl, .number _⟩, ⟨validUtf8_ascii rfl, .number _⟩,
    ⟨validUtf8_ascii rfl, .number _⟩, ⟨validUtf8_ascii rfl, .number _⟩,
    ⟨validUtf8_ascii rfl, .number _⟩⟩

theorem validUtf8_overall (client : Daemon.Client) : ValidUtf8 client.overall := by
  unfold Daemon.Client.overall
  split_ifs <;> exact validUtf8_ascii rfl

theorem publishable_clientJson (htext : TextState m) (hcounted : Counted m) {client : Daemon.Client}
    (hclient : client ∈ m.clients) : Publishable (Daemon.clientJson roundPlaces m.probers client false) := by
  unfold Daemon.clientJson
  refine Publishable.set (publishable_empty.sets ?_) (validUtf8_ascii rfl) ?_
  · simp only [List.forall_mem_cons, List.not_mem_nil, false_implies, implies_true, and_true]
    exact ⟨⟨validUtf8_ascii rfl, .string (validUtf8_overall client)⟩,
      validUtf8_ascii rfl, publishable_counts client⟩
  · rw [Json.foldl_push, List.nil_append]
    refine .array fun item hitem => ?_
    obtain ⟨d, hd, rfl⟩ := List.mem_map.mp hitem
    exact (isEntry_destinationJson htext hcounted hclient hd).publishable

theorem isFamily_json {socket : Daemon.IcmpSocket} (h : ValidUtf8 socket.error) : IsFamily socket.json where
  publishable := by
    refine publishable_empty.sets ?_
    simp only [List.forall_mem_cons, List.not_mem_nil, false_implies, implies_true, and_true]
    exact ⟨⟨validUtf8_ascii rfl, .bool _⟩, ⟨validUtf8_ascii rfl, .bool _⟩,
      validUtf8_ascii rfl, .string h⟩
  available := ⟨_, rfl⟩

/-- Under the name of a client is the entry of a client. -/
theorem members_foldl_set {clients : List Daemon.Client} {f : Daemon.Client → Json} {found : List (Bytes × Json)}
    {member : Bytes × Json}
    (h : member ∈ members (clients.foldl (fun (out : Json) client => out.set client.id (f client)) (.object found))) :
    member ∈ found ∨ ∃ client ∈ clients, member = (client.id, f client) := by
  induction clients generalizing found with
  | nil => exact Or.inl h
  | cons client rest ih =>
    rcases ih h with hfound | ⟨other, hother, hmember⟩
    · rcases mem_setMember hfound with hfirst | hfound
      · exact Or.inr ⟨client, List.mem_cons_self, hfirst⟩
      · exact Or.inl hfound
    · exact Or.inr ⟨other, List.mem_cons_of_mem _ hother, hmember⟩

theorem publishable_foldl_set {clients : List Daemon.Client} {f : Daemon.Client → Json} {out : Json}
    (h : Publishable out) (hclients : ∀ client ∈ clients, ValidUtf8 client.id ∧ Publishable (f client)) :
    Publishable (clients.foldl (fun (out : Json) client => out.set client.id (f client)) out) := by
  induction clients generalizing out with
  | nil => exact h
  | cons client rest ih =>
    obtain ⟨hid, hentry⟩ := hclients client List.mem_cons_self
    exact ih (h.set hid hentry) fun c hc => hclients c (List.mem_cons_of_mem _ hc)

/-- Every state that is text makes a payload the widget can read. -/
theorem isPayload_buildStateJson (htext : TextState m) (hcounted : Counted m) (pid realNow now : ℕ) :
    IsPayload (m.buildStateJson roundPlaces pid realNow now false) where
  publishable := by
    have hclients := publishable_foldl_set publishable_empty
      fun client hclient => ⟨(htext.clients client hclient).1, publishable_clientJson htext hcounted hclient⟩
    have hengine : Publishable ((Json.object []).sets [(ascii "ipv4", m.socket4.json), (ascii "ipv6", m.socket6.json)]) := by
      refine publishable_empty.sets ?_
      simp only [List.forall_mem_cons, List.not_mem_nil, false_implies, implies_true, and_true]
      exact ⟨⟨validUtf8_ascii rfl, (isFamily_json htext.sockets.1).publishable⟩,
        validUtf8_ascii rfl, (isFamily_json htext.sockets.2).publishable⟩
    unfold Daemon.Monitor.buildStateJson
    refine Publishable.set (publishable_empty.sets ?_) (validUtf8_ascii rfl) hclients
    simp only [List.forall_mem_cons, List.not_mem_nil, false_implies, implies_true, and_true]
    exact ⟨⟨validUtf8_ascii rfl, .number _⟩, ⟨validUtf8_ascii rfl, .number _⟩,
      ⟨validUtf8_ascii rfl, .number _⟩, ⟨validUtf8_ascii rfl, .number _⟩,
      ⟨validUtf8_ascii rfl, .number _⟩, validUtf8_ascii rfl, hengine⟩
  generation := isCount_roundPlaces hcounted.generation
  ipv4 := isFamily_json htext.sockets.1
  ipv6 := isFamily_json htext.sockets.2
  entries := by
    intro member hmember slot hslot
    have hclient : member ∈ ([] : List (Bytes × Json)) ∨ ∃ client ∈ m.clients,
        member = (client.id, Daemon.clientJson roundPlaces m.probers client false) := members_foldl_set hmember
    obtain hnone | ⟨client, hclient, rfl⟩ := hclient
    · cases hnone
    dsimp only at hslot
    rw [destinations_clientJson, Json.entries] at hslot
    obtain ⟨d, hd, hentry⟩ := List.mem_map.mp (List.fst_mem_of_mem_zipIdx hslot)
    rw [← hentry]
    exact isEntry_destinationJson htext hcounted hclient hd

end Payload

section Poll

/-- A file of one section, with a line for each key. -/
def iniText (category : Bytes) (entries : List (Bytes × Bytes)) : Bytes :=
  (((ascii "[" ++ category ++ ascii "]") :: entries.map fun entry => entry.1 ++ 0x3d :: entry.2).map
    (· ++ [0x0a])).flatten

/-- A line in which nothing is quoted, escaped or typed. -/
def IsPlain (entry : Bytes × Bytes) : Prop :=
  entry.1 ≠ [] ∧ (∀ c ∈ entry.1, 0x61 ≤ c ∧ c ≤ 0x7a) ∧ entry.2 ≠ [] ∧ ∀ c ∈ entry.2, Daemon.isIniSyntax c = false

/-- What `QSettings` promises of a file of such lines: a key of the section has the value of its line. -/
def ReadsPlainLines (settings : Bytes → Bytes → Option Bytes) : Prop :=
  ∀ entries : List (Bytes × Bytes), (entries.map Prod.fst).Nodup → (∀ entry ∈ entries, IsPlain entry) →
    ∀ entry ∈ entries, settings (iniText (ascii "State") entries) entry.1 = some entry.2

/-- What `poll` makes of the file. The settings are text, and `atob` decodes one of them. -/
def stateFile (settings : Bytes → Bytes → Option Bytes) (atob : Bytes → CodeUnits) (file : Bytes) :
    Widget.StateFile where
  published := match settings file (ascii "generation") with
    | none => some (-1)
    | some value => match (Number.ofText (widen value) : Number Binary64) with
      | .finite x => some x.val.floor
      | _ => none
  payload := match (settings file (ascii "payload")).getD [] with
    | [] => .empty
    | encoded => match JsonValue.parse (atob encoded) with
      | none => .malformed
      | some payload => .parsed (readDocument payload)

/-- Loss percentages lose next to nothing. -/
theorem abs_printedNumber_sub_le {q : ℚ} (hlow : 0 ≤ q) (hhigh : q ≤ 100) : |printedNumber q - q| ≤ 1 / 10 ^ 7 := by
  have hwritten : |writtenNumber q - q| ≤ 1 / 10 ^ 7 / 2 := by
    unfold writtenNumber
    split_ifs
    · norm_num
    · refine (CNumber.abs_tenPlaces_sub_le q).trans ?_
      rw [abs_of_nonneg hlow]
      linarith
  obtain ⟨hbelow, habove⟩ := abs_le.mp hwritten
  have hsmall : |writtenNumber q| < 2 ^ 7 := by
    rw [abs_lt]
    constructor <;> norm_num at hbelow habove ⊢ <;> linarith
  obtain ⟨hdown, hup⟩ := abs_le.mp (CNumber.abs_roundPlaces_sub_le hsmall)
  have hfinite : |roundPlaces (writtenNumber q)| < 2 ^ 1024 := by
    refine lt_trans ?_ (pow_lt_pow_right₀ (by norm_num : (1 : ℚ) < 2) (by norm_num : 8 < 1024))
    rw [abs_lt]
    constructor <;> norm_num at hbelow habove hdown hup ⊢ <;> linarith
  have hprinted : printedNumber q = roundPlaces (writtenNumber q) := by
    have hnearest : (NumberFormat.nearest (writtenNumber q) : Number Binary64) =
        .finite ⟨_, representable_roundPlaces hfinite⟩ := dif_pos hfinite
    rw [printedNumber, hnearest]
    rfl
  rw [hprinted, abs_le]
  constructor <;> norm_num at hbelow habove hdown hup ⊢ <;> linarith

theorem isPlain_decimal (n : ℕ) : Daemon.decimal n ≠ [] ∧ ∀ c ∈ Daemon.decimal n, Daemon.isIniSyntax c = false := by
  refine ⟨CNumber.natText_ne_nil n, fun c hc => ?_⟩
  have hdigit : ∀ n : Fin 256, 48 ≤ n.val ∧ n.val ≤ 57 → Daemon.isIniSyntax (UInt8.ofFin n) = false := by decide +kernel
  exact hdigit c.toFin (Daemon.toNat_of_mem_decimal hc)

theorem base64Encode_ne_nil {data : Bytes} (h : data ≠ []) : Daemon.base64Encode data ≠ [] := by
  intro hnil
  have hdecode := Daemon.decode_base64Encode data
  rw [hnil] at hdecode
  exact h (Option.some.inj hdecode).symm

theorem settings_stateIni {settings : Bytes → Bytes → Option Bytes} (h : ReadsPlainLines settings) (generation : ℕ)
    {document : Bytes} (hdocument : document ≠ []) :
    settings (Daemon.stateIni generation document) (ascii "generation") = some (Daemon.decimal generation) ∧
      settings (Daemon.stateIni generation document) (ascii "payload") = some (Daemon.base64Encode document) := by
  let entries : List (Bytes × Bytes) := [(ascii "generation", Daemon.decimal generation),
    (ascii "payload", Daemon.base64Encode document)]
  have hfile : Daemon.stateIni generation document = iniText (ascii "State") entries := by
    simp [Daemon.stateIni, iniText, entries, ascii]
  have hkeys : ∀ key ∈ [ascii "generation", ascii "payload"], key ≠ [] ∧ ∀ c ∈ key, 0x61 ≤ c ∧ c ≤ 0x7a := by
    decide +kernel
  have hplain : ∀ entry ∈ entries, IsPlain entry := by
    simp only [entries, List.forall_mem_cons, List.not_mem_nil, false_implies, implies_true, and_true]
    obtain ⟨hgeneration, hgeneration'⟩ := hkeys _ List.mem_cons_self
    obtain ⟨hpayload, hpayload'⟩ := hkeys _ (List.mem_cons_of_mem _ List.mem_cons_self)
    exact ⟨⟨hgeneration, hgeneration', isPlain_decimal generation⟩, hpayload, hpayload',
      base64Encode_ne_nil hdocument, fun c hc => Daemon.isIniSyntax_of_mem_base64Encode hc⟩
  have hread := h entries (by simp only [entries, List.map_cons, List.map_nil]; decide) hplain
  rw [hfile]
  exact ⟨hread _ List.mem_cons_self, hread _ (List.mem_cons_of_mem _ List.mem_cons_self)⟩

/-- The widget reads every state file that the daemon publishes, whatever its state is: the
generation and all counts as they are, every string as the text it is, and the loss to within a
ten-millionth of a percent. -/
theorem stateFile_stateIni (settings : Bytes → Bytes → Option Bytes) (hsettings : ReadsPlainLines settings)
    (atob : Bytes → CodeUnits)
    (hatob : ∀ data : Bytes, (∀ b ∈ data, b < 0x80) → atob (Daemon.base64Encode data) = widen data)
    {m : Daemon.Monitor} (htext : TextState m) (hcounted : Counted m) (pid realNow now : ℕ) :
    stateFile settings atob (Daemon.stateIni m.generation
        (dump (m.buildStateJson roundPlaces pid realNow now false) (-1) true)) =
      ⟨some m.generation, .parsed (printedDocument (document (m.buildStateJson roundPlaces pid realNow now false)))⟩ ∧
    ∀ q, 0 ≤ q → q ≤ 100 → |printedNumber q - q| ≤ 1 / 10 ^ 7 := by
  refine ⟨?_, fun q => abs_printedNumber_sub_le⟩
  generalize hpayload : m.buildStateJson roundPlaces pid realNow now false = payload
  have hread := isPayload_buildStateJson htext hcounted pid realNow now
  rw [hpayload] at hread
  have hne : dump payload (-1) true ≠ [] := by
    obtain ⟨u, tail, hstart, -⟩ := starts_write 0 payload
    intro hnil
    rw [dump] at hnil
    rw [hnil] at hstart
    cases hstart
  obtain ⟨hgeneration, hencoded⟩ := settings_stateIni hsettings m.generation hne
  have hascii : ∀ b ∈ dump payload (-1) true, b < 0x80 := Daemon.Json.write_lt (-1) payload.depth payload le_rfl 0
  have hnumber : (Number.ofText (widen (Daemon.decimal m.generation)) : Number Binary64) =
      .finite (Binary64.ofCount m.generation (by have := hcounted.generation; omega)) :=
    (CNumber.ofText_natText m.generation).trans (Binary64.nearest_natCast _)
  have hfloor : (Binary64.ofCount m.generation (by have := hcounted.generation; omega)).val.floor = m.generation :=
    Rat.floor_intCast (m.generation : ℤ)
  obtain ⟨c, rest, hcons⟩ := List.exists_cons_of_ne_nil (base64Encode_ne_nil hne)
  have hparse : JsonValue.parse (atob (c :: rest)) = some (seen payload) := by
    rw [← hcons, hatob _ hascii]
    exact parse_widen_dump payload
  simp only [stateFile, hgeneration, hencoded, hnumber, hfloor, Option.getD_some, hcons, hparse,
    readDocument_seen hread]

/-- The settings, read line by line. -/
def settingsValue (file key : Bytes) : Option Bytes := ((file.splitOn 0x0a).map Daemon.iniEntry).lookup key

theorem splitOn_lines {lines : List Bytes} (h : ∀ line ∈ lines, 0x0a ∉ line) :
    ((lines.map (· ++ [0x0a])).flatten).splitOn 0x0a = lines ++ [[]] := by
  induction lines with
  | nil => rfl
  | cons line rest ih =>
    rw [List.map_cons, List.flatten_cons, List.append_assoc, List.singleton_append,
      List.splitOn_append_cons_self_of_not_mem (h line List.mem_cons_self),
      ih fun other hother => h other (List.mem_cons_of_mem _ hother), List.cons_append]

theorem readsPlainLines_settingsValue : ReadsPlainLines settingsValue := by
  intro entries hkeys hplain entry hentry
  have hlower : ∀ e ∈ entries, ∀ c : UInt8, ¬ 0x61 ≤ c → c ∉ e.1 := fun e he c hlow hc =>
    hlow ((hplain e he).2.1 c hc).1
  have hline : ∀ line ∈ ascii "[State]" :: entries.map (fun e => e.1 ++ 0x3d :: e.2), 0x0a ∉ line := by
    refine List.forall_mem_cons.mpr ⟨by decide, fun line hline hbreak => ?_⟩
    obtain ⟨e, he, rfl⟩ := List.mem_map.mp hline
    obtain hkey | hrest := List.mem_append.mp hbreak
    · exact hlower e he _ (by decide) hkey
    obtain heq | hvalue := List.mem_cons.mp hrest
    · exact absurd heq (by decide)
    · exact absurd ((hplain e he).2.2.2 _ hvalue) (by decide)
  have hentries : (entries.map fun e => e.1 ++ 0x3d :: e.2).map Daemon.iniEntry = entries := by
    rw [List.map_map]
    refine Eq.trans (List.map_congr_left fun e he => ?_) (List.map_id' entries)
    exact Daemon.iniEntry_append (hlower e he _ (by decide))
  have hne : entry.1 ≠ ascii "[State]" := fun he =>
    hlower entry hentry 0x5b (by decide) (he ▸ by decide)
  have hheader : ascii "[" ++ ascii "State" ++ ascii "]" = ascii "[State]" := rfl
  have hfound : entries.lookup entry.1 = some entry.2 := (lookup_eq_some_iff_mem hkeys).mpr hentry
  rw [settingsValue, iniText, hheader, splitOn_lines hline, List.map_append, List.map_cons, hentries, List.cons_append,
    show Daemon.iniEntry (ascii "[State]") = (ascii "[State]", []) by decide, lookup_cons_ite, if_neg hne,
    List.lookup_append, hfound]
  rfl

/-- Two replies to three probes, for a widget whose name is no ASCII. -/
theorem stateFile_stateIni_lossy :
    let router : Daemon.Destination := ⟨ascii "r", ascii "Router", ascii "192.0.2.1", 0, 1000, 3, true, false, none,
      .warn, .warn, 0, true, 1250, 3, 2, 0, 0, []⟩
    let m : Daemon.Monitor := { Daemon.Monitor.initial ⟨[], 1000000, 0, 0, 50, by decide, by decide⟩ ⟨true, false, []⟩
        ⟨true, false, []⟩ 5 0 with
      generation := 6, clients := [⟨[0xc3, 0xa9], [], 1000000, 1000000, [router]⟩] }
    let atob := fun encoded => widen ((Base64.decode encoded).getD [])
    let read := stateFile settingsValue atob (Daemon.stateIni m.generation
      (dump (m.buildStateJson roundPlaces 7 0 0 false) (-1) true))
    read.published = some 6 ∧ ∃ document, read.payload = .parsed document ∧
      (document.clients.lookup "é").map (·.map fun live => (live.id, live.state, live.rttUs, live.sent, live.received)) =
        some [("r", .warn, 1250, 3, 2)] := by
  intro router m atob read
  have hatob : ∀ data : Bytes, (∀ b ∈ data, b < 0x80) → atob (Daemon.base64Encode data) = widen data := by
    intro data _
    dsimp only [atob]
    rw [Daemon.decode_base64Encode, Option.getD_some]
  have htext : TextState m := by
    refine ⟨?_, by simp [m, Daemon.Monitor.initial], validUtf8_nil, validUtf8_nil⟩
    simp only [m, router, List.forall_mem_singleton]
    exact ⟨⟨['é'], by decide⟩, validUtf8_ascii rfl⟩
  have hcounted : Counted m := ⟨by decide, by decide⟩
  have hread := (stateFile_stateIni settingsValue readsPlainLines_settingsValue atob hatob htext hcounted 7 0 0).1
  have hpublished : read.published = some 6 := congrArg Widget.StateFile.published hread
  refine ⟨hpublished, _, congrArg Widget.StateFile.payload hread, ?_⟩
  decide +kernel

end Poll

end NetworkHealth.Joint
