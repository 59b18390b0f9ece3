import NetworkHealth.Daemon.ClientsDirectory
import NetworkHealth.Joint.Sent

/-! From the configurations of any number of widgets to what the daemon probes. Each widget writes a file
of its own into the clients directory, which the daemon reads and watches. -/
namespace NetworkHealth.Joint
open Daemon (Bytes Json ascii)

/-- `configPath` within the clients directory. -/
def fileName (client : String) : Bytes := utf8 client ++ ascii ".json"

/-- The file that `writeConfig` moves into place, as the daemon reads it. -/
def entryOf (btoa : CodeUnits → Bytes) (config : Widget.DaemonConfig) : Daemon.DirEntry :=
  ⟨fileName config.client, (configFile btoa config).map fun file => (Json.parse file).1⟩

/-- The daemon with its clients directory, and what was written there last for each client. -/
structure Desktop where
  site : Daemon.Site
  written : String → Option Widget.DaemonConfig

inductive Turn
  | writeConfig (config : Widget.DaemonConfig)
  /-- By the widget, or by `dropExpiredClients`. -/
  | removeConfig (client : String)
  | daemon (action : Daemon.Action)

namespace Desktop

def step (btoa : CodeUnits → Bytes) (numeric : Bytes → Option Daemon.Endpoint) (d : Desktop) : Turn → Desktop
  | .writeConfig config =>
    if config.client = "" then d
    else ⟨d.site.step numeric (.put 0 (entryOf btoa config)), Function.update d.written config.client (some config)⟩
  | .removeConfig client =>
    if client = "" then d
    else ⟨d.site.step numeric (.delete 0 (fileName client)), Function.update d.written client none⟩
  | .daemon action => { d with site := d.site.step numeric action }

def machine (btoa : CodeUnits → Bytes) (numeric : Bytes → Option Daemon.Endpoint) : Machine Desktop Turn :=
  ⟨step btoa numeric⟩

end Desktop

/-- An identifier of a widget, and numbers that a double holds as they are. -/
structure Regular (config : Widget.DaemonConfig) : Prop where
  slash : '/' ∉ config.client.toList
  dot : (utf8 config.client).head? ≠ some 0x2e
  exact : ExactNumbers config

/-- The daemon's own steps, with a directory that can be opened. -/
def OwnStep : Daemon.Action → Prop
  | .makeDirectories | .addWatch _ | .openDirectory false _ | .closeDirectory _ _ | .handleInotify | .reload
  | .handle _ => True
  | _ => False

def Turn.Regular : Turn → Prop
  | writeConfig config => Joint.Regular config
  | removeConfig _ => True
  | daemon action => OwnStep action

/-- The directory holds what has been written. -/
structure Lists (btoa : CodeUnits → Bytes) (directory : Daemon.Directory)
    (written : String → Option Widget.DaemonConfig) : Prop where
  mem : ∀ entry, entry ∈ directory.entries ↔
    ∃ client config, written client = some config ∧ entry = entryOf btoa config
  client : ∀ client config, written client = some config → config.client = client ∧ client ≠ "" ∧ Regular config

section Files
variable {btoa : CodeUnits → Bytes} {directory : Daemon.Directory} {written : String → Option Widget.DaemonConfig}

theorem fileName_injective : Function.Injective fileName :=
  fun _ _ h => utf8_injective (List.append_cancel_right h)

theorem Lists.put (h : Lists btoa directory written) {config : Widget.DaemonConfig} (hclient : config.client ≠ "")
    (hconfig : Regular config) :
    Lists btoa (directory.put (entryOf btoa config)) (Function.update written config.client (some config)) := by
  constructor
  · intro entry
    change entry ∈ entryOf btoa config :: directory.entries.filter (·.name ≠ (entryOf btoa config).name) ↔ _
    simp only [List.mem_cons, List.mem_filter, decide_eq_true_eq]
    constructor
    · rintro (rfl | ⟨hentry, hname⟩)
      · exact ⟨config.client, config, Function.update_self _ _ _, rfl⟩
      · obtain ⟨client, other, hother, rfl⟩ := (h.mem entry).mp hentry
        obtain ⟨rfl, -⟩ := h.client client other hother
        refine ⟨other.client, other, ?_, rfl⟩
        rw [Function.update_of_ne fun he => hname (congrArg fileName he)]
        exact hother
    · rintro ⟨client, other, hother, rfl⟩
      by_cases he : client = config.client
      · rw [he, Function.update_self] at hother
        rw [← Option.some.inj hother]
        exact Or.inl rfl
      · rw [Function.update_of_ne he] at hother
        refine Or.inr ⟨(h.mem _).mpr ⟨client, other, hother, rfl⟩, fun hname => he ?_⟩
        rw [← (h.client client other hother).1]
        exact fileName_injective hname
  · intro client other hother
    by_cases he : client = config.client
    · rw [he, Function.update_self] at hother
      obtain rfl := Option.some.inj hother
      exact ⟨he.symm, he ▸ hclient, hconfig⟩
    · rw [Function.update_of_ne he] at hother
      exact h.client client other hother

theorem Lists.delete (h : Lists btoa directory written) (client : String) :
    Lists btoa (directory.delete (fileName client)) (Function.update written client none) := by
  constructor
  · intro entry
    change entry ∈ directory.entries.filter (·.name ≠ fileName client) ↔ _
    simp only [List.mem_filter, decide_eq_true_eq]
    constructor
    · rintro ⟨hentry, hname⟩
      obtain ⟨other, config, hother, rfl⟩ := (h.mem entry).mp hentry
      obtain ⟨rfl, -⟩ := h.client other config hother
      refine ⟨config.client, config, ?_, rfl⟩
      rw [Function.update_of_ne fun he => hname (congrArg fileName he)]
      exact hother
    · rintro ⟨other, config, hother, rfl⟩
      by_cases he : other = client
      · rw [he, Function.update_self] at hother
        cases hother
      · rw [Function.update_of_ne he] at hother
        refine ⟨(h.mem _).mpr ⟨other, config, hother, rfl⟩, fun hname => he ?_⟩
        rw [← (h.client other config hother).1]
        exact fileName_injective hname
  · intro other config hother
    by_cases he : other = client
    · rw [he, Function.update_self] at hother
      cases hother
    · rw [Function.update_of_ne he] at hother
      exact h.client other config hother

/-- The daemon makes of a file the client that was configured. -/
theorem loadEntry_entryOf (hbtoa : ∀ text : String, btoa (utf16 text) = Daemon.base64Encode (utf8 text))
    {config : Widget.DaemonConfig} (hclient : config.client ≠ "") (hconfig : Regular config)
    (options : Daemon.Options) : Daemon.loadEntry options (entryOf btoa config) = some (clientOf options
      (options.runtimeDir ++ ascii "/clients/" ++ fileName config.client) (utf8 config.client) config) := by
  obtain ⟨file, hfile, hparse⟩ := (sends_config 60 hconfig.exact).parse_file rfl hbtoa
  have hdocument : (entryOf btoa config).document = some (configJson config) := by
    change (configFile btoa config).map _ = _
    rw [configFile, hfile, Option.map_some, hparse]
  have hne : utf8 config.client ≠ [] := fun hnil => hclient (utf8_injective hnil)
  obtain ⟨b, rest, hbytes⟩ := List.exists_cons_of_ne_nil hne
  have hdot : b ≠ 0x2e := fun he => hconfig.dot (by rw [hbytes, he]; rfl)
  have hname : (entryOf btoa config).name = utf8 config.client ++ ascii ".json" := rfl
  have hlength : (ascii ".json").length = 5 := rfl
  have htaken : (utf8 config.client ++ ascii ".json").take ((utf8 config.client ++ ascii ".json").length - 5) =
      utf8 config.client := by
    rw [List.length_append, hlength, Nat.add_sub_cancel, List.take_left']
    rfl
  have hsuffix : Daemon.hasSuffix (utf8 config.client ++ ascii ".json") (ascii ".json") = true :=
    List.isSuffixOf_iff_suffix.mpr (List.suffix_append _ _)
  unfold Daemon.loadEntry
  rw [hdocument, hname, hsuffix, htaken, if_neg]
  · exact loadClientFile_eq options _ _ hconfig.exact
  · rw [hbytes]
    simp [hdot]

/-- The clients of the directory are those that have been written. -/
theorem Lists.loadedClients (h : Lists btoa directory written)
    (hbtoa : ∀ text : String, btoa (utf16 text) = Daemon.base64Encode (utf8 text)) (options : Daemon.Options)
    (client : Daemon.Client) : client ∈ Daemon.loadedClients options directory ↔
      ∃ id config, written id = some config ∧ client = clientOf options
        (options.runtimeDir ++ ascii "/clients/" ++ fileName id) (utf8 id) config := by
  unfold Daemon.loadedClients
  rw [(List.perm_insertionSort _ _).mem_iff, List.mem_filterMap]
  constructor
  · rintro ⟨entry, hentry, hloaded⟩
    obtain ⟨id, config, hwritten, rfl⟩ := (h.mem entry).mp hentry
    obtain ⟨rfl, hclient, hconfig⟩ := h.client id config hwritten
    rw [loadEntry_entryOf hbtoa hclient hconfig] at hloaded
    exact ⟨config.client, config, hwritten, (Option.some.inj hloaded).symm⟩
  · rintro ⟨id, config, hwritten, rfl⟩
    obtain ⟨rfl, hclient, hconfig⟩ := h.client id config hwritten
    exact ⟨_, (h.mem _).mpr ⟨_, config, hwritten, rfl⟩, loadEntry_entryOf hbtoa hclient hconfig options⟩

end Files
section Sited
open Daemon (Site Phase Monitor)

/-- The directory is watched from here on. -/
def begun : Phase → Bool
  | .starting | .made => false
  | _ => true

/-- The directory has not been missed. -/
def ordinary : Phase → Bool
  | .vanished | .remade => false
  | _ => true

/-- A daemon whose directory stays where it is. -/
structure Sited (options : Daemon.Options) (s : Site) : Prop where
  path : s.path = some 0
  watched : begun s.phase = true → 0 ∈ s.watched
  ordinary : ordinary s.phase = true
  reading : ∀ inode touched, s.phase = .reading inode touched → inode = 0
  inv : s.Inv
  wired : s.monitor.WellWired
  options : s.monitor.options = options

variable {numeric : Bytes → Option Daemon.Endpoint} {options : Daemon.Options} {s : Site}

theorem begun_touch (inode : ℕ) (name : Bytes) (phase : Phase) : begun (phase.touch inode name) = begun phase ∧
    ordinary (phase.touch inode name) = ordinary phase := by
  cases phase <;> exact ⟨rfl, rfl⟩

/-- Another file is there or gone. -/
theorem Sited.touch (h : Sited options s) (name : Bytes) (directory : Daemon.Directory)
    (hinv : (s.touch 0 name directory).Inv) :
    Sited options (s.touch 0 name directory) ∧ (s.touch 0 name directory).directories 0 = directory := by
  obtain ⟨hmonitor, hphase, hdirectories, hpath, hwatched⟩ := s.touch_fields 0 name directory
  obtain ⟨hbegun, hordinary⟩ := begun_touch 0 name s.phase
  refine ⟨⟨hpath.trans h.path, ?_, ?_, ?_, hinv, hmonitor ▸ h.wired, hmonitor ▸ h.options⟩, ?_⟩
  · rw [hphase, hwatched, hbegun]
    exact h.watched
  · rw [hphase, hordinary]
    exact h.ordinary
  · intro inode touched hreading
    rw [hphase] at hreading
    cases hwhere : s.phase <;> rw [hwhere] at hreading <;> cases hreading
    exact h.reading _ _ hwhere
  · rw [hdirectories, Function.update_self]

/-- A reload leaves the daemon in its loop. -/
theorem Sited.finish (h : Sited options s) (hbegun : begun s.phase = true) (read : Daemon.Directory) (now : ℕ)
    (hinv : (s.finish numeric read now).Inv) : Sited options (s.finish numeric read now) where
  path := h.path
  watched _ := h.watched hbegun
  ordinary := rfl
  reading _ _ hreading := by cases hreading
  inv := hinv
  wired := Monitor.wellWired_step numeric h.wired ⟨now, .reloadClients read⟩
  options := h.options

/-- The daemon changes no file. -/
theorem Sited.directories_own (numeric : Bytes → Option Daemon.Endpoint) (h : Sited options s) {action : Daemon.Action}
    (ha : OwnStep action) : (s.step numeric action).directories = s.directories := by
  cases action with
  | makeDirectories =>
    have hcreate : s.create .empty = s := by
      unfold Site.create
      rw [h.path]
    change s.makeDirectories.directories = s.directories
    unfold Site.makeDirectories
    rw [hcreate]
    split <;> rfl
  | addWatch now =>
    change (s.addWatch numeric now).directories = s.directories
    unfold Site.addWatch Site.watch
    rw [h.path]
    split <;> rfl
  | openDirectory fails now =>
    change (s.openDirectory numeric fails now).directories = s.directories
    unfold Site.openDirectory
    rw [h.path]
    split
    · split_ifs <;> rfl
    · rfl
  | closeDirectory found now =>
    change (s.closeDirectory numeric found now).directories = s.directories
    unfold Site.closeDirectory
    split <;> rfl
  | handleInotify =>
    change s.handleInotify.directories = s.directories
    unfold Site.handleInotify
    split <;> rfl
  | reload =>
    change s.reload.directories = s.directories
    unfold Site.reload
    split
    · split_ifs <;> rfl
    · rfl
  | handle event =>
    change (s.handle numeric event).directories = s.directories
    unfold Site.handle
    split <;> rfl
  | _ => exact ha.elim

theorem Sited.inv_own (numeric : Bytes → Option Daemon.Endpoint) (h : Sited options s) {action : Daemon.Action}
    (ha : OwnStep action) : (s.step numeric action).Inv := by
  refine h.inv.step numeric ?_
  cases action with
  | openDirectory fails now =>
    cases fails
    · intro hphase
      exact Or.inr ⟨Site.watches_of_mem h.path (h.watched (by rw [hphase]; rfl)), nofun⟩
    · exact ha.elim
  | addWatch now =>
    intro hphase
    have hordinary := h.ordinary
    rw [hphase] at hordinary
    cases hordinary
  | _ => trivial

theorem Sited.own (numeric : Bytes → Option Daemon.Endpoint) (h : Sited options s) {action : Daemon.Action}
    (ha : OwnStep action) : Sited options (s.step numeric action) := by
  have hinv := h.inv_own numeric ha
  cases action with
  | makeDirectories =>
    change s.makeDirectories.Inv at hinv
    change Sited options s.makeDirectories
    have hcreate : s.create .empty = s := by
      unfold Site.create
      rw [h.path]
    unfold Site.makeDirectories at hinv ⊢
    rw [hcreate] at hinv ⊢
    split
    · next hphase =>
      rw [hphase] at hinv
      exact ⟨h.path, nofun, rfl, nofun, hinv, h.wired, h.options⟩
    · next hphase =>
      have hordinary := h.ordinary
      rw [hphase] at hordinary
      cases hordinary
    · exact h
  | addWatch now =>
    change (s.addWatch numeric now).Inv at hinv
    change Sited options (s.addWatch numeric now)
    have hwatch : s.watch = { s with watched := 0 :: s.watched } := by
      unfold Site.watch
      rw [h.path]
    unfold Site.addWatch at hinv ⊢
    rw [hwatch] at hinv ⊢
    split
    · next hphase =>
      rw [hphase] at hinv
      exact ⟨h.path, fun _ => List.mem_cons_self, rfl, nofun, hinv, h.wired, h.options⟩
    · next hphase =>
      have hordinary := h.ordinary
      rw [hphase] at hordinary
      cases hordinary
    · exact h
  | openDirectory fails now =>
    cases fails
    · change (s.openDirectory numeric false now).Inv at hinv
      change Sited options (s.openDirectory numeric false now)
      by_cases hphase : s.phase = .opening
      · have hopened : s.openDirectory numeric false now = { s with phase := .reading 0 [] } := by
          simp [Site.openDirectory, hphase, h.path]
        rw [hopened] at hinv ⊢
        refine ⟨h.path, fun _ => h.watched (by rw [hphase]; rfl), rfl, ?_, hinv, h.wired, h.options⟩
        intro inode touched hreading
        cases hreading
        rfl
      · have hleft : s.openDirectory numeric false now = s := by
          unfold Site.openDirectory
          split
          · contradiction
          · rfl
        rw [hleft]
        exact h
    · exact ha.elim
  | closeDirectory found now =>
    change (s.closeDirectory numeric found now).Inv at hinv
    change Sited options (s.closeDirectory numeric found now)
    unfold Site.closeDirectory at hinv ⊢
    split
    · next inode touched hphase =>
      rw [hphase] at hinv
      exact h.finish (by rw [hphase]; rfl) _ now hinv
    · exact h
  | handleInotify =>
    change s.handleInotify.Inv at hinv
    change Sited options s.handleInotify
    unfold Site.handleInotify at hinv ⊢
    split
    · next hphase =>
      have hwatched := h.watched (by rw [hphase]; rfl)
      simp only [hphase] at hinv
      exact ⟨h.path, fun _ => hwatched, h.ordinary, h.reading, by simpa [hphase] using hinv, h.wired, h.options⟩
    · exact h
  | reload =>
    change s.reload.Inv at hinv
    change Sited options s.reload
    unfold Site.reload at hinv ⊢
    split
    · next hphase =>
      rw [hphase] at hinv
      split_ifs with hdirty
      · exact ⟨h.path, fun _ => h.watched (by rw [hphase]; rfl), rfl, nofun, trivial, h.wired, h.options⟩
      · exact h
    · exact h
  | handle event =>
    change (s.handle numeric event).Inv at hinv
    change Sited options (s.handle numeric event)
    unfold Site.handle at hinv ⊢
    split at hinv
    · exact h
    · exact ⟨h.path, h.watched, h.ordinary, h.reading, hinv, Monitor.wellWired_step numeric h.wired event,
        (Monitor.options_step numeric s.monitor event).trans h.options⟩
    · exact h
  | _ => exact ha.elim

/-- The daemon is about to sleep with nothing to do. -/
def Idle (s : Site) : Prop := s.phase = .looping ∧ s.monitor.configDirty = false ∧ s.unread = []

/-- What the daemon does next while nobody else does anything, wherever it is: `start` and a reload if one is under
way, then a turn of the loop. -/
def catchUp (now : ℕ) : List Daemon.Action :=
  [.makeDirectories, .addWatch now, .openDirectory false now, .closeDirectory .empty now, .handleInotify, .reload,
    .openDirectory false now, .closeDirectory .empty now]

theorem Sited.looping (h : Sited options s) (now : ℕ) :
    (((s.makeDirectories.addWatch numeric now).openDirectory numeric false now).closeDirectory numeric .empty
      now).phase = .looping := by
  have hordinary := h.ordinary
  cases hphase : s.phase with
  | vanished => rw [hphase] at hordinary; cases hordinary
  | remade => rw [hphase] at hordinary; cases hordinary
  | _ =>
    simp [Site.makeDirectories, Site.addWatch, Site.openDirectory, Site.closeDirectory, Site.create, Site.watch,
      Site.finish, hphase, h.path]

theorem idle_of_looping (hphase : s.phase = .looping) (hpath : s.path = some 0) (now : ℕ) :
    Idle ((s.handleInotify.reload.openDirectory numeric false now).closeDirectory numeric .empty now) := by
  cases hdirty : s.monitor.configDirty || s.unread.any Daemon.Notice.matters with
  | true =>
    simp [Idle, Site.handleInotify, Site.reload, Site.openDirectory, Site.closeDirectory, Site.finish, hphase, hpath,
      hdirty]
    rfl
  | false =>
    simp [Idle, Site.handleInotify, Site.reload, Site.openDirectory, Site.closeDirectory, hphase, hdirty]

theorem Sited.idle (h : Sited options s) (now : ℕ) : Idle ((catchUp now).foldl (fun s a => s.step numeric a) s) := by
  have hmade : Sited options s.makeDirectories := h.own numeric (show OwnStep .makeDirectories from trivial)
  have hwatched : Sited options (s.makeDirectories.addWatch numeric now) :=
    hmade.own numeric (show OwnStep (.addWatch now) from trivial)
  have hopened : Sited options ((s.makeDirectories.addWatch numeric now).openDirectory numeric false now) :=
    hwatched.own numeric (show OwnStep (.openDirectory false now) from trivial)
  have hclosed := hopened.own numeric (show OwnStep (.closeDirectory .empty now) from trivial)
  exact idle_of_looping (h.looping now) hclosed.path now

end Sited

section Desktop
variable {btoa : CodeUnits → Bytes} {numeric : Bytes → Option Daemon.Endpoint} {options : Daemon.Options}

/-- The daemon is in order, and its directory holds what has been written. -/
def Desktop.Kept (btoa : CodeUnits → Bytes) (options : Daemon.Options) (d : Desktop) : Prop :=
  Sited options d.site ∧ Lists btoa (d.site.directories 0) d.written

theorem Desktop.Kept.step {d : Desktop} (h : d.Kept btoa options) {turn : Turn} (hturn : turn.Regular) :
    (d.step btoa numeric turn).Kept btoa options := by
  obtain ⟨hsited, hlists⟩ := h
  cases turn with
  | writeConfig config =>
    unfold Desktop.step
    dsimp only
    split_ifs with hclient
    · exact ⟨hsited, hlists⟩
    · have hinv : (d.site.step numeric (.put 0 (entryOf btoa config))).Inv := hsited.inv.step numeric trivial
      obtain ⟨hnext, hdirectory⟩ := hsited.touch (entryOf btoa config).name
        ((d.site.directories 0).put (entryOf btoa config)) hinv
      refine ⟨hnext, ?_⟩
      change Lists btoa ((d.site.touch 0 (entryOf btoa config).name _).directories 0) _
      rw [hdirectory]
      exact hlists.put hclient hturn
  | removeConfig client =>
    unfold Desktop.step
    dsimp only
    split_ifs with hclient
    · exact ⟨hsited, hlists⟩
    · have hinv : (d.site.step numeric (.delete 0 (fileName client))).Inv := hsited.inv.step numeric trivial
      obtain ⟨hnext, hdirectory⟩ := hsited.touch (fileName client)
        ((d.site.directories 0).delete (fileName client)) hinv
      refine ⟨hnext, ?_⟩
      change Lists btoa ((d.site.touch 0 (fileName client) _).directories 0) _
      rw [hdirectory]
      exact hlists.delete client
  | daemon action =>
    refine ⟨hsited.own numeric hturn, ?_⟩
    change Lists btoa ((d.site.step numeric action).directories 0) d.written
    rw [hsited.directories_own numeric hturn]
    exact hlists

/-- Before the daemon starts, with what the widgets have written by then. -/
def Desktop.initial (monitor : Daemon.Monitor) (directory : Daemon.Directory)
    (written : String → Option Widget.DaemonConfig) : Desktop := ⟨.initial monitor (some directory), written⟩

end Desktop

end NetworkHealth.Joint
