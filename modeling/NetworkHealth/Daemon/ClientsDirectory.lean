import NetworkHealth.Daemon.Reload

/-! The clients directory, which others change while the daemon reads and watches it. A watch
stays with the directory it was put on, whatever becomes of the path; the daemon opens the path.
A directory that has been removed is there until its last user leaves it, and the kernel tells of its
end only then. The directories above it stay where they are. -/
namespace NetworkHealth.Daemon

namespace Directory

def empty : Directory := ⟨[], .nil⟩

/-- A file of that name is renamed into place, or rewritten and closed. -/
def put (directory : Directory) (entry : DirEntry) : Directory where
  entries := entry :: directory.entries.filter (·.name ≠ entry.name)
  nodup := by
    refine List.nodup_cons.mpr ⟨fun hmem => ?_, (List.Sublist.map _ List.filter_sublist).nodup directory.nodup⟩
    obtain ⟨other, hother, he⟩ := List.mem_map.mp hmem
    simpa [he] using (List.mem_filter.mp hother).2

def delete (directory : Directory) (name : Bytes) : Directory where
  entries := directory.entries.filter (·.name ≠ name)
  nodup := (List.Sublist.map _ List.filter_sublist).nodup directory.nodup

/-- What `readdir` and the reading of the files make of a directory in which some names are
touched meanwhile: the others as they are, and of those whatever was found. -/
def observed (directory : Directory) (touched : List Bytes) (found : Directory) : Directory where
  entries := directory.entries.filter (·.name ∉ touched) ++ found.entries.filter (·.name ∈ touched)
  nodup := by
    rw [List.map_append, List.nodup_append]
    refine ⟨(List.Sublist.map _ List.filter_sublist).nodup directory.nodup,
      (List.Sublist.map _ List.filter_sublist).nodup found.nodup, fun a ha b hb he => ?_⟩
    obtain ⟨entry, hentry, rfl⟩ := List.mem_map.mp ha
    obtain ⟨entry', hentry', rfl⟩ := List.mem_map.mp hb
    have hout := (List.mem_filter.mp hentry).2
    have hin := (List.mem_filter.mp hentry').2
    simp only [decide_eq_true_eq] at hout hin
    exact hout (he ▸ hin)

/-- What of a directory has one of the names. -/
def among (directory : Directory) (names : List Bytes) : Directory where
  entries := directory.entries.filter (·.name ∈ names)
  nodup := (List.Sublist.map _ List.filter_sublist).nodup directory.nodup

/-- No file is a client's. -/
def Bare (directory : Directory) : Prop :=
  ∀ entry ∈ directory.entries, hasSuffix entry.name (ascii ".json") = false

end Directory

/-- An unread inotify event: about an entry of the directory, or about the directory itself. -/
inductive Notice
  | entry (name : Bytes)
  | self
  deriving DecidableEq

/-- The test of `handleInotify`. -/
def Notice.matters : Notice → Bool
  | entry name => hasSuffix name (ascii ".json")
  | self => true

/-- Where the daemon is, between its system calls. -/
inductive Phase
  /-- `start`, before and after it has made the directories. -/
  | starting
  | made
  /-- `reloadClients`, before `opendir`. -/
  | opening
  /-- The directory was not there; and after it has been made again. -/
  | vanished
  | remade
  /-- Between `opendir` and `closedir`, with the names touched meanwhile. -/
  | reading (inode : ℕ) (touched : List Bytes)
  /-- In the loop. -/
  | looping
  deriving DecidableEq

/-- The directory the daemon has open. -/
def Phase.opened : Phase → Option ℕ
  | reading inode _ => some inode
  | _ => none

/-- A reader of the directory may see the name in either state. -/
def Phase.touch (inode : ℕ) (name : Bytes) : Phase → Phase
  | reading opened touched => reading opened (if opened = inode then name :: touched else touched)
  | phase => phase

/-- The daemon and the directories it has to do with. -/
structure Site where
  monitor : Monitor
  phase : Phase
  directories : ℕ → Directory
  /-- The directory at `clientsDirPath()`. -/
  path : Option ℕ
  nextInode : ℕ
  watched : List ℕ
  unread : List Notice

inductive Action
  -- Operations of others.
  | put (inode : ℕ) (entry : DirEntry)
  | delete (inode : ℕ) (name : Bytes)
  | removeDirectory
  | moveDirectory
  /-- The last user leaves a directory that has been removed, from the path or from where it was
  moved to. -/
  | release (inode : ℕ)
  | createDirectory (directory : Directory)
  -- Steps of the daemon.
  | makeDirectories
  | addWatch (now : ℕ)
  | openDirectory (fails : Bool) (now : ℕ)
  | closeDirectory (found : Directory) (now : ℕ)
  | handleInotify
  | reload
  | handle (event : Event)

namespace Site
variable (numeric : Bytes → Option Endpoint)

/-- The directory at the path; nothing if there is none. -/
def current (s : Site) : Directory := (s.path.map s.directories).getD .empty

def notify (s : Site) (inode : ℕ) (notice : Notice) : Site :=
  if inode ∈ s.watched then { s with unread := s.unread ++ [notice] } else s

/-- An entry of a directory changes. -/
def touch (s : Site) (inode : ℕ) (name : Bytes) (directory : Directory) : Site :=
  { s with
    phase := s.phase.touch inode name
    directories := Function.update s.directories inode directory }.notify inode (.entry name)

/-- `rmdir`, which fails as long as there is an entry. It raises no event of the directory's own. -/
def remove (s : Site) : Site :=
  match s.path with
  | none => s
  | some inode => if (s.directories inode).entries.isEmpty then { s with path := none } else s

/-- `IN_MOVE_SELF` comes at once, and the watch stays. -/
def move (s : Site) : Site :=
  match s.path with
  | none => s
  | some inode => { s.notify inode .self with path := none }

/-- `IN_DELETE_SELF`; the watch goes with the directory. Whoever has it open keeps it, the daemon too. -/
def release (s : Site) (inode : ℕ) : Site :=
  if s.path = some inode ∨ s.phase.opened = some inode then s
  else
    let s := s.notify inode .self
    { s with watched := s.watched.filter (· ≠ inode) }

/-- A new directory appears at the path, unless there is one. -/
def create (s : Site) (directory : Directory) : Site :=
  match s.path with
  | some _ => s
  | none =>
    { s with
      directories := Function.update s.directories s.nextInode directory
      path := some s.nextInode
      nextInode := s.nextInode + 1 }

/-- `inotify_add_watch`, which fails if there is nothing at the path. -/
def watch (s : Site) : Site :=
  match s.path with
  | none => s
  | some inode => { s with watched := inode :: s.watched }

/-- The rest of `reloadClients`. -/
def finish (s : Site) (read : Directory) (now : ℕ) : Site :=
  { s with phase := .looping, monitor := s.monitor.reloadClients numeric now read }

def makeDirectories (s : Site) : Site :=
  match s.phase with
  | .starting => { s.create .empty with phase := .made }
  | .vanished => { s.create .empty with phase := .remade }
  | _ => s

def addWatch (s : Site) (now : ℕ) : Site :=
  match s.phase with
  | .made => { s.watch with phase := .opening }
  | .remade => s.watch.finish numeric .empty now
  | _ => s

def openDirectory (s : Site) (fails : Bool) (now : ℕ) : Site :=
  match s.phase with
  | .opening =>
    -- Anything but `ENOENT` only warns.
    if fails then s.finish numeric .empty now
    else match s.path with
      | none => { s with phase := .vanished }
      | some inode => { s with phase := .reading inode [] }
  | _ => s

def closeDirectory (s : Site) (found : Directory) (now : ℕ) : Site :=
  match s.phase with
  | .reading inode touched =>
    -- The names are those of the directory that was opened; the files are opened by path.
    let names := (s.directories inode).entries.map DirEntry.name ++ touched
    s.finish numeric
      (if s.path = some inode then (s.directories inode).observed touched found else found.among names) now
  | _ => s

def handleInotify (s : Site) : Site :=
  match s.phase with
  | .looping =>
    { s with
      unread := []
      monitor := { s.monitor with configDirty := s.monitor.configDirty || s.unread.any Notice.matters } }
  | _ => s

def reload (s : Site) : Site :=
  match s.phase with
  | .looping => if s.monitor.configDirty then { s with phase := .opening } else s
  | _ => s

/-- Anything else the loop does. -/
def handle (s : Site) (event : Event) : Site :=
  match s.phase, event.handler with
  | .looping, .reloadClients _ => s
  | .looping, _ => { s with monitor := s.monitor.step numeric event }
  | _, _ => s

/-- What can be done is done; anything else is left. -/
def step (s : Site) : Action → Site
  | .put inode entry => s.touch inode entry.name ((s.directories inode).put entry)
  | .delete inode name => s.touch inode name ((s.directories inode).delete name)
  | .removeDirectory => s.remove
  | .moveDirectory => s.move
  | .release inode => s.release inode
  | .createDirectory directory => s.create directory
  | .makeDirectories => s.makeDirectories
  | .addWatch now => s.addWatch numeric now
  | .openDirectory fails now => s.openDirectory numeric fails now
  | .closeDirectory found now => s.closeDirectory numeric found now
  | .handleInotify => s.handleInotify
  | .reload => s.reload
  | .handle event => s.handle numeric event

/-- An unread event will have the daemon reload. -/
def Alarmed (s : Site) : Prop := s.unread.any Notice.matters = true

end Site

/-- The destination as its entry has it. -/
def Destination.configured (d : Destination) : Destination :=
  { d with
    prober := none
    state := .unknown
    candidate := .unknown
    candidateStreak := 0
    haveRtt := false
    rttUs := 0
    sent := 0
    received := 0
    lastReplyRealUs := 0
    lastChangeRealUs := 0
    samples := [] }

/-- The client as its file has it. -/
def Client.configured (client : Client) : Client :=
  { client with destinations := client.destinations.map Destination.configured }

/-- The clients are those of the directory. -/
def Monitor.Holds (m : Monitor) (directory : Directory) : Prop :=
  m.clients.map Client.configured = loadedClients m.options directory

instance (m : Monitor) (directory : Directory) : Decidable (m.Holds directory) :=
  inferInstanceAs (Decidable (_ = _))

namespace Site

/-- The daemon watches the directory at the path, if there is one. -/
def Watches (s : Site) : Prop := ∀ inode ∈ s.path, inode ∈ s.watched

/-- The daemon has yet to look at the path, or will again. -/
def Warned (s : Site) : Prop :=
  (s.phase = .looping → s.monitor.configDirty = true ∨ s.Alarmed) ∧ (s.phase.opened ≠ none → s.Alarmed)

/-- Where a change may be lost, an unread event makes up for it, or: the directory the daemon opens is
one it watches, the one it cannot open has no clients either, and the one it has made again has got
none before it is watched. Who else makes the directory again does so after the daemon has been told
that the old one is gone. -/
def Careful (s : Site) : Action → Prop
  | .openDirectory fails _ => s.phase = .opening → s.Alarmed ∨
      s.Watches ∧ (fails = true → loadedClients s.monitor.options s.current = [])
  | .addWatch _ => s.phase = .remade → s.Alarmed ∨ loadedClients s.monitor.options s.current = []
  | .createDirectory _ => s.path = none → s.Warned
  | _ => True

instance (s : Site) : Decidable s.Alarmed := inferInstanceAs (Decidable (_ = _))
instance (s : Site) : Decidable s.Watches := inferInstanceAs (Decidable (∀ inode ∈ s.path, inode ∈ s.watched))
instance (s : Site) : Decidable s.Warned := inferInstanceAs (Decidable ((_ → _ ∨ _) ∧ (_ → _)))

instance (s : Site) (action : Action) : Decidable (s.Careful action) :=
  match action with
  | .openDirectory _ _ => inferInstanceAs (Decidable (_ → _ ∨ _ ∧ (_ → _)))
  | .addWatch _ => inferInstanceAs (Decidable (_ → _ ∨ _))
  | .createDirectory _ => inferInstanceAs (Decidable (_ → _))
  | .put .. | .delete .. | .removeDirectory | .moveDirectory | .release _ | .makeDirectories | .closeDirectory ..
  | .handleInotify | .reload | .handle _ => inferInstanceAs (Decidable True)

/-- What holds between the steps. A directory that is removed while it is being read had no files left. -/
def Inv (s : Site) : Prop :=
  match s.phase with
  | .looping => s.monitor.configDirty = true ∨ s.Alarmed ∨ s.Watches ∧ s.monitor.Holds s.current
  | .reading inode touched => s.Alarmed ∨ inode ∈ s.watched ∧
      (∀ name ∈ touched, hasSuffix name (ascii ".json") = false) ∧
      (s.path = some inode ∨ s.path = none ∧ (s.directories inode).Bare)
  | _ => True

end Site

/-! ## What is loaded -/

theorem Destination.configured_sample (d : Destination) (received : Bool) (rttUs realNow : ℕ) :
    (d.sample received rttUs realNow).configured = d.configured := by
  have hjudge : ∀ (d : Destination) (verdict : HealthState), (d.judge verdict).configured = d.configured := by
    intro d verdict
    unfold judge
    dsimp only
    split_ifs <;> rfl
  have hcount : (d.count received rttUs realNow).configured = d.configured := rfl
  have hnext := (hjudge (d.count received rttUs realNow) (classify received rttUs d.thresholdUs)).trans hcount
  unfold sample
  dsimp only
  split_ifs
  · exact hnext
  · exact hnext

theorem Client.configured_modify (client : Client) (i : ℕ) (received : Bool) (rttUs realNow : ℕ) :
    { client with destinations := client.destinations.modify i (·.sample received rttUs realNow) }.configured =
      client.configured := by
  unfold configured
  rw [map_modify_eq fun d => d.configured_sample received rttUs realNow]

/-- Nothing has happened yet to what comes from a file. -/
theorem configured_loadEntry {options : Options} {entry : DirEntry} {client : Client}
    (h : loadEntry options entry = some client) : client.configured = client := by
  refine map_destinations_loadEntry (fun members i d hd => ?_) h
  unfold loadDestination at hd
  dsimp only at hd
  split at hd
  · cases hd
  · obtain rfl := Option.some.inj hd
    rfl

theorem configured_carryOver (client : Client) (previous : List Client) :
    (client.carryOver previous).configured = client.configured := by
  unfold Client.carryOver
  split
  · rfl
  · simp only [Client.configured, List.map_map]
    refine congrArg (fun destinations => { client with destinations := destinations })
      (List.map_congr_left fun d _ => ?_)
    rw [Function.comp_apply]
    split <;> rfl

namespace Monitor

theorem holds_reloadClients (numeric : Bytes → Option Endpoint) (now : ℕ) (directory : Directory) (m : Monitor) :
    (m.reloadClients numeric now directory).Holds directory := by
  have hclient : ∀ (st : Rebuild) (slot : Client × ℕ),
      (st.subscribeClient numeric now m.probers slot).2.configured = slot.1.configured := by
    intro st slot
    have hturn : ∀ (st : Rebuild) (d : Destination × ℕ),
        (st.subscribe numeric now m.probers slot.1 slot.2 d).2.configured = d.1.configured := by
      intro st d
      unfold Rebuild.subscribe
      dsimp only
      split_ifs <;> rfl
    have hloop := map_mapAccum (fun d : Destination × ℕ => d.1.configured) Destination.configured hturn st
      slot.1.destinations.zipIdx
    rw [map_fst_zipIdx Destination.configured] at hloop
    exact congrArg (fun destinations => { slot.1 with destinations := destinations }) hloop
  have hloaded : ((loadedClients m.options directory).map (·.carryOver m.clients)).zipIdx.map
      (fun slot : Client × ℕ => slot.1.configured) = loadedClients m.options directory := by
    rw [map_fst_zipIdx, List.map_map]
    refine Eq.trans (List.map_congr_left fun client hclient => ?_) (List.map_id' _)
    obtain ⟨entry, hentry⟩ := exists_of_mem_loadedClients hclient
    rw [Function.comp_apply, configured_carryOver, configured_loadEntry hentry]
  exact (map_mapAccum _ Client.configured hclient _ _).trans hloaded

theorem holds_congr {m : Monitor} {directory directory' : Directory} (h : m.Holds directory)
    (hsame : loadedClients m.options directory' = loadedClients m.options directory) : m.Holds directory' :=
  h.trans hsame.symm

/-- Other handlers leave alone what is loaded. -/
theorem holds_step (numeric : Bytes → Option Endpoint) {m : Monitor} {event : Event}
    (hquiet : ∀ directory, event.handler ≠ .reloadClients directory) (directory : Directory) :
    (m.step numeric event).Holds directory ↔ m.Holds directory := by
  unfold Holds
  rw [map_clients_step Client.configured_modify numeric m event hquiet, options_step]

/-- They do not forget that it has changed either. -/
theorem configDirty_step (numeric : Bytes → Option Endpoint) {m : Monitor} {event : Event}
    (hquiet : ∀ directory, event.handler ≠ .reloadClients directory) (h : m.configDirty = true) :
    (m.step numeric event).configDirty = true := by
  obtain ⟨now, handler⟩ := event
  cases handler with
  | reloadClients directory => exact absurd rfl (hquiet directory)
  | handleReplies io replies =>
    have hbare : (m.handleReplies now io replies).bare.configDirty = m.bare.configDirty := by rw [bare_handleReplies]
    exact hbare.trans h
  | handleResolutions results =>
    have hbare : (m.handleResolutions now results).bare.configDirty = m.bare.configDirty := by
      rw [bare_handleResolutions]
    exact hbare.trans h
  | dropExpiredClients after realNow mtime =>
    unfold step dropExpiredClients
    dsimp only
    split_ifs <;> simp [h]
  | noteIdle after =>
    unfold step noteIdle
    dsimp only
    split_ifs <;> exact h
  | publish force =>
    unfold step publish
    dsimp only
    split_ifs <;> exact h
  | flag configChanged shutdown =>
    change (m.configDirty || configChanged) = true
    rw [h, Bool.true_or]
  | tick | enter => exact h

end Monitor

/-! ## What a change of the directory does to it -/

/-- Entries that are not client files do not matter. -/
theorem loadEntry_eq_none {options : Options} {entry : DirEntry} (h : hasSuffix entry.name (ascii ".json") = false) :
    loadEntry options entry = none := by
  unfold loadEntry
  rw [if_pos]
  simp [h]

theorem loadEntries_filter (options : Options) {entries : List DirEntry} {p : DirEntry → Bool}
    (hp : ∀ entry ∈ entries, p entry = false → hasSuffix entry.name (ascii ".json") = false) :
    (entries.filter p).filterMap (loadEntry options) = entries.filterMap (loadEntry options) := by
  rw [List.filterMap_filter]
  refine List.filterMap_congr fun entry hentry => ?_
  cases hkeep : p entry with
  | true => simp
  | false => simp [loadEntry_eq_none (hp entry hentry hkeep)]

namespace Directory
variable (options : Options) (directory : Directory)

theorem loaded_put {entry : DirEntry} (h : hasSuffix entry.name (ascii ".json") = false) :
    loadedClients options (directory.put entry) = loadedClients options directory := by
  unfold loadedClients put
  rw [List.filterMap_cons, loadEntry_eq_none h]
  dsimp only
  rw [loadEntries_filter]
  intro other _ hother
  have hname : other.name = entry.name := by simpa using hother
  rwa [hname]

theorem loaded_delete {name : Bytes} (h : hasSuffix name (ascii ".json") = false) :
    loadedClients options (directory.delete name) = loadedClients options directory := by
  unfold loadedClients delete
  dsimp only
  rw [loadEntries_filter]
  intro other _ hother
  have hname : other.name = name := by simpa using hother
  rwa [hname]

theorem loaded_observed {touched : List Bytes} (found : Directory)
    (h : ∀ name ∈ touched, hasSuffix name (ascii ".json") = false) :
    loadedClients options (directory.observed touched found) = loadedClients options directory := by
  have hfound : (found.entries.filter (·.name ∈ touched)).filterMap (loadEntry options) = [] := by
    refine List.filterMap_eq_nil_iff.mpr fun entry hentry => loadEntry_eq_none (h _ ?_)
    simpa using (List.mem_filter.mp hentry).2
  unfold loadedClients observed
  rw [List.filterMap_append, hfound, List.append_nil, loadEntries_filter]
  intro entry _ hentry
  exact h entry.name (by simpa using hentry)

theorem loaded_of_bare (h : directory.Bare) : loadedClients options directory = [] := by
  unfold loadedClients
  rw [List.filterMap_eq_nil_iff.mpr fun entry hentry => loadEntry_eq_none (h entry hentry)]
  rfl

variable {directory}

theorem Bare.put (h : directory.Bare) {entry : DirEntry} (hname : hasSuffix entry.name (ascii ".json") = false) :
    (directory.put entry).Bare := by
  intro other hother
  obtain rfl | hother := List.mem_cons.mp hother
  · exact hname
  · exact h other (List.mem_filter.mp hother).1

theorem Bare.delete (h : directory.Bare) (name : Bytes) : (directory.delete name).Bare :=
  fun other hother => h other (List.mem_filter.mp hother).1

theorem Bare.among (h : directory.Bare) {touched : List Bytes}
    (htouched : ∀ name ∈ touched, hasSuffix name (ascii ".json") = false) (found : Directory) :
    (found.among (directory.entries.map DirEntry.name ++ touched)).Bare := by
  intro entry hentry
  obtain hname | hname := List.mem_append.mp (of_decide_eq_true (List.mem_filter.mp hentry).2)
  · obtain ⟨other, hother, he⟩ := List.mem_map.mp hname
    exact he ▸ h other hother
  · exact htouched _ hname

end Directory

namespace Site
variable (s : Site)

/-! ## The invariant, step by step -/

theorem alarmed_notify {inode : ℕ} {notice : Notice}
    (h : s.Alarmed ∨ inode ∈ s.watched ∧ notice.matters = true) : (s.notify inode notice).Alarmed := by
  unfold notify Alarmed
  split_ifs with hwatched
  · rw [List.any_append, Bool.or_eq_true]
    exact h.imp_right fun hnotice => by simp [hnotice.2]
  · exact h.resolve_right fun hnotice => hwatched hnotice.1

theorem notify_fields (inode : ℕ) (notice : Notice) :
    (s.notify inode notice).monitor = s.monitor ∧ (s.notify inode notice).phase = s.phase ∧
      (s.notify inode notice).directories = s.directories ∧ (s.notify inode notice).path = s.path ∧
      (s.notify inode notice).watched = s.watched := by
  unfold notify
  split_ifs <;> exact ⟨rfl, rfl, rfl, rfl, rfl⟩

theorem touch_fields (inode : ℕ) (name : Bytes) (directory : Directory) :
    (s.touch inode name directory).monitor = s.monitor ∧
      (s.touch inode name directory).phase = s.phase.touch inode name ∧
      (s.touch inode name directory).directories = Function.update s.directories inode directory ∧
      (s.touch inode name directory).path = s.path ∧ (s.touch inode name directory).watched = s.watched :=
  notify_fields ..

variable {s}

theorem Inv.looping (h : s.Inv) (hphase : s.phase = .looping) :
    s.monitor.configDirty = true ∨ s.Alarmed ∨ s.Watches ∧ s.monitor.Holds s.current := by
  unfold Inv at h
  rwa [hphase] at h

theorem Inv.reading (h : s.Inv) {inode : ℕ} {touched : List Bytes} (hphase : s.phase = .reading inode touched) :
    s.Alarmed ∨ inode ∈ s.watched ∧ (∀ name ∈ touched, hasSuffix name (ascii ".json") = false) ∧
      (s.path = some inode ∨ s.path = none ∧ (s.directories inode).Bare) := by
  unfold Inv at h
  rwa [hphase] at h

theorem inv_looping (hphase : s.phase = .looping)
    (h : s.monitor.configDirty = true ∨ s.Alarmed ∨ s.Watches ∧ s.monitor.Holds s.current) : s.Inv := by
  unfold Inv
  rwa [hphase]

theorem inv_of_alarmed (h : s.Alarmed) : s.Inv := by
  unfold Inv
  split
  · exact Or.inr (Or.inl h)
  · exact Or.inl h
  · trivial

theorem current_of_path {inode : ℕ} (h : s.path = some inode) : s.current = s.directories inode := by
  unfold current
  rw [h]
  rfl

theorem watches_of_mem {inode : ℕ} (h : s.path = some inode) (hin : inode ∈ s.watched) : s.Watches := by
  intro found hfound
  obtain rfl := Option.some.inj (h.symm.trans hfound)
  exact hin

theorem watches_of_none (h : s.path = none) : s.Watches := fun _ hfound => nomatch h.symm.trans hfound

/-- A file that changes in the watched directory alarms the daemon; another one it does not load. -/
theorem Inv.touch (h : s.Inv) {inode : ℕ} {name : Bytes} {directory : Directory}
    (hsame : hasSuffix name (ascii ".json") = false →
      loadedClients s.monitor.options directory = loadedClients s.monitor.options (s.directories inode))
    (hbare : hasSuffix name (ascii ".json") = false → (s.directories inode).Bare → directory.Bare) :
    (s.touch inode name directory).Inv := by
  by_cases halarm : s.Alarmed ∨ inode ∈ s.watched ∧ hasSuffix name (ascii ".json") = true
  · exact inv_of_alarmed (alarmed_notify _ halarm)
  obtain ⟨hcalm, hquiet⟩ := not_or.mp halarm
  have hplain : inode ∈ s.watched → hasSuffix name (ascii ".json") = false :=
    fun hin => Bool.eq_false_iff.mpr fun hjson => hquiet ⟨hin, hjson⟩
  obtain ⟨hmonitor, hphase, hdirectories, hpath, hwatched⟩ := s.touch_fields inode name directory
  unfold Inv Watches
  rw [hphase, hmonitor, hpath, hwatched, hdirectories]
  cases hwhere : s.phase with
  | looping =>
    obtain hdirty | hrest := h.looping hwhere
    · exact Or.inl hdirty
    obtain ⟨hwatches, hholds⟩ := hrest.resolve_left hcalm
    refine Or.inr (Or.inr ⟨hwatches, Monitor.holds_congr hholds ?_⟩)
    unfold current
    rw [hpath, hdirectories]
    cases hfound : s.path with
    | none => rfl
    | some found =>
      change loadedClients _ (Function.update s.directories inode directory found) =
        loadedClients _ (s.directories found)
      rw [Function.update_apply]
      split_ifs with hsame'
      · subst hsame'
        exact hsame (hplain (hwatches _ hfound))
      · rfl
  | reading opened touched =>
    obtain ⟨hin, htouched, hwhere'⟩ := (h.reading hwhere).resolve_left hcalm
    refine Or.inr ⟨hin, fun other hother => ?_, hwhere'.imp_right fun hgone => ⟨hgone.1, ?_⟩⟩
    · split_ifs at hother with hsame'
      · obtain rfl | hother := List.mem_cons.mp hother
        · exact hplain (hsame' ▸ hin)
        · exact htouched other hother
      · exact htouched other hother
    · rw [Function.update_apply]
      split_ifs with hsame'
      · exact hbare (hplain (hsame' ▸ hin)) (hsame' ▸ hgone.2)
      · exact hgone.2
  | starting | made | opening | vanished | remade => trivial

/-- What is removed has no clients, and was read so if it was being read. -/
theorem Inv.remove (h : s.Inv) : s.remove.Inv := by
  unfold Site.remove
  split
  · exact h
  · next inode hpath =>
    split_ifs with hempty
    · have hnil : (s.directories inode).entries = [] := List.isEmpty_iff.mp hempty
      have hbare : (s.directories inode).Bare := fun entry hentry => absurd hentry (by simp [hnil])
      unfold Inv
      dsimp only
      cases hwhere : s.phase with
      | looping =>
        refine (h.looping hwhere).imp_right (Or.imp_right fun hrest => ⟨nofun, Monitor.holds_congr hrest.2 ?_⟩)
        rw [current_of_path hpath, Directory.loaded_of_bare _ _ hbare]
        rfl
      | reading opened touched =>
        refine (h.reading hwhere).imp_right fun hrest => ⟨hrest.1, hrest.2.1, Or.inr ⟨rfl, ?_⟩⟩
        obtain hsame | ⟨hnone, -⟩ := hrest.2.2
        · obtain rfl := Option.some.inj (hpath.symm.trans hsame)
          exact hbare
        · cases hpath.symm.trans hnone
      | starting | made | opening | vanished | remade => trivial
    · exact h

/-- A watched directory that is moved away alarms the daemon. -/
theorem Inv.move (h : s.Inv) : s.move.Inv := by
  unfold Site.move
  split
  · exact h
  · next inode hpath =>
    by_cases halarm : s.Alarmed ∨ inode ∈ s.watched
    · exact inv_of_alarmed (s.alarmed_notify (halarm.imp_right fun hin => ⟨hin, rfl⟩))
    obtain ⟨hcalm, hunwatched⟩ := not_or.mp halarm
    obtain ⟨hmonitor, hphase, -, -, -⟩ := s.notify_fields inode .self
    unfold Inv
    dsimp only
    rw [hphase, hmonitor]
    cases hwhere : s.phase with
    | looping =>
      obtain hdirty | hrest := h.looping hwhere
      · exact Or.inl hdirty
      obtain ⟨hwatches, -⟩ := hrest.resolve_left hcalm
      exact absurd (hwatches inode hpath) hunwatched
    | reading opened touched =>
      obtain ⟨hin, -, hopened | ⟨hnone, -⟩⟩ := (h.reading hwhere).resolve_left hcalm
      · obtain rfl := Option.some.inj (hpath.symm.trans hopened)
        exact absurd hin hunwatched
      · cases hpath.symm.trans hnone
    | starting | made | opening | vanished | remade => trivial

/-- The watch on the directory at the path, or on the one being read, does not go. -/
theorem Inv.release (h : s.Inv) (inode : ℕ) : (s.release inode).Inv := by
  unfold Site.release
  split_ifs with hused
  · exact h
  obtain ⟨hpath, hopened⟩ := not_or.mp hused
  by_cases halarmed : s.Alarmed
  · exact inv_of_alarmed (s.alarmed_notify (Or.inl halarmed))
  obtain ⟨hmonitor, hphase, hdirectories, hpath', hwatched⟩ := s.notify_fields inode .self
  unfold Inv Watches current
  dsimp only
  rw [hphase, hmonitor, hdirectories, hpath', hwatched]
  cases hwhere : s.phase with
  | looping =>
    obtain hdirty | hrest := h.looping hwhere
    · exact Or.inl hdirty
    obtain ⟨hwatches, hholds⟩ := hrest.resolve_left halarmed
    refine Or.inr (Or.inr ⟨fun found hfound => List.mem_filter.mpr ⟨hwatches found hfound, ?_⟩, hholds⟩)
    exact decide_eq_true fun he => hpath (he ▸ hfound)
  | reading opened touched =>
    obtain ⟨hin, hrest⟩ := (h.reading hwhere).resolve_left halarmed
    refine Or.inr ⟨List.mem_filter.mpr ⟨hin, decide_eq_true fun he => hopened ?_⟩, hrest⟩
    rw [hwhere, he]
    rfl
  | starting | made | opening | vanished | remade => trivial

/-- Whoever makes the directory where there is none: the daemon looks at the path after that. -/
theorem Inv.create (h : s.Inv) (directory : Directory) (hwarned : s.path = none → s.Warned) :
    (s.create directory).Inv := by
  unfold Site.create
  split
  · exact h
  · next hpath =>
    obtain ⟨hlooping, hreading⟩ := hwarned hpath
    unfold Inv
    dsimp only
    cases hwhere : s.phase with
    | looping => exact (hlooping hwhere).imp_right Or.inl
    | reading opened touched => exact Or.inl (hreading (by rw [hwhere]; exact Option.some_ne_none opened))
    | starting | made | opening | vanished | remade => trivial

/-- A reload ends well if it has read what is there and the directory is watched, or if another
one is to follow. -/
theorem inv_finish (numeric : Bytes → Option Endpoint) (now : ℕ) {read : Directory}
    (h : s.Alarmed ∨ s.Watches ∧ loadedClients s.monitor.options s.current = loadedClients s.monitor.options read) :
    (s.finish numeric read now).Inv := by
  obtain halarmed | ⟨hwatches, hread⟩ := h
  · exact inv_of_alarmed halarmed
  · exact Or.inr (Or.inr ⟨hwatches, (s.monitor.holds_reloadClients numeric now read).trans hread.symm⟩)

theorem Inv.addWatch (numeric : Bytes → Option Endpoint) (h : s.Inv) (now : ℕ)
    (hcareful : s.phase = .remade → s.Alarmed ∨ loadedClients s.monitor.options s.current = []) :
    (s.addWatch numeric now).Inv := by
  unfold Site.addWatch
  split
  · trivial
  · next hphase =>
    refine inv_finish numeric now ?_
    unfold Site.watch
    split
    · next hpath => exact (hcareful hphase).imp_right fun hempty => ⟨watches_of_none hpath, hempty⟩
    · next inode hpath =>
      exact (hcareful hphase).imp_right fun hempty => ⟨watches_of_mem hpath List.mem_cons_self, hempty⟩
  · exact h

theorem Inv.openDirectory (numeric : Bytes → Option Endpoint) (h : s.Inv) (fails : Bool) (now : ℕ)
    (hcareful : s.phase = .opening → s.Alarmed ∨
      s.Watches ∧ (fails = true → loadedClients s.monitor.options s.current = [])) :
    (s.openDirectory numeric fails now).Inv := by
  unfold Site.openDirectory
  split
  · next hphase =>
    have hcareful := hcareful hphase
    split_ifs with hfails
    · exact inv_finish numeric now (hcareful.imp_right fun hcare => ⟨hcare.1, hcare.2 hfails⟩)
    · split
      · trivial
      · next inode hpath => exact hcareful.imp_right fun hcare => ⟨hcare.1 inode hpath, by simp, Or.inl hpath⟩
  · exact h

theorem Inv.closeDirectory (numeric : Bytes → Option Endpoint) (h : s.Inv) (found : Directory) (now : ℕ) :
    (s.closeDirectory numeric found now).Inv := by
  unfold Site.closeDirectory
  split
  · next inode touched hphase =>
    refine inv_finish numeric now ((h.reading hphase).imp_right fun hread => ?_)
    obtain ⟨hin, htouched, hpath | ⟨hnone, hbare⟩⟩ := hread
    · refine ⟨watches_of_mem hpath hin, ?_⟩
      rw [if_pos hpath, current_of_path hpath, Directory.loaded_observed _ _ found htouched]
    · refine ⟨watches_of_none hnone, ?_⟩
      rw [if_neg (by simp [hnone]), Directory.loaded_of_bare _ _ (hbare.among htouched found)]
      unfold Site.current
      rw [hnone]
      rfl
  · exact h

/-- The alarm is passed on. -/
theorem Inv.handleInotify (h : s.Inv) : s.handleInotify.Inv := by
  unfold Site.handleInotify
  split
  · next hphase =>
    refine inv_looping hphase ?_
    obtain hdirty | halarmed | hcalm := h.looping hphase
    · exact Or.inl (Bool.or_eq_true_iff.mpr (Or.inl hdirty))
    · exact Or.inl (Bool.or_eq_true_iff.mpr (Or.inr halarmed))
    · exact Or.inr (Or.inr hcalm)
  · exact h

theorem Inv.handle (numeric : Bytes → Option Endpoint) (h : s.Inv) (event : Event) :
    (s.handle numeric event).Inv := by
  unfold Site.handle
  split
  · exact h
  · next hphase hquiet =>
    refine inv_looping hphase ?_
    obtain hdirty | halarmed | ⟨hwatches, hholds⟩ := h.looping hphase
    · exact Or.inl (Monitor.configDirty_step numeric hquiet hdirty)
    · exact Or.inr (Or.inl halarmed)
    · exact Or.inr (Or.inr ⟨hwatches, (Monitor.holds_step numeric hquiet _).mpr hholds⟩)
  · exact h

/-- A step that takes the care it should. -/
theorem Inv.step (numeric : Bytes → Option Endpoint) (h : s.Inv) {action : Action} (hcareful : s.Careful action) :
    (s.step numeric action).Inv := by
  cases action with
  | put inode entry =>
    exact h.touch (fun hname => Directory.loaded_put _ _ hname) fun hname hbare => hbare.put hname
  | delete inode name => exact h.touch (fun hname => Directory.loaded_delete _ _ hname) fun _ hbare => hbare.delete name
  | removeDirectory => exact h.remove
  | moveDirectory => exact h.move
  | release inode => exact h.release inode
  | createDirectory directory => exact h.create directory hcareful
  | makeDirectories =>
    change s.makeDirectories.Inv
    unfold Site.makeDirectories
    split
    · trivial
    · trivial
    · exact h
  | addWatch now => exact h.addWatch numeric now hcareful
  | openDirectory fails now => exact h.openDirectory numeric fails now hcareful
  | closeDirectory found now => exact h.closeDirectory numeric found now
  | handleInotify => exact h.handleInotify
  | reload =>
    change s.reload.Inv
    unfold Site.reload
    split
    · split_ifs
      · trivial
      · exact h
    · exact h
  | handle event => exact h.handle numeric event

end Site

/-- The daemon before `start`, and a directory or none at the path. -/
def Site.initial (monitor : Monitor) (home : Option Directory) : Site where
  monitor := monitor
  phase := .starting
  directories := fun _ => home.getD .empty
  path := home.map fun _ => 0
  nextInode := 1
  watched := []
  unread := []

def site (numeric : Bytes → Option Endpoint) : Machine Site Action := ⟨Site.step numeric⟩

/-- Whatever others do and whenever: while the daemon takes care, it is about to sleep with nothing
to do only if its clients are those of the directory at the path. -/
theorem no_change_missed (numeric : Bytes → Option Endpoint) (monitor : Monitor) (home : Option Directory)
    (actions : List Action) (hcareful : (site numeric).Admits Site.Careful (.initial monitor home) actions) :
    let s := (site numeric).run (.initial monitor home) actions
    s.phase = .looping → s.monitor.configDirty = false → s.unread = [] → s.monitor.Holds s.current := by
  intro s hphase hclean hread
  have hinv : s.Inv := Machine.run_invariant Site.Inv Site.Careful (fun s _ h hok => h.step numeric hok)
    (show (Site.initial monitor home).Inv from trivial) hcareful
  obtain hdirty | halarmed | hcalm := hinv.looping hphase
  · exact absurd hdirty (by simp [hclean])
  · exact absurd halarmed (by simp [Site.Alarmed, hread])
  · exact hcalm.2

/-- A file that is rewritten while it is being read; then the directory goes, and the daemon makes it again. -/
theorem no_change_missed_run :
    let file : String → DirEntry := fun host => ⟨ascii "w.json", some (.object [(ascii "destinations",
      .array [.object [(ascii "address", .string (ascii host))]])])⟩
    let home : Directory := ⟨[file "a"], by simp⟩
    let reading : List Action := [.openDirectory false 0, .closeDirectory home 0]
    let rewritten : List Action := [.makeDirectories, .addWatch 0, .openDirectory false 0, .put 0 (file "b"),
      .closeDirectory home 0, .handleInotify, .reload] ++ reading
    let removed : List Action := [.delete 0 (ascii "w.json"), .handleInotify, .reload, .openDirectory false 0,
      .removeDirectory, .closeDirectory home 0, .release 0, .handleInotify, .reload, .openDirectory false 0,
      .makeDirectories, .addWatch 0, .put 1 (file "c"), .handleInotify, .reload] ++ reading
    let s := (site fun _ => none).run (.initial (.initial ⟨[], 1000000, 0, 0, 50, by decide, by decide⟩
      ⟨true, false, []⟩ ⟨true, false, []⟩ 5 0) (some home)) (rewritten ++ removed)
    s.monitor.clients.map (·.destinations.map Destination.address) = [[ascii "c"]] ∧ s.monitor.Holds s.current := by
  intro file home reading rewritten removed s
  refine ⟨by decide +kernel, ?_⟩
  exact no_change_missed (fun _ => none) (.initial ⟨[], 1000000, 0, 0, 50, by decide, by decide⟩
    ⟨true, false, []⟩ ⟨true, false, []⟩ 5 0) (some home) (rewritten ++ removed) (by decide +kernel)
    (by decide +kernel) (by decide +kernel) (by decide +kernel)

/-- The directory is replaced before the daemon opens it again; the directory cannot be opened just
once; a file is there before the directory made again is watched; the directory is replaced while another
process still uses the old one. -/
theorem change_missed :
    let file : String → DirEntry := fun host => ⟨ascii "w.json", some (.object [(ascii "destinations",
      .array [.object [(ascii "address", .string (ascii host))]])])⟩
    let home : Directory := ⟨[file "a"], by simp⟩
    let delete : Action := .delete 0 (ascii "w.json")
    let start : List Action := [.makeDirectories, .addWatch 0, .openDirectory false 0, .closeDirectory .empty 0]
    let replaced : List Action := [delete, .removeDirectory, .release 0, .createDirectory home, .handleInotify, .reload,
      .openDirectory false 0, .closeDirectory .empty 0, .put 1 (file "b")]
    let failed : List Action := [.put 0 (file "b"), .handleInotify, .reload, .openDirectory true 0]
    let early : List Action := [delete, .removeDirectory, .release 0, .handleInotify, .reload, .openDirectory false 0,
      .makeDirectories, .put 1 (file "b"), .addWatch 0]
    let used : List Action := [delete, .handleInotify, .reload, .openDirectory false 0, .closeDirectory .empty 0,
      .removeDirectory, .createDirectory home]
    ∀ actions ∈ [replaced, failed, early, used],
      let s := (site fun _ => none).run (.initial (.initial ⟨[], 1000000, 0, 0, 50, by decide, by decide⟩
        ⟨true, false, []⟩ ⟨true, false, []⟩ 5 0) (some home)) (start ++ actions)
      s.phase = .looping ∧ s.monitor.configDirty = false ∧ s.unread = [] ∧ ¬ s.monitor.Holds s.current := by
  decide +kernel

end NetworkHealth.Daemon
