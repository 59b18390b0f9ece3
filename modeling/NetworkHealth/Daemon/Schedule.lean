import NetworkHealth.Daemon.Published
import NetworkHealth.Daemon.Spinning

/-! What the loop does by the clock, over any number of trips: when it ends itself, when it publishes,
and when it looks for widgets that are gone. -/
namespace NetworkHealth.Daemon

/-- The fields that only the loop itself writes. -/
structure Clockwork where
  options : Options
  generation : ℕ
  lastPublishUs : ℕ
  lastReadablePublishUs : ℕ
  lastClientCheckUs : ℕ
  idleSinceUs : ℕ
  deriving DecidableEq, Repr

namespace Monitor
variable (numeric : Bytes → Option Endpoint) (m : Monitor) (w : Wakeup)

def clockwork : Clockwork :=
  ⟨m.options, m.generation, m.lastPublishUs, m.lastReadablePublishUs, m.lastClientCheckUs, m.idleSinceUs⟩

/-- A trip that goes on, up to its publication. -/
def afterTick : Monitor := ((m.dispatch w).attend numeric w).tick w.now w.io

def beforePublish : Monitor :=
  ((m.afterTick numeric w).dropExpiredClients w.after w.realNow w.mtime).noteIdle w.after

theorem clockwork_dispatch : (m.dispatch w).clockwork = m.clockwork :=
  (congrArg clockwork (bare_handleResolutions w.after { m with
    configDirty := m.configDirty || w.configChanged, running := m.running && !w.shutdown } w.resolutions) :)

theorem running_dispatch : (m.dispatch w).running = (m.running && !w.shutdown) :=
  congrArg Monitor.running (bare_handleResolutions ..)

theorem clockwork_afterTick : (m.afterTick numeric w).clockwork = m.clockwork := by
  have hreplied : ((m.dispatch w).handleReplies w.after w.io w.replies).clockwork = (m.dispatch w).clockwork :=
    (congrArg clockwork (bare_handleReplies w.io w.after (m.dispatch w) w.replies) :)
  change ((m.dispatch w).attend numeric w).clockwork = m.clockwork
  unfold attend
  dsimp only
  split_ifs
  · exact hreplied.trans (m.clockwork_dispatch w)
  · exact hreplied.trans (m.clockwork_dispatch w)

theorem running_afterTick : (m.afterTick numeric w).running = (m.running && !w.shutdown) := by
  have hreplied : ((m.dispatch w).handleReplies w.after w.io w.replies).running = (m.dispatch w).running :=
    (congrArg Monitor.running (bare_handleReplies w.io w.after (m.dispatch w) w.replies) :)
  change ((m.dispatch w).attend numeric w).running = _
  unfold attend
  dsimp only
  split_ifs
  · exact hreplied.trans (m.running_dispatch w)
  · exact hreplied.trans (m.running_dispatch w)

variable {m w}

theorem step_of_running (hrunning : m.running = true) (hshutdown : w.shutdown = false) :
    (loop numeric).step m w = (m.beforePublish numeric w).publish w.publishAt false := by
  have hwoken : (m.dispatch w).running = true := by rw [running_dispatch, hrunning, hshutdown]; rfl
  change (if m.running then m.iterate numeric w else m) = _
  rw [if_pos hrunning, iterate]
  rw [if_pos hwoken]
  rfl

theorem step_of_shutdown (hrunning : m.running = true) (hshutdown : w.shutdown = true) :
    ((loop numeric).step m w).running = false := by
  have hwoken : (m.dispatch w).running = false := by rw [running_dispatch, hrunning, hshutdown]; rfl
  change (if m.running then m.iterate numeric w else m).running = false
  rw [if_pos hrunning, iterate]
  rw [if_neg (by simp [hwoken]), hwoken]

theorem step_of_not_running (hrunning : m.running = false) : (loop numeric).step m w = m :=
  if_neg (by simp [hrunning])

end Monitor

section Idle
variable (numeric : Bytes → Option Endpoint) {m : Monitor} {w : Wakeup}

theorem Monitor.noteIdle_spec (m : Monitor) (after : ℕ) :
    (m.noteIdle after).probers = m.probers ∧
      (m.noteIdle after).idleSinceUs = (if m.probers = [] then m.idleSince after else 0) ∧
      (m.noteIdle after).running = (m.running && !decide (m.probers = [] ∧ m.options.idleExitUs ≠ 0 ∧
        m.options.idleExitUs ≤ after - m.idleSince after)) := by
  unfold noteIdle idleSince
  by_cases hprobers : m.probers = []
  · simp [hprobers]
  · simp [hprobers]

/-- What a trip that goes on does to the idle timer, and when it ends the loop. -/
theorem Monitor.idle_step (hrunning : m.running = true) (hshutdown : w.shutdown = false) :
    let m' := (loop numeric).step m w
    m'.options = m.options ∧ m'.idleSinceUs = (if m'.probers = [] then m.idleSince w.after else 0) ∧
      (m'.running = false ↔ m'.probers = [] ∧ m.options.idleExitUs ≠ 0 ∧
        m.options.idleExitUs ≤ w.after - m.idleSince w.after) := by
  have hclockwork := m.clockwork_afterTick numeric w
  simp only [clockwork, Clockwork.mk.injEq] at hclockwork
  obtain ⟨hoptions, -, -, -, -, hidle⟩ := hclockwork
  have hon := m.running_afterTick numeric w
  rw [hrunning, hshutdown] at hon
  rw [step_of_running numeric hrunning hshutdown]
  obtain ⟨hpublished, hpublishedOn, -, hpublishedIdle⟩ := rest_publish (m.beforePublish numeric w) w.publishAt false
  have hpublishedProbers := (quiet_publish w.publishAt (m.beforePublish numeric w) false).2
  unfold beforePublish at hpublished hpublishedOn hpublishedIdle hpublishedProbers ⊢
  generalize hchecked : (m.afterTick numeric w).dropExpiredClients w.after w.realNow w.mtime = checked at *
  obtain ⟨hcheckedOptions, hcheckedIdle⟩ := rest_dropExpiredClients (m.afterTick numeric w) w.after w.realNow w.mtime
  have hcheckedOn : checked.running = true := by
    rw [← hchecked]
    unfold dropExpiredClients
    split_ifs <;> exact hon
  rw [hchecked, hoptions] at hcheckedOptions
  rw [hchecked, hidle] at hcheckedIdle
  obtain ⟨hnotedProbers, hnotedIdle, hnotedOn⟩ := checked.noteIdle_spec w.after
  have hsince : checked.idleSince w.after = m.idleSince w.after := by rw [idleSince, hcheckedIdle, idleSince]
  dsimp only
  rw [hpublished, hpublishedOn, hpublishedIdle, hpublishedProbers, (rest_noteIdle checked w.after).1, hnotedProbers,
    hnotedIdle, hnotedOn, hcheckedOptions, hcheckedOn, hsince]
  exact ⟨rfl, rfl, by simp⟩

/-- Since when nothing has been probed: since the loop was entered, or since a trip. -/
inductive IdleSince (m : Monitor) (enteredAt : ℕ) : List Wakeup → ℕ → Prop
  | entered : IdleSince m enteredAt [] enteredAt
  | first {trips : List Wakeup} {w : Wakeup} (h : ((loop numeric).run m (trips ++ [w])).probers = []) :
      IdleSince m enteredAt (trips ++ [w]) w.after
  | still {trips : List Wakeup} {w : Wakeup} {since : ℕ} (h : IdleSince m enteredAt trips since)
      (hprobers : ((loop numeric).run m (trips ++ [w])).probers = []) : IdleSince m enteredAt (trips ++ [w]) since

variable {numeric} {enteredAt since : ℕ} {trips : List Wakeup}

theorem idleSince_append : IdleSince numeric m enteredAt (trips ++ [w]) since ↔
    ((loop numeric).run m (trips ++ [w])).probers = [] ∧ (since = w.after ∨ IdleSince numeric m enteredAt trips since) := by
  constructor
  · intro h
    generalize hall : trips ++ [w] = all at h
    cases h with
    | entered => simp at hall
    | first h =>
      obtain ⟨rfl, hw⟩ := List.append_inj' hall rfl
      cases hw
      exact ⟨h, Or.inl rfl⟩
    | still h hprobers =>
      obtain ⟨rfl, hw⟩ := List.append_inj' hall rfl
      cases hw
      exact ⟨hprobers, Or.inr h⟩
  · rintro ⟨hprobers, rfl | h⟩
    · exact .first hprobers
    · exact .still h hprobers

theorem IdleSince.mem (h : IdleSince numeric m enteredAt trips since) :
    since = enteredAt ∨ ∃ v ∈ trips, since = v.after := by
  induction h with
  | entered => exact Or.inl rfl
  | @first trips w h => exact Or.inr ⟨w, by simp, rfl⟩
  | still h hprobers ih =>
    refine ih.imp_right ?_
    rintro ⟨v, hv, hsince⟩
    exact ⟨v, List.mem_append_left _ hv, hsince⟩

/-- With the clock of the loop, and the trip after these. -/
theorem IdleSince.le (h : IdleSince numeric m enteredAt trips since)
    (hclock : Machine.Timed Wakeup.after enteredAt (trips ++ [w])) : enteredAt ≤ since ∧ since ≤ w.after := by
  unfold Machine.Timed at hclock
  have hfirst : ∀ v ∈ trips ++ [w], enteredAt ≤ v.after := fun v hv =>
    List.rel_of_pairwise_cons hclock (List.mem_map_of_mem hv)
  have hlast : ∀ v ∈ trips, v.after ≤ w.after := by
    intro v hv
    have htrips := (List.pairwise_cons.mp hclock).2
    rw [List.map_append, List.pairwise_append] at htrips
    exact htrips.2.2 _ (List.mem_map_of_mem hv) _ (by simp)
  obtain rfl | ⟨v, hv, rfl⟩ := h.mem
  · exact ⟨le_rfl, hfirst w (by simp)⟩
  · exact ⟨hfirst v (by simp [hv]), hlast v hv⟩

/-- The idle timer of a loop that is running: it was armed when the probers were gone, and it is the earliest
time since when they are. -/
structure IdleTimer (numeric : Bytes → Option Endpoint) (m : Monitor) (enteredAt : ℕ) (trips : List Wakeup) : Prop where
  options : ((loop numeric).run m trips).options = m.options
  armed : ((loop numeric).run m trips).idleSinceUs ≠ 0 →
    IdleSince numeric m enteredAt trips ((loop numeric).run m trips).idleSinceUs
  earliest : ∀ since, IdleSince numeric m enteredAt trips since →
    ((loop numeric).run m trips).idleSinceUs ≠ 0 ∧ ((loop numeric).run m trips).idleSinceUs ≤ since

/-- The time from which the next trip counts, if it finds nothing to probe. -/
theorem IdleTimer.idleSince (h : IdleTimer numeric m enteredAt trips)
    (hclock : Machine.Timed Wakeup.after enteredAt (trips ++ [w])) :
    (((loop numeric).run m trips).idleSince w.after = w.after ∨
      IdleSince numeric m enteredAt trips (((loop numeric).run m trips).idleSince w.after)) ∧
    ((loop numeric).run m trips).idleSince w.after ≤ w.after ∧
    ∀ since, IdleSince numeric m enteredAt trips since → ((loop numeric).run m trips).idleSince w.after ≤ since := by
  unfold Monitor.idleSince
  split_ifs with hzero
  · exact ⟨Or.inl rfl, le_rfl, fun since hsince => absurd hzero (h.earliest since hsince).1⟩
  · have harmed := h.armed hzero
    exact ⟨Or.inr harmed, (harmed.le hclock).2, fun since hsince => (h.earliest since hsince).2⟩

/-- A trip ends the loop: a signal, or the probers have been gone for as long as the option says. -/
def Ends (numeric : Bytes → Option Endpoint) (m : Monitor) (enteredAt : ℕ) (trips : List Wakeup) (w : Wakeup) : Prop :=
  w.shutdown = true ∨ m.options.idleExitUs ≠ 0 ∧
    ∃ since, IdleSince numeric m enteredAt (trips ++ [w]) since ∧ m.options.idleExitUs ≤ w.after - since

theorem IdleTimer.step (h : IdleTimer numeric m enteredAt trips) (hentered : 0 < enteredAt)
    (hclock : Machine.Timed Wakeup.after enteredAt (trips ++ [w]))
    (hrunning : ((loop numeric).run m trips).running = true) :
    (((loop numeric).run m (trips ++ [w])).running = false ↔ Ends numeric m enteredAt trips w) ∧
      (((loop numeric).run m (trips ++ [w])).running = true → IdleTimer numeric m enteredAt (trips ++ [w])) := by
  obtain ⟨hfrom, hle, hearliest⟩ := h.idleSince hclock
  have hrun : (loop numeric).run m (trips ++ [w]) = (loop numeric).step ((loop numeric).run m trips) w := by
    rw [Machine.run_append, Machine.run_cons, Machine.run_nil]
  cases hshutdown : w.shutdown with
  | true =>
    have hstop : ((loop numeric).run m (trips ++ [w])).running = false := by
      rw [hrun]
      exact Monitor.step_of_shutdown numeric hrunning hshutdown
    exact ⟨iff_of_true hstop (Or.inl hshutdown), fun hon => Bool.noConfusion (hstop.symm.trans hon)⟩
  | false =>
    obtain ⟨hoptions, hidle, hends⟩ := Monitor.idle_step numeric hrunning hshutdown
    rw [← hrun] at hoptions hidle hends
    rw [h.options] at hoptions hends
    refine ⟨?_, fun hon => ⟨hoptions, fun harmed => ?_, fun since hsince => ?_⟩⟩
    · rw [hends, Ends, hshutdown]
      constructor
      · rintro ⟨hprobers, hexit, hlong⟩
        exact Or.inr ⟨hexit, _, idleSince_append.mpr ⟨hprobers, hfrom⟩, hlong⟩
      · rintro (hfalse | ⟨hexit, since, hsince, hlong⟩)
        · cases hfalse
        obtain ⟨hprobers, rfl | hearlier⟩ := idleSince_append.mp hsince
        · omega
        · have hbefore := hearliest since hearlier
          exact ⟨hprobers, hexit, by omega⟩
    · rw [hidle] at harmed ⊢
      by_cases hprobers : ((loop numeric).run m (trips ++ [w])).probers = []
      · rw [if_pos hprobers]
        exact idleSince_append.mpr ⟨hprobers, hfrom⟩
      · exact absurd (if_neg hprobers) harmed
    · obtain ⟨hprobers, hearlier⟩ := idleSince_append.mp hsince
      rw [hidle, if_pos hprobers]
      have hpos : ∀ t, IdleSince numeric m enteredAt trips t → t ≠ 0 := by
        intro t ht
        have hbound := (ht.le hclock).1
        omega
      have hafter : w.after ≠ 0 := by
        have hbound : enteredAt ≤ w.after := List.rel_of_pairwise_cons hclock (by simp)
        omega
      refine ⟨?_, ?_⟩
      · rcases hfrom with hfrom | hfrom
        · rw [hfrom]
          exact hafter
        · exact hpos _ hfrom
      · rcases hearlier with rfl | hearlier
        · exact hle
        · exact hearliest since hearlier

theorem idleTimer_entered (hidle : m.idleSinceUs = enteredAt) (hentered : 0 < enteredAt) :
    IdleTimer numeric m enteredAt [] where
  options := rfl
  armed _ := by
    rw [Machine.run_nil, hidle]
    exact .entered
  earliest since hsince := by
    generalize hnil : ([] : List Wakeup) = trips at hsince
    cases hsince with
    | entered =>
      rw [Machine.run_nil, hidle]
      exact ⟨hentered.ne', le_rfl⟩
    | first h => simp at hnil
    | still h hprobers => simp at hnil

theorem prefix_append_singleton {α : Type*} {xs ys : List α} {y : α} :
    xs <+: ys ++ [y] ↔ xs <+: ys ∨ xs = ys ++ [y] := by
  constructor
  · intro h
    rcases List.prefix_concat_iff.mp h with h | h
    · exact Or.inr h
    · exact Or.inl h
  · rintro (h | rfl)
    · exact h.trans (List.prefix_append ys [y])
    · exact List.prefix_rfl

theorem idleTimer_run (hrunning : m.running = true) (hidle : m.idleSinceUs = enteredAt) (hentered : 0 < enteredAt)
    (hclock : Machine.Timed Wakeup.after enteredAt trips) :
    (((loop numeric).run m trips).running = true → IdleTimer numeric m enteredAt trips) ∧
      (((loop numeric).run m trips).running = false ↔
        ∃ before w, before ++ [w] <+: trips ∧ Ends numeric m enteredAt before w) := by
  induction trips using List.reverseRecOn with
  | nil =>
    refine ⟨fun _ => idleTimer_entered hidle hentered, iff_of_false (by simp [hrunning]) ?_⟩
    rintro ⟨before, w, hprefix, -⟩
    simpa using List.prefix_nil.mp hprefix
  | append_singleton trips w ih =>
    have hbefore : Machine.Timed Wakeup.after enteredAt trips := by
      unfold Machine.Timed at hclock ⊢
      rw [List.map_append, ← List.cons_append] at hclock
      exact (List.pairwise_append.mp hclock).1
    obtain ⟨htimer, hends⟩ := ih hbefore
    have hrun : (loop numeric).run m (trips ++ [w]) = (loop numeric).step ((loop numeric).run m trips) w := by
      rw [Machine.run_append, Machine.run_cons, Machine.run_nil]
    cases hon : ((loop numeric).run m trips).running with
    | false =>
      have hstill : ((loop numeric).run m (trips ++ [w])).running = false := by
        rw [hrun, Monitor.step_of_not_running numeric hon]
        exact hon
      refine ⟨fun h => Bool.noConfusion (hstill.symm.trans h), iff_of_true hstill ?_⟩
      obtain ⟨before, v, hprefix, hv⟩ := hends.mp hon
      exact ⟨before, v, hprefix.trans (List.prefix_append trips [w]), hv⟩
    | true =>
      obtain ⟨hstop, hgoes⟩ := (htimer hon).step hentered hclock hon
      refine ⟨hgoes, hstop.trans ⟨fun h => ⟨trips, w, List.prefix_rfl, h⟩, ?_⟩⟩
      rintro ⟨before, v, hprefix, hv⟩
      rcases prefix_append_singleton.mp hprefix with hprefix | hall
      · exact Bool.noConfusion ((hends.mpr ⟨before, v, hprefix, hv⟩).symm.trans hon)
      · obtain ⟨rfl, hlast⟩ := List.append_inj' hall rfl
        cases hlast
        exact hv

end Idle

/-- The loop ends itself only when asked to, or when nothing has been probed for as long as the option says,
and then it does. Until then it sleeps no longer than to that moment, if the moment is a time. -/
theorem loop_ends_iff (numeric : Bytes → Option Endpoint) (options : Options) (socket4 socket6 : IcmpSocket)
    (cookie startedRealUs reloadAt publishAt enteredAt : ℕ) (directory : Directory) (wakeups : List Wakeup)
    (hentered : 0 < enteredAt) (hclock : Machine.Timed Wakeup.after enteredAt wakeups) :
    let start := (Monitor.initial options socket4 socket6 cookie startedRealUs).start numeric reloadAt publishAt
      enteredAt directory
    let m := (loop numeric).run start wakeups
    (m.running = false ↔ ∃ before w, before ++ [w] <+: wakeups ∧ Ends numeric start enteredAt before w) ∧
      (m.running = true → options.idleExitUs ≠ 0 → ∀ since, IdleSince numeric start enteredAt wakeups since →
        since + options.idleExitUs < 2 ^ 64 → m.nextDeadline ≤ since + options.idleExitUs) := by
  intro start m
  obtain ⟨htimer, hends⟩ := idleTimer_run (m := start) rfl rfl hentered hclock
  refine ⟨hends, fun hrunning hexit since hsince hfits => ?_⟩
  have hstart : start.options = options := rfl
  have htimer' : IdleTimer numeric start enteredAt wakeups := htimer hrunning
  have hoptions : m.options = options := htimer'.options.trans hstart
  have harmed : m.idleSinceUs ≠ 0 := (htimer'.earliest since hsince).1
  have hle : m.idleSinceUs ≤ since := (htimer'.earliest since hsince).2
  by_contra hlate
  obtain ⟨-, -, -, -, hidle⟩ := (m.lt_nextDeadline_iff _).mp (not_le.mp hlate)
  have hahead := hidle ⟨hoptions.symm ▸ hexit, harmed⟩
  rw [hoptions, Nat.mod_eq_of_lt (by omega)] at hahead
  omega

/-- A daemon with nothing configured that may idle for a second ends on the trip after it. -/
theorem loop_ends_iff_unused :
    let options : Options := ⟨[], 1000000, 0, 1000000, 50, by decide, by decide⟩
    let trip : ℕ → Wakeup := fun t =>
      ⟨t, t, t, t, false, false, [], [], ⟨[], by decide⟩, ⟨fun _ => .sent, fun _ => 0⟩, 0, fun _ => none⟩
    let start := (Monitor.initial options ⟨true, false, []⟩ ⟨true, false, []⟩ 5 0).start (fun _ => none)
      1000 1000 1000 ⟨[], by decide⟩
    ((loop fun _ => none).run start [trip 500000, trip 1001000]).running = false := by
  intro options trip start
  refine (loop_ends_iff (fun _ => none) options ⟨true, false, []⟩ ⟨true, false, []⟩ 5 0 1000 1000 1000
    ⟨[], by decide⟩ [trip 500000, trip 1001000] (by decide) (by decide)).1.mpr ?_
  have hprobers : ((loop fun _ => none).run start ([trip 500000] ++ [trip 1001000])).probers = [] := by
    decide +kernel
  have hbefore : ((loop fun _ => none).run start ([] ++ [trip 500000])).probers = [] := by
    decide +kernel
  exact ⟨[trip 500000], trip 1001000, List.prefix_rfl,
    Or.inr ⟨by decide, 1000, .still (.still .entered hbefore) hprobers, by decide⟩⟩

section Publication
variable (numeric : Bytes → Option Endpoint) {m : Monitor} {w : Wakeup}

/-- A trip at whose end a change of health or of the configuration is to be published. -/
def Monitor.urgent (m : Monitor) (w : Wakeup) : Bool :=
  m.running && !w.shutdown && (m.beforePublish numeric w).stateDirty

namespace Monitor

theorem stateDirty_boardRule (subscribers : List Subscriber) :
    BoardRule subscribers fun b => b.stateDirty = true where
  sampled b s _ received rttUs realNow h := by
    unfold Board.sampleAt
    split
    · exact h
    · simp [h]
  noted _ h := h
  asked _ _ h := h

theorem stateDirty_tick (hdirty : m.stateDirty = true) (now : ℕ) (io : Io) : (m.tick now io).stateDirty = true :=
  mapAccum_keeps (fun b : Board => b.stateDirty = true) m.probers
    (fun _ p _ hb => (stateDirty_boardRule p.subscribers).tickProber m.socket4 m.socket6 io now hb) hdirty

/-- The fastest interval only changes with the configuration, which is published at once. -/
theorem minIntervalUs_afterTick (m : Monitor) (w : Wakeup) :
    (m.afterTick numeric w).stateDirty = true ∨ (m.afterTick numeric w).minIntervalUs = m.minIntervalUs := by
  unfold afterTick attend
  dsimp only
  split_ifs
  · exact Or.inl (stateDirty_tick rfl w.now w.io)
  · have hreplied : ((m.dispatch w).handleReplies w.after w.io w.replies).minIntervalUs =
        (m.dispatch w).minIntervalUs :=
      (congrArg Monitor.minIntervalUs (bare_handleReplies w.io w.after (m.dispatch w) w.replies) :)
    have hresolved : (m.dispatch w).minIntervalUs = m.minIntervalUs :=
      (congrArg Monitor.minIntervalUs (bare_handleResolutions w.after { m with
        configDirty := m.configDirty || w.configChanged, running := m.running && !w.shutdown } w.resolutions) :)
    exact Or.inr (hreplied.trans hresolved)

theorem flagged_afterTick (h : m.Flagged) (w : Wakeup) : (m.afterTick numeric w).Flagged := by
  have hkeep : ∀ (s : Monitor) (event : Event), (∀ force, event.handler ≠ .publish force) → s.Flagged →
      (s.step numeric event).Flagged := fun _ _ hevent hs => flagged_step numeric hs hevent
  have hdispatch : (m.dispatch w).Flagged :=
    hkeep { m with configDirty := m.configDirty || w.configChanged, running := m.running && !w.shutdown }
      ⟨w.after, .handleResolutions w.resolutions⟩ (fun _ he => Handler.noConfusion he) h
  have hreplied : ((m.dispatch w).handleReplies w.after w.io w.replies).Flagged :=
    hkeep _ ⟨w.after, .handleReplies w.io w.replies⟩ (fun _ he => Handler.noConfusion he) hdispatch
  have hattend : ((m.dispatch w).attend numeric w).Flagged := by
    unfold attend
    dsimp only
    split_ifs
    · exact Or.inr rfl
    · exact hreplied
  exact hkeep _ ⟨w.now, .tick w.io⟩ (fun _ he => Handler.noConfusion he) hattend

/-- What `publish` reads is there after `tick`. -/
theorem beforePublish_spec (m : Monitor) (w : Wakeup) :
    let b := m.beforePublish numeric w
    b.toBoard = (m.afterTick numeric w).toBoard ∧ b.minIntervalUs = (m.afterTick numeric w).minIntervalUs ∧
      b.options = m.options ∧ b.generation = m.generation ∧ b.lastPublishUs = m.lastPublishUs ∧
      b.lastReadablePublishUs = m.lastReadablePublishUs := by
  have hclockwork := m.clockwork_afterTick numeric w
  simp only [clockwork, Clockwork.mk.injEq] at hclockwork
  obtain ⟨hoptions, hgeneration, hlast, hreadable, -, -⟩ := hclockwork
  have hsame : ∀ t : Monitor, let b := (t.dropExpiredClients w.after w.realNow w.mtime).noteIdle w.after
      b.toBoard = t.toBoard ∧ b.minIntervalUs = t.minIntervalUs ∧ b.options = t.options ∧
        b.generation = t.generation ∧ b.lastPublishUs = t.lastPublishUs ∧
        b.lastReadablePublishUs = t.lastReadablePublishUs := by
    intro t
    dsimp only
    unfold noteIdle dropExpiredClients
    split_ifs <;> exact ⟨rfl, rfl, rfl, rfl, rfl, rfl⟩
  have hspec := hsame (m.afterTick numeric w)
  rw [hoptions, hgeneration, hlast, hreadable] at hspec
  exact hspec

end Monitor

/-- The state has been published, in time. -/
def Monitor.Publishes (m : Monitor) (w : Wakeup) (m' : Monitor) : Prop :=
  m'.generation = m.generation + 1 ∧ m'.lastPublishUs = w.publishAt ∧
    (m.urgent numeric w = true ∨ m.options.publishIntervalUs ≤ w.publishAt - m.lastPublishUs) ∧
    w.publishAt < m'.lastReadablePublishUs + kReadablePublishIntervalUs

/-- Nothing has been published, and what there is to publish waits for its slot. -/
def Monitor.Defers (m : Monitor) (w : Wakeup) (m' : Monitor) : Prop :=
  m'.generation = m.generation ∧ m'.lastPublishUs = m.lastPublishUs ∧
    m'.lastReadablePublishUs = m.lastReadablePublishUs ∧ m'.minIntervalUs = m.minIntervalUs ∧
    (m.Flagged → m'.Flagged ∧ w.publishAt - m.lastPublishUs < m.publishIntervalUs)

namespace Monitor

theorem publication_step (hrunning : m.running = true) (hshutdown : w.shutdown = false) :
    m.Publishes numeric w ((loop numeric).step m w) ∨ m.Defers w ((loop numeric).step m w) := by
  rw [step_of_running numeric hrunning hshutdown]
  obtain ⟨hboard, hmin, hoptions, hgeneration, hlast, hreadable⟩ := m.beforePublish_spec numeric w
  have hurgent : m.urgent numeric w = (m.beforePublish numeric w).stateDirty := by
    rw [urgent, hrunning, hshutdown]
    rfl
  unfold Publishes Defers
  rw [hurgent]
  unfold publish
  split_ifs with hdue hread
  · simp only [Bool.not_false, Bool.true_and, Bool.not_eq_true', publishDue, Bool.or_eq_false_iff,
      Bool.and_eq_false_iff, decide_eq_false_iff_not] at hdue
    obtain ⟨hstate, hdata⟩ := hdue
    have hsame : (m.beforePublish numeric w).minIntervalUs = m.minIntervalUs := by
      rw [hmin]
      refine (m.minIntervalUs_afterTick numeric w).resolve_left ?_
      rw [← hboard, hstate]
      simp
    refine Or.inr ⟨hgeneration, hlast, hreadable, hsame, fun hflagged => ?_⟩
    have hstill : (m.beforePublish numeric w).Flagged := by
      rw [hboard]
      exact flagged_afterTick numeric hflagged w
    refine ⟨hstill, ?_⟩
    rcases hdata with hdata | hslot
    · exact absurd hstill (by simp [Board.Flagged, hstate, hdata])
    · rw [publishIntervalUs, hoptions, hsame, hlast] at hslot
      exact not_le.mp hslot
  all_goals
    simp only [Bool.not_false, Bool.true_and, Bool.not_eq_true', Bool.not_eq_false, publishDue, Bool.or_eq_true,
      Bool.and_eq_true, decide_eq_true_eq] at hdue
    refine Or.inl ⟨congrArg (· + 1) hgeneration, rfl, hdue.imp_right fun hdata => ?_, ?_⟩
    · have hslot := hdata.2
      rw [publishIntervalUs, hoptions, hlast] at hslot
      exact (le_max_left _ _).trans hslot
  · simp [kReadablePublishIntervalUs]
  · push Not at hread
    have hrecent := hread.2.2
    dsimp only
    omega

/-- Without a trip that goes on nothing is published. -/
theorem clockwork_step (h : ¬ (m.running = true ∧ w.shutdown = false)) :
    ((loop numeric).step m w).clockwork = m.clockwork ∧ ((loop numeric).step m w).running = false := by
  cases hrunning : m.running with
  | false =>
    rw [step_of_not_running numeric hrunning]
    exact ⟨rfl, hrunning⟩
  | true =>
    have hshutdown : w.shutdown = true := by
      by_contra hgoes
      exact h ⟨hrunning, by simpa using hgoes⟩
    refine ⟨?_, step_of_shutdown numeric hrunning hshutdown⟩
    have hwoken : ¬ (m.dispatch w).running = true := by
      rw [running_dispatch, hrunning, hshutdown]
      simp
    change (if m.running then m.iterate numeric w else m).clockwork = m.clockwork
    rw [if_pos hrunning, iterate]
    rw [if_neg hwoken]
    exact m.clockwork_dispatch w

theorem urgent_step (h : m.urgent numeric w = true) : m.Publishes numeric w ((loop numeric).step m w) := by
  have hparts := h
  simp only [urgent, Bool.and_eq_true, Bool.not_eq_true'] at hparts
  obtain ⟨⟨hrunning, hshutdown⟩, hdirty⟩ := hparts
  refine (publication_step numeric hrunning hshutdown).resolve_right fun hdefers => ?_
  have hgeneration := (m.beforePublish_spec numeric w).2.2.2.1
  have hgrown : ((loop numeric).step m w).generation = m.generation + 1 := by
    rw [step_of_running numeric hrunning hshutdown, publish, if_neg (by simp [publishDue, hdirty])]
    exact congrArg (· + 1) hgeneration
  have hsame := hdefers.1
  omega

theorem options_trip (m : Monitor) (w : Wakeup) : ((loop numeric).step m w).options = m.options := by
  by_cases h : m.running = true ∧ w.shutdown = false
  · exact (idle_step numeric h.1 h.2).1
  · have hclockwork := (clockwork_step numeric h).1
    simp only [clockwork, Clockwork.mk.injEq] at hclockwork
    exact hclockwork.1

/-- Between publications without a change of health lies the configured interval: what was published, counted
in intervals, fits the time it took. -/
theorem publication_rate {trips : List Wakeup} {t : ℕ} (hlast : m.lastPublishUs ≤ t)
    (hclock : Machine.Timed Wakeup.publishAt t trips) :
    ((loop numeric).run m trips).generation * m.options.publishIntervalUs + m.lastPublishUs ≤
      (m.generation + (loop numeric).count (urgent numeric) m trips) * m.options.publishIntervalUs +
        ((loop numeric).run m trips).lastPublishUs := by
  induction trips generalizing m t with
  | nil => simp [Machine.count]
  | cons w trips ih =>
    have hw : t ≤ w.publishAt := List.rel_of_pairwise_cons hclock (by simp)
    rw [Machine.run_cons, Machine.count]
    by_cases hgoes : m.running = true ∧ w.shutdown = false
    · obtain ⟨hgeneration, hat, hwhen, -⟩ | ⟨hgeneration, hat, -, -, -⟩ := publication_step numeric hgoes.1 hgoes.2
      · have hrest := ih (m := (loop numeric).step m w) hat.le hclock.of_cons
        rw [options_trip, hgeneration, hat] at hrest
        rcases hwhen with hurgent | hslot
        · rw [hurgent, if_pos rfl, ← Nat.add_assoc]
          omega
        · rw [Nat.add_right_comm, Nat.add_mul, Nat.one_mul] at hrest
          split_ifs with hurgent
          · rw [← Nat.add_assoc, Nat.add_right_comm, Nat.add_mul, Nat.one_mul]
            omega
          · rw [Nat.zero_add]
            omega
      · have hrest := ih (m := (loop numeric).step m w) (hat.le.trans (hlast.trans hw)) hclock.of_cons
        rw [options_trip, hgeneration, hat] at hrest
        refine hrest.trans (Nat.add_le_add_right (Nat.mul_le_mul_right _ ?_) _)
        omega
    · obtain ⟨hclockwork, -⟩ := clockwork_step numeric hgoes
      simp only [clockwork, Clockwork.mk.injEq] at hclockwork
      obtain ⟨-, hgeneration, hat, -, -, -⟩ := hclockwork
      have hrest := ih (m := (loop numeric).step m w) (hat.le.trans (hlast.trans hw)) hclock.of_cons
      rw [options_trip, hgeneration, hat] at hrest
      refine hrest.trans (Nat.add_le_add_right (Nat.mul_le_mul_right _ ?_) _)
      omega

/-- What waited to be published in `m` still waits, unless it has been published since. -/
def Owes (m s : Monitor) : Prop :=
  m.generation < s.generation ∨ s.generation = m.generation ∧
    (s.running = true → s.Flagged ∧ s.lastPublishUs = m.lastPublishUs ∧ s.publishIntervalUs = m.publishIntervalUs)

theorem Owes.step {s : Monitor} (h : m.Owes s) (w : Wakeup) : m.Owes ((loop numeric).step s w) := by
  by_cases hgoes : s.running = true ∧ w.shutdown = false
  · obtain ⟨hgeneration, -, -, -⟩ | ⟨hgeneration, hat, -, hmin, hflagged⟩ :=
      publication_step numeric hgoes.1 hgoes.2
    · left
      rw [hgeneration]
      rcases h with h | ⟨h, -⟩
      · exact h.trans (Nat.lt_succ_self _)
      · exact h ▸ Nat.lt_succ_self _
    · refine h.imp (fun hmore => hgeneration ▸ hmore) fun ⟨hsame, hstill⟩ => ⟨hgeneration.trans hsame, fun _ => ?_⟩
      obtain ⟨hwaits, hlast, hinterval⟩ := hstill hgoes.1
      refine ⟨(hflagged hwaits).1, hat.trans hlast, ?_⟩
      rw [← hinterval, publishIntervalUs, publishIntervalUs, options_trip, hmin]
  · obtain ⟨hclockwork, hstopped⟩ := clockwork_step numeric hgoes
    simp only [clockwork, Clockwork.mk.injEq] at hclockwork
    rw [Owes, hclockwork.2.1, hstopped]
    exact h.imp_right fun ⟨hsame, _⟩ => ⟨hsame, fun hon => Bool.noConfusion hon⟩

/-- The readable file is not much older than the other one. -/
theorem readable_step (h : m.lastPublishUs < m.lastReadablePublishUs + kReadablePublishIntervalUs) (w : Wakeup) :
    ((loop numeric).step m w).lastPublishUs <
      ((loop numeric).step m w).lastReadablePublishUs + kReadablePublishIntervalUs := by
  by_cases hgoes : m.running = true ∧ w.shutdown = false
  · obtain ⟨-, hat, -, hreadable⟩ | ⟨-, hat, hreadable, -, -⟩ := publication_step numeric hgoes.1 hgoes.2
    · rwa [hat]
    · rwa [hat, hreadable]
  · have hclockwork := (clockwork_step numeric hgoes).1
    simp only [clockwork, Clockwork.mk.injEq] at hclockwork
    rw [hclockwork.2.2.1, hclockwork.2.2.2.1]
    exact h

end Monitor
end Publication

/-- A change of health or of the configuration is published by the trip that finds it, everything else by the
first trip that is an interval away from the last publication, to which the loop wakes up; apart from such
changes there is one publication per interval at most, and the readable file lags by less than its own. -/
theorem publication_schedule (numeric : Bytes → Option Endpoint) (options : Options) (socket4 socket6 : IcmpSocket)
    (cookie startedRealUs reloadAt publishAt enteredAt : ℕ) (directory : Directory) (wakeups : List Wakeup)
    (hclock : Machine.Timed Wakeup.publishAt publishAt wakeups) :
    let start := (Monitor.initial options socket4 socket6 cookie startedRealUs).start numeric reloadAt publishAt
      enteredAt directory
    let m := (loop numeric).run start wakeups
    let urgent := (loop numeric).count (Monitor.urgent numeric) start wakeups
    m.generation * options.publishIntervalUs + publishAt ≤
        (1 + urgent) * options.publishIntervalUs + m.lastPublishUs ∧
      m.lastPublishUs < m.lastReadablePublishUs + kReadablePublishIntervalUs ∧
      (∀ w, m.urgent numeric w = true → ((loop numeric).step m w).generation = m.generation + 1) ∧
      (m.Flagged → m.nextDeadline ≤ m.lastPublishUs + m.publishIntervalUs) ∧
      ∀ before since w, wakeups = before ++ since → m.running = true → w.shutdown = false →
        ((loop numeric).run start before).Flagged →
        ((loop numeric).run start before).lastPublishUs + ((loop numeric).run start before).publishIntervalUs ≤
          w.publishAt →
        ((loop numeric).run start before).generation < ((loop numeric).step m w).generation := by
  intro start m urgent
  have hfirst : start.generation = 1 ∧ start.lastPublishUs = publishAt ∧ start.options = options ∧
      start.lastPublishUs < start.lastReadablePublishUs + kReadablePublishIntervalUs := by
    refine ⟨rfl, rfl, rfl, ?_⟩
    change publishAt < publishAt + kReadablePublishIntervalUs
    simp [kReadablePublishIntervalUs]
  obtain ⟨hgeneration, hlast, hoptions, hreadable⟩ := hfirst
  refine ⟨?_, ?_, fun w hw => (Monitor.urgent_step numeric hw).1, fun hflagged => ?_, ?_⟩
  · have hrate := Monitor.publication_rate numeric hlast.le hclock
    rwa [hgeneration, hlast, hoptions] at hrate
  · exact Machine.run_keeps
      (fun s : Monitor => s.lastPublishUs < s.lastReadablePublishUs + kReadablePublishIntervalUs)
      (fun _ w h => Monitor.readable_step numeric h w) hreadable wakeups
  · by_contra hlate
    have hslot := ((m.lt_nextDeadline_iff _).mp (not_le.mp hlate)).2.2.1
    refine lt_irrefl _ (hslot ?_)
    simpa [Board.Flagged] using hflagged
  · intro before since w hall hrunning hshutdown hflagged hdue
    have howes : ((loop numeric).run start before).Owes m := by
      have hrun : m = (loop numeric).run ((loop numeric).run start before) since := by
        rw [← Machine.run_append, ← hall]
      rw [hrun]
      exact Machine.run_keeps (fun s => ((loop numeric).run start before).Owes s)
        (fun _ w h => h.step numeric w) (Or.inr ⟨rfl, fun _ => ⟨hflagged, rfl, rfl⟩⟩) since
    obtain hmore | ⟨hsame, hstill⟩ := howes
    · have hnext : ((loop numeric).run start before).Owes ((loop numeric).step m w) :=
        Monitor.Owes.step numeric (Or.inl hmore) w
      refine hnext.resolve_right fun ⟨hsame, _⟩ => ?_
      have hkept : m.generation ≤ ((loop numeric).step m w).generation := by
        obtain ⟨hgrown, -⟩ | ⟨hheld, -⟩ := Monitor.publication_step numeric hrunning hshutdown
        · omega
        · omega
      omega
    · obtain ⟨hwaits, hat, hinterval⟩ := hstill hrunning
      obtain ⟨hgrown, -⟩ | ⟨-, -, -, -, hheld⟩ := Monitor.publication_step numeric hrunning hshutdown
      · omega
      · have hshort := (hheld hwaits).2
        rw [hat, hinterval] at hshort
        omega

/-- A host whose first three probes change nothing that is published; then the first of them is given up and the
host is down, which is published at once, and a late answer to the second is published a second after that. -/
theorem publication_schedule_run :
    let host : Endpoint := ⟨.inet, ⟨.inet, [192, 0, 2, 1]⟩, 16, ascii "192.0.2.1"⟩
    let directory : Directory := ⟨[⟨ascii "w.json", some (.object [(ascii "destinations",
      .array [.object [(ascii "address", .string (ascii "192.0.2.1"))]])])⟩], by decide⟩
    let trip : ℕ → List Datagram → Wakeup := fun t replies =>
      ⟨t, t, t, t, false, false, [], replies, directory, ⟨fun _ => .sent, fun _ => 0⟩, 0, fun _ => none⟩
    let silent := [trip 1000 [], trip 1001000 [], trip 2001000 []]
    let answered := silent ++ [trip 3001000 [], trip 3501000 [⟨5, 1, 2, 1001000, host.addr, 16⟩]]
    let start := (Monitor.initial ⟨[], 1000000, 0, 0, 50, by decide, by decide⟩ ⟨true, false, []⟩ ⟨true, false, []⟩
      5 0).start (fun _ => some host) 1000 1000 1000 directory
    let waiting := (loop fun _ => some host).run start silent
    let m := (loop fun _ => some host).run start answered
    ((loop fun _ => some host).step waiting (trip 3001000 [])).generation = waiting.generation + 1 ∧
      m.generation * 1000000 + 1000 ≤
        (1 + (loop fun _ => some host).count (Monitor.urgent fun _ => some host) start answered) * 1000000 +
          m.lastPublishUs ∧
      m.lastPublishUs < m.lastReadablePublishUs + 5000000 ∧ m.nextDeadline ≤ 4001000 ∧
      m.generation < ((loop fun _ => some host).step m (trip 4001000 [])).generation := by
  intro host directory trip silent answered start waiting m
  obtain ⟨-, -, hurgent, -, -⟩ := publication_schedule (fun _ => some host)
    ⟨[], 1000000, 0, 0, 50, by decide, by decide⟩ ⟨true, false, []⟩ ⟨true, false, []⟩ 5 0 1000 1000 1000 directory
    silent (by decide)
  obtain ⟨hrate, hreadable, -, hwakes, hpublished⟩ := publication_schedule (fun _ => some host)
    ⟨[], 1000000, 0, 0, 50, by decide, by decide⟩ ⟨true, false, []⟩ ⟨true, false, []⟩ 5 0 1000 1000 1000 directory
    answered (by decide)
  have hflagged : m.Flagged := by decide +kernel
  have hdue : m.lastPublishUs + m.publishIntervalUs = 4001000 := by decide +kernel
  refine ⟨hurgent _ (by decide +kernel), hrate, hreadable, hdue ▸ hwakes hflagged, ?_⟩
  exact hpublished answered [] (trip 4001000 []) (List.append_nil _).symm (by decide +kernel) rfl hflagged hdue.le

end NetworkHealth.Daemon
