import NetworkHealth.Daemon.Spinning

/-! The other half of the loop's schedule: before the deadline it sleeps until there is nothing
to do. The deadline repeats the guards of the functions that the loop calls, and the two agree
because a trip leaves no health change unpublished. -/
namespace NetworkHealth.Daemon

/-- The files whose age `dropExpiredClients` looks up. -/
def Monitor.examinedFiles (m : Monitor) (now : ℕ) : List Bytes :=
  if m.options.clientTimeoutUs = 0 ∨ now - m.lastClientCheckUs < m.clientCheckIntervalUs then []
  else m.clients.map Client.path

/-- What the loop keeps between two trips: no publication is from the future, and no health
change waits for one. -/
structure Rested (t : ℕ) (m : Monitor) : Prop where
  published : m.lastPublishUs ≤ t
  calm : m.running = true → m.stateDirty = false

section Tick
variable (socket4 socket6 : IcmpSocket) (io : Io) (now : ℕ) (b : Board) {p : Prober}

/-- `tick` has nothing to do for a prober that waits for later than the slack. -/
theorem tickProber_of_waits (h : p.Waits (now + kSendSlackUs)) :
    tickProber socket4 socket6 io now b p = (b, p) := by
  have hexpire : expire io now b p p.inFlight = (b, p) := by
    cases hqueue : p.inFlight with
    | nil => rfl
    | cons oldest rest =>
      have hlate := h.reply oldest (by simp [hqueue])
      rw [expire, if_neg (Nat.not_le.mpr hlate)]
  have hask : requestLookup now b p = (b, p) := by
    unfold requestLookup
    split_ifs with hdue
    · simp only [Bool.and_eq_true, Bool.not_eq_true', decide_eq_true_eq] at hdue
      have hlate := h.lookup hdue.1.1 hdue.1.2
      omega
    · rfl
  have hsend : sendDue socket4 socket6 io now b p = (b, p) := by
    unfold sendDue
    rw [if_neg fun hdue => absurd hdue.2 (Nat.not_le.mpr h.send)]
  unfold tickProber
  rw [hexpire]
  dsimp only
  rw [hask]
  exact hsend

end Tick

namespace Monitor
variable (m : Monitor)

theorem tick_of_waits {now : ℕ} (h : ∀ p ∈ m.probers, p.Waits (now + kSendSlackUs)) (io : Io) :
    m.tick now io = m := by
  have hloop : mapAccum (tickProber m.socket4 m.socket6 io now) m.toBoard m.probers =
      (m.toBoard, m.probers) :=
    mapAccum_eq_self (fun b p hp => tickProber_of_waits m.socket4 m.socket6 io now b (h p hp)) m.toBoard
  unfold tick
  rw [hloop]

/-- Ages of files that are not examined make no difference. -/
theorem dropExpiredClients_congr {now : ℕ} {mtime mtime' : Bytes → Option ℕ} (realNow : ℕ)
    (h : ∀ path ∈ m.examinedFiles now, mtime path = mtime' path) :
    m.dropExpiredClients now realNow mtime = m.dropExpiredClients now realNow mtime' := by
  unfold examinedFiles at h
  unfold dropExpiredClients
  split_ifs at h ⊢ with hskip
  · rfl
  · have hexpired : m.expiredClients realNow mtime = m.expiredClients realNow mtime' := by
      apply List.filter_congr
      intro client hclient
      rw [h client.path (List.mem_map_of_mem hclient)]
    rw [hexpired]

theorem publish_spec (now : ℕ) :
    (m.publish now false).stateDirty = false ∧
      ((m.publish now false).lastPublishUs = now ∨ (m.publish now false).lastPublishUs = m.lastPublishUs) := by
  unfold publish
  split_ifs with hdue
  · simp only [Bool.not_false, Bool.true_and, Bool.not_eq_true', publishDue, Bool.or_eq_false_iff] at hdue
    exact ⟨hdue.1, Or.inr rfl⟩
  all_goals exact ⟨rfl, Or.inl rfl⟩

theorem lastPublishUs_dropExpiredClients (now realNow : ℕ) (mtime : Bytes → Option ℕ) :
    (m.dropExpiredClients now realNow mtime).lastPublishUs = m.lastPublishUs := by
  unfold dropExpiredClients
  split_ifs <;> rfl

theorem lastPublishUs_noteIdle (after : ℕ) : (m.noteIdle after).lastPublishUs = m.lastPublishUs := by
  unfold noteIdle
  split_ifs <;> rfl

theorem lastPublishUs_dispatch (w : Wakeup) : (m.dispatch w).lastPublishUs = m.lastPublishUs := by
  have hbare := Monitor.bare_handleResolutions w.after { m with
    configDirty := m.configDirty || w.configChanged, running := m.running && !w.shutdown } w.resolutions
  have hpublished := congrArg Monitor.lastPublishUs hbare
  exact hpublished

theorem lastPublishUs_attend (numeric : Bytes → Option Endpoint) (w : Wakeup) :
    (m.attend numeric w).lastPublishUs = m.lastPublishUs := by
  have hreplied : (m.handleReplies w.after w.io w.replies).lastPublishUs = m.lastPublishUs :=
    (congrArg Monitor.lastPublishUs (Monitor.bare_handleReplies w.io w.after m w.replies) :)
  unfold attend
  dsimp only
  split_ifs
  · exact hreplied
  · exact hreplied

/-- The idle test does not end the loop before its deadline. -/
theorem running_noteIdle {t : ℕ} (hrunning : m.running = true)
    (h : m.options.idleExitUs ≠ 0 ∧ m.idleSinceUs ≠ 0 → t < m.idleSinceUs + m.options.idleExitUs) :
    (m.noteIdle t).running = true := by
  by_cases hprobers : m.probers = []
  · have hshort : m.options.idleExitUs = 0 ∨ t - m.idleSince t < m.options.idleExitUs := by
      refine or_iff_not_imp_left.mpr fun hexit => ?_
      unfold idleSince
      split_ifs with hsince
      · omega
      · have hahead := h ⟨hexit, hsince⟩
        omega
    simpa [noteIdle, hprobers, hrunning, idleSince] using hshort
  · simpa [noteIdle, hprobers] using hrunning

end Monitor

namespace Rested
variable {t : ℕ} {m : Monitor} (numeric : Bytes → Option Endpoint) {w : Wakeup}

theorem later {t' : ℕ} (h : Rested t m) (hle : t ≤ t') : Rested t' m := ⟨h.published.trans hle, h.calm⟩

theorem serve (hpublished : m.lastPublishUs ≤ w.publishAt) : Rested w.publishAt (m.serve w) := by
  unfold Monitor.serve
  dsimp only
  set noted := ((m.tick w.now w.io).dropExpiredClients w.after w.realNow w.mtime).noteIdle w.after with hnoted
  have hbefore : noted.lastPublishUs = m.lastPublishUs := by
    rw [hnoted, Monitor.lastPublishUs_noteIdle, Monitor.lastPublishUs_dropExpiredClients]
    rfl
  obtain ⟨hcalm, hwhen⟩ := noted.publish_spec w.publishAt
  refine ⟨?_, fun _ => hcalm⟩
  rcases hwhen with hwhen | hwhen
  · exact hwhen.le
  · rw [hwhen, hbefore]
    exact hpublished

theorem step (h : Rested w.after m) (hafter : w.after ≤ w.publishAt) :
    Rested w.publishAt ((loop numeric).step m w) := by
  change Rested w.publishAt (if m.running then m.iterate numeric w else m)
  unfold Monitor.iterate
  dsimp only
  split_ifs with hrunning hwoken
  · apply serve
    rw [Monitor.lastPublishUs_attend, Monitor.lastPublishUs_dispatch]
    exact h.published.trans hafter
  · exact ⟨((m.lastPublishUs_dispatch w).trans_le h.published).trans hafter, fun hon => absurd hon hwoken⟩
  · exact h.later hafter

theorem run {start : ℕ} {wakeups : List Wakeup} (h : Rested start m)
    (hclock : Machine.Timed id start (wakeups.flatMap Wakeup.readings ++ [t])) :
    Rested t ((loop numeric).run m wakeups) := by
  induction wakeups generalizing start m with
  | nil =>
    have hle : start ≤ t := List.rel_of_pairwise_cons hclock (by simp)
    exact h.later hle
  | cons w rest ih =>
    simp only [Machine.Timed, List.map_id, Wakeup.readings, List.flatMap_cons, List.cons_append,
      List.nil_append, ← List.isChain_iff_pairwise, List.isChain_cons_cons] at hclock
    obtain ⟨hafter, hreload, htick, hpublish, hrest⟩ := hclock
    refine ih ((h.later hafter).step numeric (hreload.trans (htick.trans hpublish))) ?_
    simpa only [Machine.Timed, List.map_id, ← List.isChain_iff_pairwise] using hrest

end Rested

/-- At the top of the loop, whatever the trips before, and at any later time from which the
deadline is more than the slack away: `tick` changes nothing and applies no sample, `publish`
writes nothing, no client file is examined and the idle test does not end the loop. -/
theorem never_sleeps_past_work (numeric : Bytes → Option Endpoint) (options : Options)
    (socket4 socket6 : IcmpSocket) (cookie startedRealUs reloadAt publishAt enteredAt : ℕ)
    (directory : Directory) (wakeups : List Wakeup) (t : ℕ) (io : Io) (hstart : publishAt ≤ enteredAt)
    (hclock : Machine.Timed id enteredAt (wakeups.flatMap Wakeup.readings ++ [t])) :
    let m := (loop numeric).run
      ((Monitor.initial options socket4 socket6 cookie startedRealUs).start numeric reloadAt publishAt
        enteredAt directory) wakeups
    m.running = true → t + kSendSlackUs < m.nextDeadline →
      m.tick t io = m ∧ m.publish t false = m ∧ m.examinedFiles t = [] ∧ (m.noteIdle t).running = true := by
  intro m hrunning hsleep
  have hrested : Rested t m := by
    apply Rested.run numeric _ hclock
    exact ⟨hstart, fun _ => rfl⟩
  obtain ⟨-, hwaits, hslot, hcheck, hidle⟩ := (m.lt_nextDeadline_iff _).mp hsleep
  refine ⟨m.tick_of_waits hwaits io, ?_, ?_, ?_⟩
  · have hdue : m.publishDue t = false := by
      have hcalm := hrested.calm hrunning
      have hpublished := hrested.published
      unfold Monitor.publishDue
      cases hdirty : m.dataDirty with
      | false => simp [hcalm]
      | true =>
        have hahead := hslot (by simp [hdirty])
        simp only [hcalm, Bool.false_or, Bool.true_and, decide_eq_false_iff_not]
        omega
    simp [Monitor.publish, hdue]
  · unfold Monitor.examinedFiles
    split_ifs with hskip
    · rfl
    · rw [not_or] at hskip
      by_contra hsome
      have hahead := hcheck ⟨hskip.1, fun hnone => hsome (by rw [hnone]; rfl)⟩
      have hpos := m.clientCheckIntervalUs_pos
      omega
  · apply m.running_noteIdle hrunning
    intro hset
    have hahead := hidle hset
    have hmod := Nat.mod_le (m.idleSinceUs + m.options.idleExitUs) (2 ^ 64)
    omega

/-- A host probed once a second: after its first probe has gone out there is nothing to do for
the rest of the second. -/
theorem never_sleeps_past_work_run :
    let host : Endpoint := ⟨.inet, ⟨.inet, [192, 0, 2, 1]⟩, 16, ascii "192.0.2.1"⟩
    let directory : Directory := ⟨[⟨ascii "w.json", some (.object [(ascii "destinations",
      .array [.object [(ascii "address", .string (ascii "192.0.2.1"))]])])⟩], by decide⟩
    let io : Io := ⟨fun _ => .sent, fun _ => 0⟩
    let trip : Wakeup :=
      ⟨61000000, 61000000, 61000000, 61000000, false, false, [], [], directory, io, 0, fun _ => none⟩
    let m := (loop fun _ => some host).run
      ((Monitor.initial ⟨[], 500000, 120000000, 60000000, 50, by decide, by decide⟩ ⟨true, false, []⟩
        ⟨true, false, []⟩ 5 0).start (fun _ => some host) 61000000 61000000 61000000 directory) [trip]
    m.probers.length = 1 ∧ m.tick 61997999 io = m ∧ m.publish 61997999 false = m ∧
      m.examinedFiles 61997999 = [] ∧ (m.noteIdle 61997999).running = true := by
  intro host directory io trip m
  exact ⟨by decide +kernel, never_sleeps_past_work (fun _ => some host)
    ⟨[], 500000, 120000000, 60000000, 50, by decide, by decide⟩ ⟨true, false, []⟩ ⟨true, false, []⟩ 5 0
    61000000 61000000 61000000 directory [trip] 61997999 io (by decide) (by decide) (by decide +kernel)
    (by decide +kernel)⟩

end NetworkHealth.Daemon
