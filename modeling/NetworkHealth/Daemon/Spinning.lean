import NetworkHealth.Daemon.Conservation

/-! Whether the event loop can be woken at once, again and again. Everything a trip through
the loop serves is pushed past the trip's own time, except a send that is held back because
the queue of its prober is full, and an idle deadline that overflows. -/
namespace NetworkHealth.Daemon

namespace Prober

/-- Nothing that the prober waits for is due. -/
structure Waits (after : ℕ) (p : Prober) : Prop where
  reply : ∀ oldest ∈ p.inFlight.head?, after < oldest.deadlineUs
  send : after < p.nextSendUs
  lookup : p.numeric = false → p.resolving = false → after < p.nextResolveUs

/-- What a lookup or an expiry in `tick` leaves alone. -/
def timetable (p : Prober) : Stream × Bool × ℕ × ℕ :=
  (p.stream, p.numeric, p.nextResolveUs, p.nextSendUs)

theorem lt_deadline_iff (after deadline : ℕ) (p : Prober) :
    after < p.deadline deadline ↔ after < deadline ∧ p.Waits after := by
  have hwaits : p.Waits after ↔ (∀ oldest ∈ p.inFlight.head?, after < oldest.deadlineUs) ∧
      after < p.nextSendUs ∧ (p.numeric = false → p.resolving = false → after < p.nextResolveUs) :=
    ⟨fun h => ⟨h.reply, h.send, h.lookup⟩, fun h => ⟨h.1, h.2.1, h.2.2⟩⟩
  rw [hwaits]
  unfold Prober.deadline
  cases p.inFlight with
  | nil =>
    cases p.numeric <;> cases p.resolving <;> simp
  | cons oldest rest =>
    cases p.numeric <;> cases p.resolving <;> simp

theorem lt_foldl_deadline_iff (after deadline : ℕ) (probers : List Prober) :
    after < probers.foldl Prober.deadline deadline ↔
      after < deadline ∧ ∀ p ∈ probers, p.Waits after := by
  induction probers generalizing deadline with
  | nil => simp
  | cons p rest ih => rw [List.foldl_cons, ih, lt_deadline_iff, List.forall_mem_cons, and_assoc]

end Prober

section Tick
variable (socket4 socket6 : IcmpSocket) (io : Io) (now : ℕ) (b : Board) (p : Prober)

theorem timetable_expire : (expire io now b p p.inFlight).2.timetable = p.timetable :=
  expire_keeps io now b p (fun q => q.timetable = p.timetable) (fun _ _ _ h _ _ => h) rfl

theorem requestLookup_spec : (requestLookup now b p).2.timetable = p.timetable ∧
    (requestLookup now b p).2.inFlight = p.inFlight ∧
    ((requestLookup now b p).2.numeric = false → (requestLookup now b p).2.resolving = false →
      now < (requestLookup now b p).2.nextResolveUs) := by
  unfold requestLookup
  split_ifs with hdue
  · exact ⟨rfl, rfl, fun _ h => absurd h (by simp)⟩
  · refine ⟨rfl, rfl, fun hnumeric hresolving => ?_⟩
    rw [hnumeric, hresolving] at hdue
    have hlate : now + kSendSlackUs < p.nextResolveUs := by simpa using hdue
    exact (Nat.le_add_right now kSendSlackUs).trans_lt hlate

theorem sendOutcome_timetable {now : ℕ} {p p' : Prober} (h : p.SendOutcome now p') :
    p'.timetable = p.timetable ∧ p'.resolving = p.resolving ∧
      (p'.inFlight = p.inFlight ∨
        ∃ seq, p'.inFlight = p.inFlight ++ [⟨seq, now, now + p.timeoutUs⟩]) := by
  cases h with
  | blocked error => exact ⟨rfl, rfl, Or.inl rfl⟩
  | refused error => exact ⟨rfl, rfl, Or.inl rfl⟩
  | launched => exact ⟨rfl, rfl, Or.inr ⟨_, rfl⟩⟩

/-- `tick` serves everything a prober waits for, except that a full queue holds back a send
that stays due. -/
theorem waits_tickProber {after : ℕ} (hafter : after ≤ now) (hinterval : 0 < p.intervalUs)
    (htimeout : 0 < p.timeoutUs) :
    (tickProber socket4 socket6 io now b p).2.Waits after ↔
      (p.maxInFlight ≤ (p.unexpired now).length → after < p.nextSendUs) := by
  obtain ⟨htable, hqueue, hlookup⟩ := requestLookup_spec now (expire io now b p p.inFlight).1
    (expire io now b p p.inFlight).2
  rw [timetable_expire] at htable
  rw [inFlight_expire] at hqueue
  unfold tickProber sendDue
  dsimp only
  generalize (requestLookup now (expire io now b p p.inFlight).1
    (expire io now b p p.inFlight).2).2 = asked at htable hqueue hlookup
  generalize (requestLookup now (expire io now b p p.inFlight).1
    (expire io now b p p.inFlight).2).1 = b'
  simp only [Prober.timetable, Prober.stream, Prod.mk.injEq, Stream.mk.injEq] at htable
  obtain ⟨⟨-, hi, ht, -, hmax, -⟩, hnumeric, hresolve, hnext⟩ := htable
  have hfront : ∀ oldest ∈ asked.inFlight.head?, now < oldest.deadlineUs := by
    intro oldest holdest
    rw [hqueue] at holdest
    have hlate := lt_deadline_unexpired now p holdest
    omega
  rw [hqueue, hmax, hnext]
  split_ifs with hdue
  · refine iff_of_true ?_ fun hfull => absurd hdue.1 (Nat.not_lt.mpr hfull)
    have houtcome := sendOutcome_sendProbe socket4 socket6 io now b' asked
    generalize (sendProbe socket4 socket6 io now b' asked).2 = p' at houtcome
    obtain ⟨htable', hresolving', hqueue'⟩ := sendOutcome_timetable houtcome
    simp only [Prober.timetable, Prober.stream, Prod.mk.injEq, Stream.mk.injEq] at htable'
    obtain ⟨⟨-, hi', -⟩, hnumeric', hresolve', -⟩ := htable'
    refine ⟨?_, ?_, ?_⟩
    · change ∀ oldest ∈ p'.inFlight.head?, after < oldest.deadlineUs
      intro oldest holdest
      rcases hqueue' with hsame | ⟨seq, happend⟩
      · rw [hsame] at holdest
        exact hafter.trans_lt (hfront oldest holdest)
      · rw [happend] at holdest
        cases hempty : asked.inFlight with
        | nil =>
          rw [hempty] at holdest
          obtain rfl : _ = oldest := by simpa using holdest
          dsimp only
          omega
        | cons first rest =>
          rw [hempty] at holdest hfront
          exact hafter.trans_lt (hfront oldest (by simpa using holdest))
    · exact hafter.trans_lt (lt_advance (by omega) now)
    · change p'.numeric = false → p'.resolving = false → after < p'.nextResolveUs
      rw [hnumeric', hresolving', hresolve']
      exact fun hn hr => hafter.trans_lt (hlookup hn hr)
  · constructor
    · intro hwaits hfull
      exact hnext ▸ hwaits.send
    · intro hfull
      refine ⟨fun oldest ho => hafter.trans_lt (hfront oldest ho), ?_, fun hn hr =>
        hafter.trans_lt (hlookup hn hr)⟩
      rw [hnext]
      by_cases hroom : (p.unexpired now).length < p.maxInFlight
      · have hlate : ¬ p.nextSendUs ≤ now + kSendSlackUs := fun h => hdue ⟨hroom, h⟩
        omega
      · exact hfull (Nat.not_lt.mp hroom)

end Tick

namespace Monitor

/-- When the daemon became idle, for the idle test at `after`. -/
def idleSince (m : Monitor) (after : ℕ) : ℕ := if m.idleSinceUs = 0 then after else m.idleSinceUs

theorem lt_nextDeadline_iff (m : Monitor) (after : ℕ) :
    after < m.nextDeadline ↔ after < kNeverUs ∧ (∀ p ∈ m.probers, p.Waits after) ∧
      ((m.dataDirty || m.stateDirty) = true → after < m.lastPublishUs + m.publishIntervalUs) ∧
      (m.options.clientTimeoutUs ≠ 0 ∧ m.clients ≠ [] →
        after < m.lastClientCheckUs + m.clientCheckIntervalUs) ∧
      (m.options.idleExitUs ≠ 0 ∧ m.idleSinceUs ≠ 0 →
        after < (m.idleSinceUs + m.options.idleExitUs) % 2 ^ 64) := by
  have hmin : ∀ (c : Prop) [Decidable c] (deadline other : ℕ),
      after < (if c then min deadline other else deadline) ↔ after < deadline ∧ (c → after < other) := by
    intro c _ deadline other
    split_ifs with hc <;> simp [hc]
  unfold nextDeadline
  dsimp only
  rw [hmin, hmin, hmin, Prober.lt_foldl_deadline_iff]
  tauto

/-- After `publish`, whatever is left to publish has to wait for its slot. -/
theorem lt_publish (m : Monitor) (now : ℕ) :
    ((m.publish now false).dataDirty || (m.publish now false).stateDirty) = true →
      now < (m.publish now false).lastPublishUs + (m.publish now false).publishIntervalUs := by
  unfold publish
  split_ifs with hdue
  · intro hdirty
    simp only [Bool.not_false, Bool.true_and, Bool.not_eq_true', publishDue, Bool.or_eq_false_iff,
      Bool.and_eq_false_iff, decide_eq_false_iff_not] at hdue
    obtain ⟨hstate, hdata | hslot⟩ := hdue
    · simp [hstate, hdata] at hdirty
    · omega
  all_goals exact fun hdirty => absurd hdirty (by simp)

theorem clientCheckIntervalUs_pos (m : Monitor) : 0 < m.clientCheckIntervalUs := by
  unfold clientCheckIntervalUs
  split_ifs <;> simp [kClientCheckIntervalUs]

/-- After `dropExpiredClients`, the next check is ahead. -/
theorem lt_dropExpiredClients (m : Monitor) (now realNow : ℕ) (mtime : Bytes → Option ℕ)
    (h : m.options.clientTimeoutUs ≠ 0) :
    now < (m.dropExpiredClients now realNow mtime).lastClientCheckUs + m.clientCheckIntervalUs := by
  have hpos := m.clientCheckIntervalUs_pos
  unfold dropExpiredClients
  split_ifs with hskip
  · have hrecent := hskip.resolve_left h
    omega
  · exact Nat.lt_add_of_pos_right hpos

/-- After the idle test, if the loop goes on, the idle deadline is ahead unless its sum does not
fit a time. -/
theorem lt_noteIdle_iff (m : Monitor) {after : ℕ} (hsince : m.idleSinceUs ≤ after)
    (hafter : after < 2 ^ 63) (hrunning : (m.noteIdle after).running = true) :
    (m.options.idleExitUs ≠ 0 ∧ (m.noteIdle after).idleSinceUs ≠ 0 →
        after < ((m.noteIdle after).idleSinceUs + m.options.idleExitUs) % 2 ^ 64) ↔
      (m.probers = [] → m.idleSince after + m.options.idleExitUs < 2 ^ 64) := by
  have hexit := m.options.idleExit_lt
  have hle : m.idleSince after ≤ after := by
    unfold idleSince
    split_ifs
    · exact le_rfl
    · exact hsince
  by_cases hprobers : m.probers = []
  · have hnote : (m.noteIdle after).idleSinceUs = m.idleSince after := by
      simp [noteIdle, hprobers, idleSince]
    have hshort : m.options.idleExitUs ≠ 0 → after - m.idleSince after < m.options.idleExitUs := by
      intro hne
      simp only [noteIdle, hprobers, if_true, Bool.and_eq_true, Bool.not_eq_true', Bool.and_eq_false_iff,
        decide_eq_false_iff_not] at hrunning
      simpa [hne, idleSince] using hrunning.2
    rw [hnote]
    simp only [hprobers, true_imp_iff]
    by_cases hne : m.options.idleExitUs = 0
    · exact iff_of_true (fun h => absurd hne h.1) (by omega)
    · have hlong := hshort hne
      constructor
      · intro h
        by_contra hover
        have hmod : (m.idleSince after + m.options.idleExitUs) % 2 ^ 64 =
            m.idleSince after + m.options.idleExitUs - 2 ^ 64 := by omega
        have hlt := h ⟨hne, by omega⟩
        omega
      · intro hfits _
        rw [Nat.mod_eq_of_lt hfits]
        omega
  · have hnote : (m.noteIdle after).idleSinceUs = 0 := by simp [noteIdle, hprobers]
    simp [hnote, hprobers]

theorem rest_dropExpiredClients (m : Monitor) (now realNow : ℕ) (mtime : Bytes → Option ℕ) :
    (m.dropExpiredClients now realNow mtime).options = m.options ∧
      (m.dropExpiredClients now realNow mtime).idleSinceUs = m.idleSinceUs := by
  unfold dropExpiredClients
  split_ifs <;> exact ⟨rfl, rfl⟩

theorem rest_noteIdle (m : Monitor) (after : ℕ) :
    (m.noteIdle after).options = m.options ∧
      (m.noteIdle after).lastClientCheckUs = m.lastClientCheckUs := by
  unfold noteIdle
  split_ifs <;> exact ⟨rfl, rfl⟩

theorem rest_publish (m : Monitor) (now : ℕ) (force : Bool) :
    (m.publish now force).options = m.options ∧ (m.publish now force).running = m.running ∧
      (m.publish now force).lastClientCheckUs = m.lastClientCheckUs ∧
      (m.publish now force).idleSinceUs = m.idleSinceUs := by
  unfold publish
  split_ifs <;> exact ⟨rfl, rfl, rfl, rfl⟩

/-- One trip from `tick` on: the only deadlines it leaves behind are held-back sends and an
idle deadline that does not fit a time. -/
theorem lt_nextDeadline_serve (m : Monitor) {w : Wakeup} (htick : w.after ≤ w.now)
    (hpublish : w.now ≤ w.publishAt) (hrange : w.publishAt < 2 ^ 63)
    (hprobers : ∀ p ∈ m.probers, 0 < p.intervalUs ∧ 0 < p.timeoutUs)
    (hsince : m.idleSinceUs ≤ w.after) (hrunning : (m.serve w).running = true) :
    w.after < (m.serve w).nextDeadline ↔
      (∀ p ∈ m.probers, p.maxInFlight ≤ (p.unexpired w.now).length → w.after < p.nextSendUs) ∧
        (m.probers = [] → m.idleSince w.after + m.options.idleExitUs < 2 ^ 64) := by
  have hafter : w.after < kNeverUs := by
    unfold kNeverUs
    omega
  unfold serve at hrunning ⊢
  dsimp only at hrunning ⊢
  set ticked := m.tick w.now w.io with hticked
  set checked := ticked.dropExpiredClients w.after w.realNow w.mtime with hchecked
  set noted := checked.noteIdle w.after with hnoted
  obtain ⟨hoptions, hsame, hcheck, hidle⟩ := rest_publish noted w.publishAt false
  obtain ⟨hoptions', hcheck'⟩ := rest_noteIdle checked w.after
  obtain ⟨hoptions'', hidle'⟩ := rest_dropExpiredClients ticked w.after w.realNow w.mtime
  have hfields : (noted.publish w.publishAt false).probers = ticked.probers := by
    rw [(quiet_publish ..).2, hnoted, (quiet_noteIdle ..).2, hchecked, (quiet_dropExpiredClients ..).2]
  have hwaits : (∀ p ∈ (noted.publish w.publishAt false).probers, p.Waits w.after) ↔
      ∀ p ∈ m.probers, p.maxInFlight ≤ (p.unexpired w.now).length → w.after < p.nextSendUs := by
    rw [hfields]
    exact forall_mem_mapAccum_iff (fun b p hp => waits_tickProber m.socket4 m.socket6 w.io w.now b p htick
      (hprobers p hp).1 (hprobers p hp).2) _
  have hempty : checked.probers = [] ↔ m.probers = [] := by
    rw [hchecked, (quiet_dropExpiredClients ..).2, ← List.length_eq_zero_iff, ← List.length_eq_zero_iff]
    rw [show ticked.probers.length = m.probers.length from mapAccum_length ..]
  have hslot : ((noted.publish w.publishAt false).dataDirty ||
      (noted.publish w.publishAt false).stateDirty) = true → w.after <
        (noted.publish w.publishAt false).lastPublishUs +
          (noted.publish w.publishAt false).publishIntervalUs := fun hdirty =>
    (htick.trans hpublish).trans_lt (lt_publish noted w.publishAt hdirty)
  have hclients : (noted.publish w.publishAt false).options.clientTimeoutUs ≠ 0 ∧
      (noted.publish w.publishAt false).clients ≠ [] → w.after <
        (noted.publish w.publishAt false).lastClientCheckUs +
          (noted.publish w.publishAt false).clientCheckIntervalUs := by
    rintro ⟨htimeout, -⟩
    have hoptionsAll : (noted.publish w.publishAt false).options = ticked.options :=
      hoptions.trans (hoptions'.trans hoptions'')
    unfold clientCheckIntervalUs
    rw [hoptionsAll] at htimeout ⊢
    rw [hcheck, hnoted, hcheck']
    exact lt_dropExpiredClients ticked w.after w.realNow w.mtime htimeout
  have hexit := lt_noteIdle_iff checked (hidle'.le.trans hsince) (by omega) (hsame.symm.trans hrunning)
  rw [lt_nextDeadline_iff, and_iff_right hafter, hwaits, iff_true_intro hslot, iff_true_intro hclients, hidle, hoptions,
    hnoted, hoptions', hexit, hempty]
  simp only [true_and, idleSince]
  rw [hidle', hoptions'']
  exact Iff.rfl

end Monitor

/-- The wakeups come at non-decreasing times, none before `t`. -/
def Clocked (t : ℕ) (wakeups : List Wakeup) : Prop :=
  Machine.Timed id t (wakeups.flatMap Wakeup.readings)

instance (t : ℕ) (wakeups : List Wakeup) : Decidable (Clocked t wakeups) :=
  inferInstanceAs (Decidable (Machine.Timed ..))

theorem clocked_cons {t : ℕ} {w : Wakeup} {wakeups : List Wakeup} :
    Clocked t (w :: wakeups) ↔ t ≤ w.after ∧ w.after ≤ w.reloadAt ∧ w.reloadAt ≤ w.now ∧
      w.now ≤ w.publishAt ∧ Clocked w.publishAt wakeups := by
  simp only [Clocked, Machine.Timed, Wakeup.readings, List.flatMap_cons, List.map_id,
    ← List.isChain_iff_pairwise, List.cons_append, List.nil_append, List.isChain_cons_cons]

theorem Clocked.last {t : ℕ} {wakeups : List Wakeup} {w : Wakeup} (h : Clocked t (wakeups ++ [w])) :
    w.after ≤ w.reloadAt ∧ w.reloadAt ≤ w.now ∧ w.now ≤ w.publishAt := by
  induction wakeups generalizing t with
  | nil =>
    obtain ⟨-, hreload, htick, hpublish, -⟩ := clocked_cons.mp h
    exact ⟨hreload, htick, hpublish⟩
  | cons v rest ih => exact ih (clocked_cons.mp h).2.2.2.2

theorem idleSinceUs_dispatch (m : Monitor) (w : Wakeup) : (m.dispatch w).idleSinceUs = m.idleSinceUs := by
  have hbare := Monitor.bare_handleResolutions w.after { m with
    configDirty := m.configDirty || w.configChanged, running := m.running && !w.shutdown } w.resolutions
  have hidle := congrArg Monitor.idleSinceUs hbare
  exact hidle

/-- What the loop keeps about the clock: no probe and no idle period is from the future. -/
structure Steady (t : ℕ) (m : Monitor) : Prop where
  queued : ∀ p ∈ m.probers, Queued t p
  idle : m.idleSinceUs ≤ t

namespace Steady
variable {t : ℕ} {m : Monitor} (numeric : Bytes → Option Endpoint) {w : Wakeup}

theorem later {t' : ℕ} (h : Steady t m) (hle : t ≤ t') : Steady t' m :=
  ⟨fun p hp => queued_rule.later t t' p hle (h.queued p hp), h.idle.trans hle⟩

/-- Up to `tick`. -/
theorem attend (h : Steady w.after m) (hreload : w.after ≤ w.reloadAt) :
    Steady w.reloadAt ((m.dispatch w).attend numeric w) ∧
      ((m.dispatch w).attend numeric w).idleSinceUs = m.idleSinceUs := by
  have hidle : ((m.dispatch w).handleReplies w.after w.io w.replies).idleSinceUs = m.idleSinceUs :=
    (congrArg Monitor.idleSinceUs (Monitor.bare_handleReplies ..)).trans (idleSinceUs_dispatch m w)
  have hwoken : ∀ p ∈ (m.dispatch w).probers, Queued w.after p :=
    queued_rule.handleResolutions (m := { m with
      configDirty := m.configDirty || w.configChanged, running := m.running && !w.shutdown }) h.queued
      w.resolutions
  have hreplied := queued_rule.handleReplies hwoken w.io w.replies
  have hlater : ∀ p ∈ ((m.dispatch w).handleReplies w.after w.io w.replies).probers, Queued w.reloadAt p :=
    fun p hp => queued_rule.later _ _ p hreload (hreplied p hp)
  unfold Monitor.attend
  dsimp only
  split_ifs
  · exact ⟨⟨queued_rule.reloadClients hlater numeric w.directory, hidle.trans_le (h.idle.trans hreload)⟩,
      hidle⟩
  · exact ⟨⟨hlater, hidle.trans_le (h.idle.trans hreload)⟩, hidle⟩

/-- From `tick` on. -/
theorem serve (h : Steady w.now m) (hidle : m.idleSinceUs ≤ w.after) (htick : w.after ≤ w.now)
    (hpublish : w.now ≤ w.publishAt) : Steady w.publishAt (m.serve w) := by
  unfold Monitor.serve
  dsimp only
  constructor
  · rw [(Monitor.quiet_publish ..).2, (Monitor.quiet_noteIdle ..).2, (Monitor.quiet_dropExpiredClients ..).2]
    intro p hp
    obtain ⟨q, hq, b, -, rfl⟩ :=
      exists_of_mem_mapAccum (fun _ => True) m.probers (fun _ _ _ _ => trivial) trivial hp
    exact queued_rule.later _ _ _ hpublish ((queued_rule.tickRule _).tickProber _ _ _ _ (h.queued q hq))
  · rw [(Monitor.rest_publish ..).2.2.2]
    have hnote : ∀ m' : Monitor, m'.idleSinceUs ≤ w.after → (m'.noteIdle w.after).idleSinceUs ≤ w.after := by
      intro m' hm'
      unfold Monitor.noteIdle
      split_ifs
      · exact le_rfl
      · exact hm'
      · exact Nat.zero_le w.after
    refine (hnote _ ?_).trans (htick.trans hpublish)
    rw [(Monitor.rest_dropExpiredClients ..).2]
    exact hidle

theorem step (h : Steady w.after m) (hreload : w.after ≤ w.reloadAt) (htick : w.reloadAt ≤ w.now)
    (hpublish : w.now ≤ w.publishAt) : Steady w.publishAt ((loop numeric).step m w) := by
  change Steady w.publishAt (if m.running then m.iterate numeric w else m)
  obtain ⟨hattended, hidle⟩ := h.attend numeric hreload
  unfold Monitor.iterate
  dsimp only
  split_ifs
  · exact (hattended.later htick).serve (hidle.le.trans h.idle) (hreload.trans htick) hpublish
  · refine later ⟨?_, ?_⟩ (hreload.trans (htick.trans hpublish))
    · exact queued_rule.handleResolutions (m := { m with
        configDirty := m.configDirty || w.configChanged, running := m.running && !w.shutdown }) h.queued
        w.resolutions
    · exact (idleSinceUs_dispatch m w).trans_le h.idle
  · exact h.later (hreload.trans (htick.trans hpublish))

theorem run {wakeups : List Wakeup} (h : Steady t m) (hclock : Clocked t (wakeups ++ [w])) :
    Steady w.after ((loop numeric).run m wakeups) := by
  induction wakeups generalizing t m with
  | nil => exact h.later (clocked_cons.mp hclock).1
  | cons v rest ih =>
    obtain ⟨hafter, hreload, htick, hpublish, hrest⟩ := clocked_cons.mp hclock
    exact ih ((h.later hafter).step numeric hreload htick hpublish) hrest

end Steady

/-- In every run of the loop, a trip that does not end it leaves nothing due behind exactly if,
when it reaches `tick`, no prober with a full queue has its next send at or before the
trip's own time, and the idle deadline fits a time. -/
theorem never_spins_iff (numeric : Bytes → Option Endpoint) (options : Options)
    (socket4 socket6 : IcmpSocket) (cookie startedRealUs reloadAt publishAt enteredAt : ℕ)
    (directory : Directory) (wakeups : List Wakeup) (w : Wakeup) (hstart : reloadAt ≤ enteredAt)
    (hclock : Clocked enteredAt (wakeups ++ [w])) (hrange : w.publishAt < 2 ^ 63) :
    let m := (loop numeric).run
      ((Monitor.initial options socket4 socket6 cookie startedRealUs).start numeric reloadAt publishAt
        enteredAt directory) wakeups
    let reached := (m.dispatch w).attend numeric w
    (m.iterate numeric w).running = true →
      (w.after < (m.iterate numeric w).nextDeadline ↔
        (∀ p ∈ reached.probers, p.maxInFlight ≤ (p.unexpired w.now).length → w.after < p.nextSendUs) ∧
          (reached.probers = [] → reached.idleSince w.after + reached.options.idleExitUs < 2 ^ 64)) := by
  intro m reached hrunning
  have hsteady : Steady w.after m := by
    refine Steady.run (t := enteredAt) numeric ⟨?_, le_rfl⟩ hclock
    intro p hp
    change p ∈ (Monitor.publish _ publishAt true).probers at hp
    rw [(Monitor.quiet_publish ..).2] at hp
    exact queued_rule.later _ _ p hstart (queued_rule.reloadClients
      (fun _ h => absurd h (by simp [Monitor.initial])) numeric directory p hp)
  obtain ⟨hreload, htick, hpublish⟩ := hclock.last
  obtain ⟨hattended, hidle⟩ := hsteady.attend numeric hreload
  have hserved : m.iterate numeric w = reached.serve w := by
    unfold Monitor.iterate at hrunning ⊢
    dsimp only at hrunning ⊢
    split_ifs at hrunning ⊢ with hwoken
    · rfl
    · exact absurd hrunning hwoken
  rw [hserved] at hrunning ⊢
  refine Monitor.lt_nextDeadline_serve reached (hreload.trans htick) hpublish hrange (fun p hp => ?_)
    (hidle.le.trans hsteady.idle) hrunning
  have hinterval := (hattended.queued p hp).clamped.interval_ge
  have htimeout := (hattended.queued p hp).clamped.timeout_ge
  omega

/-- A host that never answers, probed once a second and given up after three: the fourth send
makes room for itself. -/
theorem never_spins_iff_run :
    let host : Endpoint := ⟨.inet, ⟨.inet, [192, 0, 2, 1]⟩, 16, ascii "192.0.2.1"⟩
    let directory : Directory := ⟨[⟨ascii "w.json", some (.object [(ascii "destinations",
      .array [.object [(ascii "address", .string (ascii "192.0.2.1"))]])])⟩], by decide⟩
    let trip : ℕ → Wakeup := fun t =>
      ⟨t, t, t, t, false, false, [], [], directory, ⟨fun _ => .sent, fun _ => 0⟩, 0, fun _ => none⟩
    let m := (loop fun _ => some host).run
      ((Monitor.initial ⟨[], 1000000, 0, 0, 50, by decide, by decide⟩ ⟨true, false, []⟩ ⟨true, false, []⟩
        5 0).start (fun _ => some host) 1000 1000 1000 directory) [trip 1000, trip 1001000, trip 2001000]
    3001000 < (m.iterate (fun _ => some host) (trip 3001000)).nextDeadline := by
  intro host directory trip m
  exact (never_spins_iff (fun _ => some host) ⟨[], 1000000, 0, 0, 50, by decide, by decide⟩
    ⟨true, false, []⟩ ⟨true, false, []⟩ 5 0 1000 1000 1000 directory
    [trip 1000, trip 1001000, trip 2001000] (trip 3001000) (by decide) (by decide) (by decide)
    (by decide +kernel)).mpr ⟨by decide +kernel, by decide +kernel⟩

/-- A host that never answers, probed every 100 ms and given up after a minute: with eight
probes in flight the next send is due and held back, and so is every trip's deadline. -/
theorem spins_on_full_queue :
    let host : Endpoint := ⟨.inet, ⟨.inet, [192, 0, 2, 1]⟩, 16, ascii "192.0.2.1"⟩
    let directory : Directory := ⟨[⟨ascii "w.json", some (.object [(ascii "interval_ms", .number 100),
      (ascii "timeout_ms", .number 60000), (ascii "destinations",
        .array [.object [(ascii "address", .string (ascii "192.0.2.1"))]])])⟩], by decide⟩
    let trip : ℕ → Wakeup := fun t =>
      ⟨t, t, t, t, false, false, [], [], directory, ⟨fun _ => .sent, fun _ => 0⟩, 0, fun _ => none⟩
    let wakeups := (List.range 8).map fun k => trip (1000 + 100000 * k)
    let m := (loop fun _ => some host).run
      ((Monitor.initial ⟨[], 1000000, 0, 0, 50, by decide, by decide⟩ ⟨true, false, []⟩ ⟨true, false, []⟩
        5 0).start (fun _ => some host) 1000 1000 1000 directory) wakeups
    let after := m.iterate (fun _ => some host) (trip 801000)
    Clocked 1000 (wakeups ++ [trip 801000]) ∧ after.running = true ∧ after.nextDeadline = 801000 ∧
      ¬ 801000 < after.nextDeadline := by
  decide +kernel

end NetworkHealth.Daemon
