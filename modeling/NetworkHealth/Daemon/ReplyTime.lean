import NetworkHealth.Daemon.LostVerdict

/-! Whether an answer came in time. Replies are handled before probes are given up, so a reply
that the loop gets to late still finds its probe in flight. -/
namespace NetworkHealth.Daemon

/-- The reply completes probe `q` of the prober at `i`, if nothing before it has. -/
structure Completes (m : Monitor) (reply : Datagram) (i : ℕ) (p : Prober) (q : InFlight) : Prop where
  cookie : reply.cookie = m.cookie
  prober : m.proberOf reply.uid = some (i, p)
  probe : p.probe reply.seq = some q
  source : p.endpoint.isFrom reply.source reply.sourceLen = true

/-- Every sample that was received took no longer than the maximum wait. -/
def InWait (p : Prober) : Prop :=
  ∀ rttUs t, .sample true rttUs t ∈ p.history → rttUs ≤ p.timeoutUs

/-- A tick gives up only probes that were sent their maximum wait before, less the slack. -/
def GivesUpInTime (m : Monitor) (event : Event) : Prop :=
  ∀ io, event.handler = .tick io → ∀ (i : ℕ) (p p' : Prober), m.probers[i]? = some p →
    (m.tick event.now io).probers[i]? = some p' → ∀ q ∈ p.inFlight, q ∉ p'.inFlight →
      q.sentUs + p.timeoutUs ≤ event.now + kSendSlackUs

/-- The peers echo the payload: a reply carries the time at which the probe it completes was sent. -/
def Echoing (m : Monitor) (event : Event) : Prop :=
  ∀ io replies, event.handler = .handleReplies io replies → ∀ reply ∈ replies,
    ∀ i p q, Completes m reply i p q → reply.sentUs = q.sentUs

/-- The replies are handled before the maximum wait of the probes they complete is over. -/
def HandledInTime (m : Monitor) (event : Event) : Prop :=
  ∀ io replies, event.handler = .handleReplies io replies → ∀ reply ∈ replies,
    ∀ i p q, Completes m reply i p q → event.now ≤ q.deadlineUs

/-- The probe that a reply completes can be looked up. -/
theorem Completes.found {m : Monitor} {reply : Datagram} {i : ℕ} {p : Prober} {q : InFlight}
    (h : Completes m reply i p q) : (m.proberOf reply.uid).bind (·.2.probe reply.seq) = some q := by
  rw [h.prober]
  exact h.probe

namespace Monitor
variable {m : Monitor} {reply : Datagram} {i : ℕ} {p : Prober} {q : InFlight}

theorem handleReply_of_completes (h : Completes m reply i p q) (now : ℕ) (io : Io) :
    (m.handleReply now io reply).proberByUid = m.proberByUid ∧
      (m.handleReply now io reply).cookie = m.cookie ∧ (m.handleReply now io reply).probers =
        m.probers.set i ((p.answer reply.seq now).count true (now - reply.sentUs) now) := by
  unfold handleReply
  rw [if_neg (not_not.mpr h.cookie), h.prober]
  dsimp only
  rw [h.probe, h.source]
  exact ⟨rfl, rfl, rfl⟩

theorem handleReply_of_not_completes (h : ∀ i p q, ¬ Completes m reply i p q) (now : ℕ) (io : Io) :
    m.handleReply now io reply = m := by
  obtain he | ⟨i, p, q, hprober, hprobe, hsource, hcookie, -⟩ := m.handleReply_cases io now reply
  · exact he
  · exact absurd ⟨hcookie, hprober, hprobe, hsource⟩ (h i p q)

/-- What a reply leaves of the prober at an index: it adds to the history. -/
theorem extends_handleReply (hp : m.probers[i]? = some p) (now : ℕ) (io : Io) (reply : Datagram) :
    ∃ p', (m.handleReply now io reply).probers[i]? = some p' ∧ p.history ⊆ p'.history ∧
      p'.timeoutUs = p.timeoutUs := by
  by_cases hcompletes : ∃ j r q, Completes m reply j r q
  · obtain ⟨j, r, q, h⟩ := hcompletes
    rw [(handleReply_of_completes h now io).2.2]
    have hr := (proberOf_eq_some.mp h.prober).2
    by_cases hij : j = i
    · subst hij
      obtain rfl : r = p := Option.some.inj (hr.symm.trans hp)
      refine ⟨_, List.getElem?_set_self (List.getElem?_eq_some_iff.mp hr).1, ?_, rfl⟩
      exact fun event hevent => List.mem_cons_of_mem _ (List.mem_cons_of_mem _ hevent)
    · exact ⟨p, by rw [List.getElem?_set_ne hij, hp], List.Subset.refl _, rfl⟩
  · rw [handleReply_of_not_completes (by simpa using hcompletes) now io]
    exact ⟨p, hp, List.Subset.refl _, rfl⟩

theorem extends_handleReplies (hp : m.probers[i]? = some p) (now : ℕ) (io : Io) (replies : List Datagram) :
    ∃ p', (m.handleReplies now io replies).probers[i]? = some p' ∧ p.history ⊆ p'.history ∧
      p'.timeoutUs = p.timeoutUs := by
  refine Machine.foldl_keeps (f := handleReply now io) (fun m' : Monitor => ∃ p',
    m'.probers[i]? = some p' ∧ p.history ⊆ p'.history ∧ p'.timeoutUs = p.timeoutUs) ?_
    ⟨p, hp, List.Subset.refl _, rfl⟩ replies
  rintro m' reply ⟨p', hp', hhistory, htimeout⟩
  obtain ⟨p'', hp'', hhistory', htimeout'⟩ := extends_handleReply hp' now io reply
  exact ⟨p'', hp'', List.Subset.trans hhistory hhistory', htimeout'.trans htimeout⟩

end Monitor

section Batch
variable {m : Monitor} {reply other : Datagram} {i j : ℕ} {p r : Prober} {q x : InFlight}

/-- The prober at `i` once its probe has been answered. -/
def Prober.afterReply (p : Prober) (reply : Datagram) (now : ℕ) : Prober :=
  (p.answer reply.seq now).count true (now - reply.sentUs) now

theorem sublist_afterReply (p : Prober) (reply : Datagram) (now : ℕ) :
    (p.afterReply reply now).inFlight.Sublist p.inFlight := List.eraseP_sublist

theorem inWait_afterReply (h : InWait p) (now : ℕ) :
    InWait (p.afterReply reply now) ↔ now - reply.sentUs ≤ p.timeoutUs := by
  constructor
  · exact fun hafter => hafter _ now List.mem_cons_self
  · intro hrtt rttUs t hmem
    simp only [Prober.afterReply, Prober.count, Prober.answer, Prober.log, List.mem_cons, reduceCtorEq,
      ProberEvent.sample.injEq, true_and, false_or] at hmem
    obtain ⟨rfl, -⟩ | hmem := hmem
    · exact hrtt
    · exact h rttUs t hmem

/-- What a later reply of the batch completes, it would have completed before. -/
theorem Completes.before (hdistinct : ∀ p ∈ m.probers, p.inFlight.Pairwise (·.seq ≠ ·.seq))
    (h : Completes m reply i p q) {now : ℕ} {io : Io}
    (hother : Completes (m.handleReply now io reply) other j r x) :
    ∃ r', Completes m other j r' x := by
  obtain ⟨htable, hcookie, hprobers⟩ := Monitor.handleReply_of_completes h now io
  obtain ⟨hlookup, hr⟩ := Monitor.proberOf_eq_some.mp hother.prober
  rw [htable] at hlookup
  rw [hprobers] at hr
  have hp := (Monitor.proberOf_eq_some.mp h.prober).2
  by_cases hij : i = j
  · subst hij
    rw [List.getElem?_set_self (List.getElem?_eq_some_iff.mp hp).1] at hr
    obtain rfl := Option.some.inj hr
    obtain ⟨hseq, before, after, hsplit, -⟩ := exists_of_probe hother.probe
    have hx : x ∈ p.inFlight :=
      (sublist_afterReply p reply now).subset (show x ∈ (p.afterReply reply now).inFlight by
        rw [Prober.afterReply, hsplit]
        simp)
    refine ⟨p, hother.cookie.trans hcookie, Monitor.proberOf_eq_some.mpr ⟨hlookup, hp⟩, ?_, hother.source⟩
    rw [← hseq]
    exact probe_of_mem (hdistinct p (List.mem_of_getElem? hp)) hx
  · rw [List.getElem?_set_ne hij] at hr
    exact ⟨r, hother.cookie.trans hcookie, Monitor.proberOf_eq_some.mpr ⟨hlookup, hr⟩, hother.probe, hother.source⟩

/-- What a reply would complete, it still does after another reply, unless that one has
completed the same probe. -/
theorem Completes.after (hdistinct : ∀ p ∈ m.probers, p.inFlight.Pairwise (·.seq ≠ ·.seq))
    (h : Completes m reply i p q) (hother : Completes m other j r x) (now : ℕ) (io : Io) :
    x = q ∨ ∃ r', Completes (m.handleReply now io reply) other j r' x := by
  obtain ⟨htable, hcookie, hprobers⟩ := Monitor.handleReply_of_completes h now io
  obtain ⟨hlookup, hr⟩ := Monitor.proberOf_eq_some.mp hother.prober
  have hp := (Monitor.proberOf_eq_some.mp h.prober).2
  by_cases hsame : x = q
  · exact Or.inl hsame
  refine Or.inr ?_
  by_cases hij : i = j
  · subst hij
    obtain rfl : r = p := Option.some.inj (hr.symm.trans hp)
    have hdistinct' := hdistinct r (List.mem_of_getElem? hr)
    obtain ⟨hseq, before, after, hsplit, -⟩ := exists_of_probe hother.probe
    have hanswered := answered_of_probe h.probe (now - reply.sentUs) now
    have hx : x ∈ (r.afterReply reply now).inFlight := by
      change x ∈ ((r.answer reply.seq now).count true _ now).inFlight
      rw [hanswered.inFlight]
      exact (List.mem_erase_of_ne hsame).mpr (by rw [hsplit]; simp)
    refine ⟨r.afterReply reply now, hother.cookie.trans hcookie.symm,
      Monitor.proberOf_eq_some.mpr ⟨htable ▸ hlookup, ?_⟩, ?_, hother.source⟩
    · rw [hprobers, List.getElem?_set_self (List.getElem?_eq_some_iff.mp hp).1]
      rfl
    · rw [← hseq]
      exact probe_of_mem (hdistinct'.sublist (sublist_afterReply r reply now)) hx
  · refine ⟨r, hother.cookie.trans hcookie.symm, Monitor.proberOf_eq_some.mpr ⟨htable ▸ hlookup, ?_⟩,
      hother.probe, hother.source⟩
    rw [hprobers, List.getElem?_set_ne hij, hr]

/-- What holds of the probe completed holds of all that the batch completes, if it holds of those
that the rest of the batch still does. -/
theorem Completes.forall_rest_iff (hdistinct : ∀ p ∈ m.probers, p.inFlight.Pairwise (·.seq ≠ ·.seq))
    (h : Completes m reply i p q) {P : InFlight → Prop} (hq : P q) (now : ℕ) (io : Io)
    (rest : List Datagram) :
    (∀ other ∈ rest, ∀ j r x, Completes (m.handleReply now io reply) other j r x → P x) ↔
      (∀ j r x, Completes m reply j r x → P x) ∧
        ∀ other ∈ rest, ∀ j r x, Completes m other j r x → P x := by
  constructor
  · refine fun hrest => ⟨fun j r x hx => ?_, fun other hother j r x hx => ?_⟩
    · obtain ⟨-, rfl⟩ := Prod.mk.inj (Option.some.inj (h.prober.symm.trans hx.prober))
      obtain rfl := Option.some.inj (h.probe.symm.trans hx.probe)
      exact hq
    · obtain rfl | ⟨r', hr'⟩ := h.after hdistinct hx now io
      · exact hq
      · exact hrest other hother j r' x hr'
  · intro hall other hother j r x hx
    obtain ⟨r', hr'⟩ := h.before hdistinct hx
    exact hall.2 other hother j r' x hr'

/-- A batch of echoed replies keeps received samples within the maximum wait exactly if each
reply of it is handled in time. -/
theorem inWait_handleReplies_iff (now : ℕ) (io : Io) (replies : List Datagram)
    (hdistinct : ∀ p ∈ m.probers, p.inFlight.Pairwise (·.seq ≠ ·.seq))
    (hdeadline : ∀ p ∈ m.probers, ∀ q ∈ p.inFlight, q.deadlineUs = q.sentUs + p.timeoutUs)
    (hwait : ∀ p ∈ m.probers, InWait p)
    (hecho : ∀ reply ∈ replies, ∀ i p q, Completes m reply i p q → reply.sentUs = q.sentUs) :
    (∀ p ∈ (m.handleReplies now io replies).probers, InWait p) ↔
      ∀ reply ∈ replies, ∀ i p q, Completes m reply i p q → now ≤ q.deadlineUs := by
  induction replies generalizing m with
  | nil => exact iff_of_true hwait (by simp)
  | cons reply rest ih =>
    change (∀ p ∈ ((m.handleReply now io reply).handleReplies now io rest).probers, InWait p) ↔ _
    rw [List.forall_mem_cons]
    by_cases hcompletes : ∃ i p q, Completes m reply i p q
    · obtain ⟨i, p, q, h⟩ := hcompletes
      have hi := (Monitor.proberOf_eq_some.mp h.prober).2
      have hp := List.mem_of_getElem? hi
      have hq : q ∈ p.inFlight := List.mem_of_find?_eq_some h.probe
      have hprobers := (Monitor.handleReply_of_completes h now io).2.2
      have hin : InWait (p.afterReply reply now) ↔ now ≤ q.deadlineUs := by
        rw [inWait_afterReply (hwait p hp), hecho reply (by simp) i p q h, hdeadline p hp q hq]
        omega
      have hwhole : ∀ {Inv : Prober → Prop}, (∀ p ∈ m.probers, Inv p) → Inv (p.afterReply reply now) →
          ∀ p ∈ (m.handleReply now io reply).probers, Inv p := by
        intro Inv hall hnew p' hp'
        rw [hprobers] at hp'
        obtain hp' | rfl := List.mem_or_eq_of_mem_set hp'
        · exact hall p' hp'
        · exact hnew
      by_cases htime : now ≤ q.deadlineUs
      · rw [ih (hwhole hdistinct ((hdistinct p hp).sublist (sublist_afterReply p reply now)))
          (hwhole hdeadline fun q hq => hdeadline p hp q ((sublist_afterReply p reply now).subset hq))
          (hwhole hwait (hin.mpr htime)) ?_]
        · exact h.forall_rest_iff hdistinct (P := fun x => now ≤ x.deadlineUs) htime now io rest
        · intro other hother j r x hx
          obtain ⟨r', hr'⟩ := h.before hdistinct hx
          exact hecho other (by simp [hother]) j r' x hr'
      · refine iff_of_false (fun hall => ?_) fun hall => htime (hall.1 i p q h)
        obtain ⟨p', hp', hhistory, htimeout⟩ := Monitor.extends_handleReplies
          (m := m.handleReply now io reply) (i := i) (p := p.afterReply reply now)
          (by rw [hprobers]; exact List.getElem?_set_self (List.getElem?_eq_some_iff.mp hi).1) now io rest
        refine htime (hin.mp fun rttUs t hsample => ?_)
        rw [← htimeout]
        exact hall p' (List.mem_of_getElem? hp') rttUs t (hhistory hsample)
    · rw [Monitor.handleReply_of_not_completes (by simpa using hcompletes) now io,
        ih hdistinct hdeadline hwait fun other hother => hecho other (by simp [hother])]
      exact (and_iff_right fun i p q h => absurd ⟨i, p, q, h⟩ hcompletes).symm

end Batch

theorem inWait_tick (now : ℕ) : TickRule now InWait where
  gaveUp p oldest rest h _ _ rttUs t hmem := by
    refine h rttUs t ?_
    simpa [Prober.count, Prober.giveUp, Prober.log] using hmem
  asked _ h := h
  sent p p' h _ _ _ houtcome := by
    cases houtcome <;> intro rttUs t hmem <;> refine h rttUs t ?_ <;>
      simpa [Prober.advance, Prober.count, Prober.refuse, Prober.launched, Prober.numbered, Prober.log] using hmem

theorem inWait_step_iff (numeric : Bytes → Option Endpoint) {t : ℕ} {m : Monitor}
    (hqueued : ∀ p ∈ m.probers, Queued t p) (hwait : ∀ p ∈ m.probers, InWait p) {event : Event}
    (hecho : Echoing m event) :
    (∀ p ∈ (m.step numeric event).probers, InWait p) ↔ HandledInTime m event := by
  obtain ⟨now, handler⟩ := event
  by_cases hreplies : ∃ io replies, handler = .handleReplies io replies
  · obtain ⟨io, replies, rfl⟩ := hreplies
    have hiff := inWait_handleReplies_iff now io replies (fun p hp => (hqueued p hp).distinct)
      (fun p hp q hq => ((hqueued p hp).deadline q hq).1) hwait (hecho io replies rfl)
    refine hiff.trans ⟨?_, fun h => h io replies rfl⟩
    rintro h io' replies' he
    cases he
    exact h
  · refine iff_of_true ?_ fun io replies he => absurd ⟨io, replies, he⟩ hreplies
    by_cases htick : ∃ io, handler = .tick io
    · obtain ⟨io, rfl⟩ := htick
      exact (inWait_tick now).tick hwait io
    · intro p hp
      obtain ⟨q, hq, he⟩ | ⟨uid, host, intervalUs, timeoutUs, he⟩ := view_step InWait numeric m
        ⟨now, handler⟩ (by simpa using htick) (fun _ _ _ => rfl)
        (fun io replies he => absurd ⟨io, replies, he⟩ hreplies)
        (fun _ _ p now result => by unfold Prober.resolve; split_ifs <;> rfl) p hp <;> rw [he]
      · exact hwait q hq
      · exact fun _ _ hmem => absurd hmem List.not_mem_nil

/-- What is in flight before a tick of its prober and not after it was due. -/
theorem due_of_notMem_tickProber (socket4 socket6 : IcmpSocket) (io : Io) (now : ℕ) (b : Board) {p : Prober}
    {q : InFlight} (hq : q ∈ p.inFlight)
    (hgone : q ∉ (tickProber socket4 socket6 io now b p).2.inFlight) : q.deadlineUs ≤ now + kSendSlackUs := by
  have hkept : ∀ x ∈ p.unexpired now, x ∈ (tickProber socket4 socket6 io now b p).2.inFlight := by
    obtain ⟨-, hqueue, -⟩ := asked_fields io now b p
    unfold tickProber sendDue
    dsimp only
    generalize requestLookup now _ _ = asked at *
    rw [← hqueue]
    split_ifs
    · obtain ⟨he, -⟩ | ⟨he, -⟩ :=
        inFlight_of_sendOutcome (sendOutcome_sendProbe socket4 socket6 io now asked.1 asked.2)
      · exact fun x hx => he ▸ hx
      · exact fun x hx => he ▸ List.mem_append_left _ hx
    · exact fun x hx => hx
  have hsplit := List.takeWhile_append_dropWhile (p := fun q : InFlight => decide (q.deadlineUs ≤ now + kSendSlackUs))
    (l := p.inFlight)
  rw [← hsplit] at hq
  obtain hdue | hlater := List.mem_append.mp hq
  · simpa using List.mem_takeWhile_imp hdue
  · exact absurd (hkept q hlater) hgone

/-- Along every run at non-decreasing times whose replies are echoes: received samples keep to
the maximum wait in all states exactly if every reply is handled before the wait of its probe is
over; and what is given up has always waited. -/
theorem answered_inside_wait_iff (numeric : Bytes → Option Endpoint) (options : Options)
    (socket4 socket6 : IcmpSocket) (cookie startedRealUs : ℕ) (events : List Event)
    (hevents : Machine.Timed Event.now 0 events)
    (hecho : (handlers numeric).Admits Echoing (.initial options socket4 socket6 cookie startedRealUs) events) :
    let initial : Monitor := .initial options socket4 socket6 cookie startedRealUs
    ((handlers numeric).Admits (fun m event => ∀ p ∈ (m.step numeric event).probers, InWait p) initial events ↔
      (handlers numeric).Admits HandledInTime initial events) ∧
    (handlers numeric).Admits GivesUpInTime initial events := by
  intro initial
  have hempty : ∀ {P : Prober → Prop}, ∀ p ∈ initial.probers, P p := fun _ h => absurd h List.not_mem_nil
  constructor
  · refine Machine.admits_congr_timed Event.now
      (fun t m => (∀ p ∈ m.probers, Queued t p) ∧ ∀ p ∈ m.probers, InWait p)
      (fun t m event h _ hecho => inWait_step_iff numeric h.1 h.2 hecho) (fun t m event h ht _ hwait => ?_)
      ⟨hempty, hempty⟩ hevents hecho
    exact ⟨queued_rule.step numeric event h.1 ht, hwait⟩
  · refine Machine.admits_of_invariant (fun m : Monitor => ∀ p ∈ m.probers, ∀ q ∈ p.inFlight,
      q.deadlineUs = q.sentUs + p.timeoutUs) (fun m event h => ?_)
      (fun m event h => deadline_rule.step numeric event h (Nat.zero_le _)) hempty events
    intro io htick i p p' hp hp' q hq hgone
    obtain ⟨b, hb⟩ := Monitor.getElem?_tick hp event.now io
    obtain rfl := Option.some.inj (hp'.symm.trans hb)
    rw [← h p (List.mem_of_getElem? hp) q hq]
    exact due_of_notMem_tickProber m.socket4 m.socket6 io event.now b hq hgone

/-- An answer within the maximum wait of 50 ms. -/
theorem answered_inside_wait_iff_run :
    let directory : Directory := ⟨[⟨ascii "w.json", some (.object [(ascii "timeout_ms", .number 50),
      (ascii "destinations", .array [.object [(ascii "address", .string (ascii "192.0.2.1"))]])])⟩], by decide⟩
    let router : Endpoint := ⟨.inet, ⟨.inet, [192, 0, 2, 1]⟩, 16, ascii "192.0.2.1"⟩
    let io : Io := ⟨fun _ => .sent, fun _ => 0⟩
    let m := (handlers fun _ => some router).run
      (.initial ⟨[], 1000000, 0, 0, 50, by decide, by decide⟩ ⟨true, false, []⟩ ⟨true, false, []⟩ 5 0)
      [⟨1000, .reloadClients directory⟩, ⟨1000, .tick io⟩]
    let after := m.step (fun _ => some router) ⟨1400, .handleReplies io [⟨5, 1, 1, 1000, router.addr, 16⟩]⟩
    after.probers.map Prober.received = [1] ∧ ∀ p ∈ after.probers, InWait p := by
  intro directory router io m after
  let reply : Datagram := ⟨5, 1, 1, 1000, router.addr, 16⟩
  have hprobe : (m.proberOf 1).bind (·.2.probe 1) = some ⟨1, 1000, 51000⟩ := by decide +kernel
  have hfound : ∀ i p q, Completes m reply i p q → q = ⟨1, 1000, 51000⟩ := fun i p q h =>
    Option.some.inj (h.found.symm.trans hprobe)
  have hquiet : ∀ {now : ℕ} {handler : Handler} (m : Monitor), (∀ io rs, handler ≠ .handleReplies io rs) →
      Echoing m ⟨now, handler⟩ ∧ HandledInTime m ⟨now, handler⟩ := fun m hne =>
    ⟨fun io rs he => absurd he (hne io rs), fun io rs he => absurd he (hne io rs)⟩
  have hadmits := (answered_inside_wait_iff (fun _ => some router)
    ⟨[], 1000000, 0, 0, 50, by decide, by decide⟩ ⟨true, false, []⟩ ⟨true, false, []⟩ 5 0
    ([⟨1000, .reloadClients directory⟩, ⟨1000, .tick io⟩] ++ [⟨1400, .handleReplies io [reply]⟩])
    (by decide) ?_).1.mpr ?_
  · exact ⟨by decide +kernel, (Machine.admits_append.mp hadmits).2.1⟩
  · refine Machine.admits_append.mpr ⟨⟨(hquiet _ (by simp)).1, (hquiet _ (by simp)).1, trivial⟩, ?_, trivial⟩
    rintro io' rs he other hother i p q h
    cases he
    obtain rfl := List.mem_singleton.mp hother
    rw [hfound i p q h]
  · refine Machine.admits_append.mpr ⟨⟨(hquiet _ (by simp)).2, (hquiet _ (by simp)).2, trivial⟩, ?_, trivial⟩
    rintro io' rs he other hother i p q h
    cases he
    obtain rfl := List.mem_singleton.mp hother
    rw [hfound i p q h]
    decide

/-- The loop is held up: an answer that it gets to after 60 ms still counts, with a maximum wait
of 50 ms. -/
theorem answered_late :
    let directory : Directory := ⟨[⟨ascii "w.json", some (.object [(ascii "timeout_ms", .number 50),
      (ascii "destinations", .array [.object [(ascii "address", .string (ascii "192.0.2.1"))]])])⟩], by decide⟩
    let router : Endpoint := ⟨.inet, ⟨.inet, [192, 0, 2, 1]⟩, 16, ascii "192.0.2.1"⟩
    let io : Io := ⟨fun _ => .sent, fun _ => 0⟩
    let m := (handlers fun _ => some router).run
      (.initial ⟨[], 1000000, 0, 0, 50, by decide, by decide⟩ ⟨true, false, []⟩ ⟨true, false, []⟩ 5 0)
      [⟨1000, .reloadClients directory⟩, ⟨1000, .tick io⟩]
    let event : Event := ⟨61000, .handleReplies io [⟨5, 1, 1, 1000, router.addr, 16⟩]⟩
    Echoing m event ∧ (m.step (fun _ => some router) event).probers.map Prober.received = [1] ∧
      ¬ ∀ p ∈ (m.step (fun _ => some router) event).probers, InWait p := by
  intro directory router io m event
  refine ⟨?_, by decide +kernel, fun hwait => ?_⟩
  · have hprobe : (m.proberOf 1).bind (·.2.probe 1) = some ⟨1, 1000, 51000⟩ := by decide +kernel
    rintro io' rs he other hother i p q h
    cases he
    obtain rfl := List.mem_singleton.mp hother
    rw [Option.some.inj (h.found.symm.trans hprobe)]
  · have hlate : ∃ p ∈ (m.step (fun _ => some router) event).probers, p.timeoutUs = 50000 ∧
        .sample true 60000 61000 ∈ p.history := by decide +kernel
    obtain ⟨p, hp, htimeout, hsample⟩ := hlate
    have hle := hwait p hp _ _ hsample
    omega

end NetworkHealth.Daemon
