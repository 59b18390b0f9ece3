import NetworkHealth.Daemon.Reload
import NetworkHealth.Daemon.Resolver

/-! Where the lookups are. A prober that has asked for one is owed exactly one answer, which is
asked for, being worked on, handed in or about to be handled, and whatever is handed in wakes the
loop. The uids that tie an answer to its prober are 32 bits wide. -/
namespace NetworkHealth.Daemon

def Worker.uids : Worker → List ℕ
  | .waiting | .signalling => []
  | .resolving request => [request.uid]
  | .resolved result => [result.uid]

def Resolver.uids (r : Resolver) : List ℕ :=
  r.pending.map Request.uid ++ (r.worker.uids ++ r.completed.map Resolution.uid)

def Activity.uids : Activity → List ℕ
  | .handling _ results => results.map Resolution.uid
  | .between | .ticking .. | .collecting _ => []

namespace Process

/-- The uids of all requests and results: pending, being resolved, completed, and collected but
not handled. -/
def lookups (s : Process) : List ℕ := s.resolver.uids ++ s.phase.uids

/-- Every prober that waits is owed one answer, and nobody is owed two. -/
structure Accounted (s : Process) : Prop where
  nodup : s.lookups.Nodup
  owed : ∀ p ∈ s.monitor.probers, p.resolving = true ↔ p.uid ∈ s.lookups
  handedOut : ∀ uid ∈ s.lookups, HandedOut 1 s.monitor.nextUid uid

/-- The eventfd as a doorbell. -/
def door (s : Process) : Doorbell Resolution where
  box := s.resolver.completed
  rings := s.resolver.counter
  aboutToRing := s.resolver.worker = .signalling
  aboutToEmpty := match s.phase with
    | .collecting _ => true
    | _ => false

end Process

/-! ## One prober -/

section Prober
variable (socket4 socket6 : IcmpSocket) (io : Io) (now : ℕ) (b : Board) (p : Prober)

theorem lookups_applySample (received : Bool) (rttUs realNow : ℕ) :
    (applySample b p received rttUs now realNow).1.lookups = b.lookups := by
  refine List.foldlRecOn (motive := fun b' : Board => b'.lookups = b.lookups) p.subscribers _ rfl fun b' hb s _ => ?_
  unfold Board.sampleAt
  split
  · exact hb
  · exact hb

theorem lookups_expire (queue : List InFlight) : (expire io now b p queue).1.lookups = b.lookups := by
  induction queue generalizing b p with
  | nil => rfl
  | cons oldest rest ih =>
    unfold expire
    split_ifs
    · dsimp only
      rw [ih, lookups_applySample]
    · rfl

theorem lookups_sendProbe : (sendProbe socket4 socket6 io now b p).1.lookups = b.lookups := by
  have hrefuse : ∀ p error, (refuse io now b p error).1.lookups = b.lookups := fun p error =>
    lookups_applySample now b _ false 0 _
  unfold sendProbe
  dsimp only
  split
  · exact hrefuse _ _
  · split
    · rfl
    · exact hrefuse _ _
    · exact hrefuse _ _

/-- A tick leaves a prober waiting or not as it was, or it asks for a lookup once. -/
theorem resolving_tickProber :
    let next := tickProber socket4 socket6 io now b p
    next.1.lookups = b.lookups ∧ next.2.resolving = p.resolving ∨
      p.resolving = false ∧ next.1.lookups = b.lookups ++ [⟨p.uid, p.host⟩] ∧ next.2.resolving = true := by
  have hexpired := expire_keeps io now b p (fun q => q.resolving = p.resolving ∧ q.uid = p.uid ∧ q.host = p.host)
    (fun _ _ _ h _ _ => h) ⟨rfl, rfl, rfl⟩
  obtain ⟨hresolving, huid, hhost⟩ := hexpired
  have hlookups := lookups_expire io now b p p.inFlight
  have hsent : ∀ b q, (sendDue socket4 socket6 io now b q).1.lookups = b.lookups ∧
      (sendDue socket4 socket6 io now b q).2.resolving = q.resolving := by
    intro b q
    unfold sendDue
    split_ifs
    · refine ⟨lookups_sendProbe socket4 socket6 io now b q, ?_⟩
      have houtcome := sendOutcome_sendProbe socket4 socket6 io now b q
      dsimp only
      generalize (sendProbe socket4 socket6 io now b q).2 = q' at houtcome
      cases houtcome <;> rfl
    · exact ⟨rfl, rfl⟩
  unfold tickProber
  dsimp only
  rw [(hsent _ _).1, (hsent _ _).2]
  unfold requestLookup
  split_ifs with hasks
  · simp only [Bool.and_eq_true, Bool.not_eq_true', decide_eq_true_eq] at hasks
    refine Or.inr ⟨hresolving.symm.trans hasks.1.2, ?_, rfl⟩
    dsimp only
    rw [hlookups, huid, hhost]
  · exact Or.inl ⟨hlookups, hresolving⟩

theorem resolving_resolve (result : Resolution) : (p.resolve now result).resolving = false := by
  unfold Prober.resolve
  split_ifs <;> rfl

end Prober

/-! ## The resolver -/

namespace Resolver
variable (r : Resolver)

/-- The thread moves a request along and loses none. -/
theorem uids_run (answer : Answer) : (r.run answer).uids.Perm r.uids := by
  obtain ⟨pending, completed, counter, worker⟩ := r
  cases worker with
  | waiting =>
    cases pending with
    | nil => exact .rfl
    | cons request rest => exact List.perm_middle
  | resolving request => exact .rfl
  | resolved result =>
    refine List.Perm.append_left _ ?_
    change ((completed ++ [result]).map Resolution.uid).Perm _
    rw [List.map_append]
    exact List.perm_append_comm
  | signalling => exact .rfl

/-- A request for a uid of which nothing is under way is enqueued. -/
theorem uids_request (request : Request) (h : request.uid ∉ r.uids) :
    (r.request request).uids.Perm (request.uid :: r.uids) := by
  have hnew : (r.pending.any fun pending => pending.uid = request.uid) = false := by
    rw [List.any_eq_false]
    intro pending hpending
    rw [decide_eq_true_eq]
    rintro huid
    exact h (List.mem_append_left _ (List.mem_map.mpr ⟨pending, hpending, huid⟩))
  unfold Resolver.request
  rw [if_neg (by rw [hnew]; exact Bool.false_ne_true)]
  unfold uids
  dsimp only
  rw [List.map_append, List.append_assoc]
  exact List.perm_middle

/-- Asking for something is no business of the door's. -/
theorem door_request (requests : List Request) : (requests.foldl request r).completed = r.completed ∧
    (requests.foldl request r).counter = r.counter ∧ (requests.foldl request r).worker = r.worker := by
  refine Machine.foldl_keeps (f := request) (fun r' : Resolver => r'.completed = r.completed ∧
    r'.counter = r.counter ∧ r'.worker = r.worker) (fun r' request h => ?_) ⟨rfl, rfl, rfl⟩ requests
  unfold Resolver.request
  split_ifs
  · exact h
  · exact h

/-- How many steps the thread has to do before it waits for the next request. -/
def work (r : Resolver) : ℕ :=
  4 * r.pending.length + match r.worker with
    | .waiting => 0
    | .resolving _ => 3
    | .resolved _ => 2
    | .signalling => 1

theorem work_run (answer : Answer) : (r.run answer).work = r.work - 1 := by
  obtain ⟨pending, completed, counter, worker⟩ := r
  cases worker with
  | waiting =>
    cases pending with
    | nil => rfl
    | cons request rest =>
      change 4 * rest.length + 3 = 4 * (rest.length + 1) + 0 - 1
      omega
  | resolving | resolved | signalling => rfl

theorem work_le : r.work ≤ 4 * r.pending.length + 3 := by
  unfold work
  cases r.worker <;> simp

theorem idle_iff : r.work = 0 ↔ r.worker = .waiting ∧ r.pending = [] := by
  unfold work
  cases r.worker <;> simp

end Resolver

/-! ## All of them -/

namespace Monitor
variable {m : Monitor} (hwired : m.WellWired)

/-- A prober is replaced by one with its uid. -/
theorem mem_set_of_uid {i : ℕ} {p p' q : Prober} (hnodup : (m.probers.map Prober.uid).Nodup)
    (hp : m.probers[i]? = some p) (huid : p'.uid = p.uid) (hq : q ∈ m.probers.set i p') :
    q = p' ∨ q ∈ m.probers ∧ q.uid ≠ p.uid := by
  by_cases hsame : q.uid = p.uid
  · left
    have huids : ((m.probers.set i p').map Prober.uid).Nodup := by
      rw [map_set_eq hp huid]
      exact hnodup
    have hmem : p' ∈ m.probers.set i p' := List.mem_set (List.getElem?_eq_some_iff.mp hp).1 p'
    exact List.inj_on_of_nodup_map huids hq hmem (hsame.trans huid.symm)
  · refine Or.inr ⟨(List.mem_or_eq_of_mem_set hq).resolve_right fun he => hsame ?_, hsame⟩
    rw [he, huid]

include hwired in
/-- A result settles the lookup of its prober and of no other. -/
theorem resolving_handleResolution (hnext : m.nextUid ≤ 2 ^ 32 + 1) (now : ℕ) (result : Resolution) {q : Prober}
    (hq : q ∈ (m.handleResolution now result).probers) :
    q.uid = result.uid ∧ q.resolving = false ∨ q.uid ≠ result.uid ∧ q ∈ m.probers := by
  obtain ⟨hnodup, htable⟩ := Monitor.WellWired.uids hwired hnext
  unfold handleResolution at hq
  cases hfound : m.proberOf result.uid with
  | none =>
    rw [hfound] at hq
    refine Or.inr ⟨fun huid => ?_, hq⟩
    obtain ⟨i, hi⟩ := List.mem_iff_getElem?.mp hq
    have hprober := proberOf_eq_some.mpr ⟨(htable result.uid i).mpr ⟨q, hi, huid⟩, hi⟩
    rw [hfound] at hprober
    cases hprober
  | some found =>
    obtain ⟨i, p⟩ := found
    rw [hfound] at hq
    have huid := WellWired.uid_of_proberOf hwired hfound
    have hresolved : (p.resolve now result).uid = p.uid := congrArg Stream.uid (stream_resolve now p result)
    obtain rfl | ⟨hold, hother⟩ := mem_set_of_uid hnodup (proberOf_eq_some.mp hfound).2 hresolved hq
    · exact Or.inl ⟨hresolved.trans huid, resolving_resolve now p result⟩
    · exact Or.inr ⟨fun he => hother (he.trans huid.symm), hold⟩

/-- The other handlers leave every prober waiting or not as it was, but for a reload, which also
brings in new ones. -/
theorem resolving_step (numeric : Bytes → Option Endpoint) (m : Monitor) {event : Event}
    (hquiet : event.handler.usesResolver = false) {q : Prober} (hq : q ∈ (m.step numeric event).probers) :
    (∃ p ∈ m.probers, p.uid = q.uid ∧ p.resolving = q.resolving) ∨
      HandedOut m.nextUid (m.step numeric event).nextUid q.uid ∧ q.resolving = false := by
  obtain ⟨now, handler⟩ := event
  cases handler with
  | tick | handleResolutions => cases hquiet
  | reloadClients directory =>
    obtain ⟨heir, subscribers, hold | ⟨-, huid, hfresh⟩, rfl⟩ := (heirs_reloadClients numeric now directory m).2 q hq
    · exact Or.inl ⟨heir, hold, rfl, rfl⟩
    · refine Or.inr ⟨huid, ?_⟩
      rw [hfresh]
      rfl
  | handleReplies io replies =>
    refine Or.inl (Machine.foldl_keeps (f := Monitor.handleReply now io)
      (fun m' : Monitor => ∀ q ∈ m'.probers, ∃ p ∈ m.probers, p.uid = q.uid ∧ p.resolving = q.resolving)
      (fun m' reply hm' q hq => ?_) (fun p hp => ⟨p, hp, rfl, rfl⟩) replies q hq)
    obtain he | ⟨i, p, probe, hp, -, -, -, he⟩ := m'.handleReply_cases io now reply <;> rw [he] at hq
    · exact hm' q hq
    · obtain hq | rfl := List.mem_or_eq_of_mem_set hq
      · exact hm' q hq
      · exact hm' p (List.mem_of_getElem? (proberOf_eq_some.mp hp).2)
  | dropExpiredClients after realNow mtime =>
    rw [Monitor.step, (Monitor.quiet_dropExpiredClients ..).2] at hq
    exact Or.inl ⟨q, hq, rfl, rfl⟩
  | noteIdle after =>
    rw [Monitor.step, (Monitor.quiet_noteIdle ..).2] at hq
    exact Or.inl ⟨q, hq, rfl, rfl⟩
  | publish force =>
    rw [Monitor.step, (Monitor.quiet_publish ..).2] at hq
    exact Or.inl ⟨q, hq, rfl, rfl⟩
  | flag | enter => exact Or.inl ⟨q, hq, rfl, rfl⟩

end Monitor

namespace Process
variable {s s' : Process}

/-- A step that only moves a request or a result along. -/
theorem Accounted.of_perm (h : s.Accounted) (hmonitor : s'.monitor = s.monitor)
    (hlookups : s'.lookups.Perm s.lookups) : s'.Accounted where
  nodup := hlookups.nodup_iff.mpr h.nodup
  owed p hp := by
    rw [hmonitor] at hp
    rw [h.owed p hp, hlookups.mem_iff]
  handedOut uid huid := by
    rw [hmonitor]
    exact h.handedOut uid (hlookups.mem_iff.mp huid)

theorem Accounted.call (h : s.Accounted) (numeric : Bytes → Option Endpoint) {event : Event}
    (hquiet : event.handler.usesResolver = false) (hnext : (s.monitor.step numeric event).nextUid ≤ 2 ^ 32 + 1) :
    Accounted { s with monitor := s.monitor.step numeric event } where
  nodup := h.nodup
  owed q hq := by
    obtain ⟨p, hp, huid, hresolving⟩ | ⟨huid, hresolving⟩ := s.monitor.resolving_step numeric hquiet hq
    · rw [← huid, ← hresolving]
      exact h.owed p hp
    · rw [hresolving]
      refine iff_of_false Bool.false_ne_true fun hmem => ?_
      exact (h.handedOut q.uid hmem).ne huid hnext rfl
  handedOut uid huid := (h.handedOut uid huid).mono le_rfl (s.monitor.nextUid_step numeric event)

theorem Accounted.tickAt (h : s.Accounted) (hwired : s.monitor.WellWired) (hnext : s.monitor.nextUid ≤ 2 ^ 32 + 1)
    {now : ℕ} {io : Io} {index : ℕ} (hphase : s.phase = .ticking now io index) {p : Prober}
    (hp : s.monitor.probers[index]? = some p) : (s.tickAt now io index p).Accounted := by
  set next := tickProber s.monitor.socket4 s.monitor.socket6 io now s.monitor.toBoard p with htick
  have huid : next.2.uid = p.uid := congrArg Stream.uid (stream_tickProber ..)
  have hprobers : ∀ q ∈ (s.tickAt now io index p).monitor.probers,
      q = next.2 ∨ q ∈ s.monitor.probers ∧ q.uid ≠ p.uid :=
    fun q hq => Monitor.mem_set_of_uid (hwired.uids hnext).1 hp huid hq
  have howed := h.owed p (List.mem_of_getElem? hp)
  have hbefore : s.lookups = s.resolver.uids := by
    unfold lookups
    rw [hphase]
    exact List.append_nil _
  have hafter : (s.tickAt now io index p).lookups =
      ((next.1.lookups.drop s.monitor.lookups.length).foldl Resolver.request s.resolver).uids := List.append_nil _
  obtain ⟨hasked, hresolving⟩ | ⟨hidle, hasked, hresolving⟩ := resolving_tickProber s.monitor.socket4
    s.monitor.socket6 io now s.monitor.toBoard p <;> rw [← htick] at hasked hresolving
  · rw [hasked, List.drop_length, List.foldl_nil, ← hbefore] at hafter
    refine ⟨hafter ▸ h.nodup, fun q hq => ?_, hafter ▸ h.handedOut⟩
    rw [hafter]
    obtain rfl | ⟨hold, -⟩ := hprobers q hq
    · rw [hresolving, huid]
      exact howed
    · exact h.owed q hold
  · -- It was owed nothing, so nothing is pending that could swallow the request.
    have hfree : p.uid ∉ s.lookups := by
      rw [← howed, hidle]
      exact Bool.false_ne_true
    have hperm : (s.tickAt now io index p).lookups.Perm (p.uid :: s.lookups) := by
      rw [hafter, hasked, List.drop_left, List.foldl_cons, List.foldl_nil, hbefore]
      rw [hbefore] at hfree
      exact s.resolver.uids_request ⟨p.uid, p.host⟩ hfree
    refine ⟨hperm.nodup_iff.mpr (List.nodup_cons.mpr ⟨hfree, h.nodup⟩), fun q hq => ?_, fun uid hmem => ?_⟩
    · rw [hperm.mem_iff, List.mem_cons]
      obtain rfl | ⟨hold, hother⟩ := hprobers q hq
      · exact iff_of_true hresolving (Or.inl huid)
      · rw [h.owed q hold, or_iff_right hother]
    · obtain rfl | hold := List.mem_cons.mp (hperm.mem_iff.mp hmem)
      · exact Monitor.handedOut_uid hwired (List.mem_of_getElem? hp)
      · exact h.handedOut uid hold

theorem Accounted.handleResolution (h : s.Accounted) (hwired : s.monitor.WellWired)
    (hnext : s.monitor.nextUid ≤ 2 ^ 32 + 1) {now : ℕ} {result : Resolution} {rest : List Resolution}
    (hphase : s.phase = .handling now (result :: rest)) :
    Accounted { s with
      monitor := s.monitor.handleResolution now result
      phase := .handling now rest } := by
  set next : Process := { s with
    monitor := s.monitor.handleResolution now result
    phase := .handling now rest }
  have hperm : s.lookups.Perm (result.uid :: next.lookups) := by
    unfold lookups
    rw [hphase]
    exact List.perm_middle
  obtain ⟨hsettled, hnodup⟩ := List.nodup_cons.mp (hperm.nodup_iff.mp h.nodup)
  have hcounter : next.monitor.nextUid = s.monitor.nextUid :=
    Monitor.nextUid_of_wiring (s.monitor.wiring_handleResolution now result)
  refine ⟨hnodup, fun q hq => ?_, fun uid huid => ?_⟩
  · obtain ⟨huid, hresolving⟩ | ⟨hother, hold⟩ := Monitor.resolving_handleResolution hwired hnext now result hq
    · rw [hresolving, huid]
      exact iff_of_false Bool.false_ne_true hsettled
    · rw [h.owed q hold, hperm.mem_iff, List.mem_cons, or_iff_right hother]
  · rw [hcounter]
    exact h.handedOut uid (hperm.mem_iff.mpr (List.mem_cons_of_mem _ huid))

theorem nextUid_proceed (s : Process) : s.proceed.monitor.nextUid = s.monitor.nextUid := by
  unfold Process.proceed
  split
  · rfl
  · split <;> rfl
  · rfl
  · rfl
  · exact Monitor.nextUid_of_wiring (s.monitor.wiring_handleResolution _ _)

theorem Accounted.proceed (h : s.Accounted) (hwired : s.monitor.WellWired)
    (hnext : s.monitor.nextUid ≤ 2 ^ 32 + 1) : s.proceed.Accounted := by
  obtain ⟨monitor, phase, resolver⟩ := s
  cases phase with
  | between => exact h
  | ticking now io index =>
    cases hp : monitor.probers[index]? with
    | none =>
      unfold Process.proceed
      dsimp only
      rw [hp]
      exact h.of_perm rfl .rfl
    | some p =>
      unfold Process.proceed
      dsimp only
      rw [hp]
      exact h.tickAt hwired hnext rfl hp
  | collecting now =>
    refine h.of_perm rfl ?_
    change (resolver.pending.map Request.uid ++ (resolver.worker.uids ++ []) ++
      resolver.completed.map Resolution.uid).Perm
        (resolver.pending.map Request.uid ++ (resolver.worker.uids ++ resolver.completed.map Resolution.uid) ++ [])
    simp
  | handling now results =>
    cases results with
    | nil => exact h.of_perm rfl .rfl
    | cons result rest => exact h.handleResolution hwired hnext rfl

/-- Every step of either thread keeps the account. -/
theorem Accounted.step (numeric : Bytes → Option Endpoint) (h : s.Accounted) (hwired : s.monitor.WellWired)
    (move : Move) (hnext : (s.step numeric move).monitor.nextUid ≤ 2 ^ 32 + 1) :
    (s.step numeric move).Accounted := by
  obtain ⟨monitor, phase, resolver⟩ := s
  cases move with
  | call event =>
    cases phase with
    | between =>
      unfold Process.step at hnext ⊢
      dsimp only at hnext ⊢
      cases huses : event.handler.usesResolver with
      | true => exact h
      | false =>
        rw [huses] at hnext
        exact h.call numeric huses hnext
    | ticking | collecting | handling => exact h
  | tick now io =>
    cases phase with
    | between => exact h.of_perm rfl .rfl
    | ticking | collecting | handling => exact h
  | handleResolutions now =>
    cases phase with
    | between => exact h.of_perm rfl .rfl
    | ticking | collecting | handling => exact h
  | proceed =>
    rw [Process.step, nextUid_proceed] at hnext
    exact h.proceed hwired hnext
  | work answer => exact h.of_perm rfl ((resolver.uids_run answer).append_right _)

theorem nextUid_step (numeric : Bytes → Option Endpoint) (s : Process) (move : Move) :
    s.monitor.nextUid ≤ (s.step numeric move).monitor.nextUid := by
  obtain ⟨monitor, phase, resolver⟩ := s
  cases move with
  | call event =>
    cases phase with
    | between =>
      unfold Process.step
      dsimp only
      split_ifs
      · exact le_rfl
      · exact monitor.nextUid_step numeric event
    | ticking | collecting | handling => exact le_rfl
  | tick now io => cases phase <;> exact le_rfl
  | handleResolutions now => cases phase <;> exact le_rfl
  | proceed => exact (nextUid_proceed _).ge
  | work answer => exact le_rfl

/-- What a step of either thread is at the door. -/
theorem door_step (numeric : Bytes → Option Endpoint) (s : Process) (move : Move) :
    (s.step numeric move).door = s.door ∨ ∃ knock, (s.step numeric move).door = s.door.step knock := by
  obtain ⟨monitor, phase, resolver⟩ := s
  cases move with
  | call event =>
    left
    cases phase with
    | between =>
      unfold Process.step
      dsimp only
      split_ifs <;> rfl
    | ticking | collecting | handling => rfl
  | tick now io => cases phase <;> exact Or.inl rfl
  | handleResolutions now =>
    cases phase with
    | between => exact Or.inr ⟨.silence, rfl⟩
    | ticking | collecting | handling => exact Or.inl rfl
  | proceed =>
    cases phase with
    | between => exact Or.inl rfl
    | collecting now => exact Or.inr ⟨.empty, rfl⟩
    | ticking now io index =>
      left
      unfold Process.step Process.proceed
      dsimp only
      cases monitor.probers[index]? with
      | none => rfl
      | some p =>
        obtain ⟨hcompleted, hcounter, hworker⟩ := resolver.door_request
          ((tickProber monitor.socket4 monitor.socket6 io now monitor.toBoard p).1.lookups.drop monitor.lookups.length)
        unfold door tickAt
        dsimp only
        rw [hcompleted, hcounter, hworker]
    | handling now results => cases results <;> exact Or.inl rfl
  | work answer =>
    obtain ⟨pending, completed, counter, worker⟩ := resolver
    cases worker with
    | waiting => cases pending <;> exact Or.inl rfl
    | resolving request => exact Or.inl rfl
    | resolved result => exact Or.inr ⟨.put result, rfl⟩
    | signalling => exact Or.inr ⟨.ring, rfl⟩

/-- The account, in every state that the two threads reach before the uids come around. -/
theorem accounted_run (numeric : Bytes → Option Endpoint) {m : Monitor} (hprobers : m.probers = [])
    (hwired : ∀ events, ((handlers numeric).run m events).WellWired) (moves : List Move)
    (hnext : ((process numeric).run (.initial m) moves).monitor.nextUid ≤ 2 ^ 32 + 1) :
    ((process numeric).run (.initial m) moves).Accounted := by
  refine (Machine.run_keeps (M := process numeric) (fun s : Process =>
    s.Follows numeric m ∧ (s.monitor.nextUid ≤ 2 ^ 32 + 1 → s.Accounted)) (fun s move h => ?_) ?_ moves).2 hnext
  · refine ⟨Follows.step numeric h.1 move, fun hnext => ?_⟩
    have hbefore := h.2 ((nextUid_step numeric s move).trans hnext)
    exact hbefore.step numeric (Follows.wellWired numeric h.1 hwired) move hnext
  · refine ⟨⟨[], rfl⟩, fun _ => ⟨List.nodup_nil, fun p hp => ?_, fun uid huid => absurd huid List.not_mem_nil⟩⟩
    rw [initial, hprobers] at hp
    cases hp

/-- Left to itself the thread gets through everything it has been asked. -/
theorem work_run (numeric : Bytes → Option Endpoint) (s : Process) (answers : List Answer) :
    let next := (process numeric).run s (answers.map .work)
    next.monitor = s.monitor ∧ next.phase = s.phase ∧ next.resolver.work = s.resolver.work - answers.length := by
  induction answers generalizing s with
  | nil => exact ⟨rfl, rfl, rfl⟩
  | cons answer rest ih =>
    obtain ⟨hmonitor, hphase, hwork⟩ := ih { s with resolver := s.resolver.run answer }
    refine ⟨hmonitor, hphase, hwork.trans ?_⟩
    dsimp only
    rw [s.resolver.work_run, List.length_cons]
    omega

/-- `handleResolutions`, with nothing in between. -/
def collect (s : Process) (now : ℕ) : List Move :=
  .handleResolutions now :: List.replicate (s.resolver.completed.length + 2) .proceed

theorem run_handling (numeric : Bytes → Option Endpoint) (m : Monitor) (now : ℕ) (results : List Resolution)
    (r : Resolver) : (process numeric).run ⟨m, .handling now results, r⟩
      (List.replicate (results.length + 1) .proceed) = ⟨m.handleResolutions now results, .between, r⟩ := by
  induction results generalizing m with
  | nil => rfl
  | cons result rest ih => exact ih (m.handleResolution now result)

theorem run_collect (numeric : Bytes → Option Endpoint) {s : Process} (hphase : s.phase = .between) (now : ℕ) :
    (process numeric).run s (s.collect now) =
      ⟨s.monitor.handleResolutions now s.resolver.completed, .between,
        { s.resolver with completed := [], counter := 0 }⟩ := by
  obtain ⟨monitor, phase, resolver⟩ := s
  obtain rfl : phase = .between := hphase
  exact run_handling numeric monitor now resolver.completed { resolver with completed := [], counter := 0 }

/-- With the worker out of work and nobody in the middle of a walk, the lookups left are the answers
that wait to be collected. -/
theorem lookups_of_idle {s : Process} (hworker : s.resolver.worker = .waiting) (hpending : s.resolver.pending = [])
    (hphase : s.phase = .between) : s.lookups = s.resolver.completed.map Resolution.uid := by
  unfold Process.lookups Resolver.uids
  rw [hpending, hworker, hphase]
  simp [Worker.uids, Activity.uids]

/-- Answers that nobody has collected: the eventfd is raised, is about to be, or has just been read. -/
theorem alarm_of_heeded {s : Process} (h : s.door.Heeded) (hcompleted : s.resolver.completed ≠ []) :
    0 < s.resolver.counter ∨ s.resolver.worker = .signalling ∨ ∃ now, s.phase = .collecting now := by
  refine (h hcompleted).imp_right (Or.imp decide_eq_true_eq.mp fun hempty => ?_)
  unfold Process.door at hempty
  dsimp only at hempty
  split at hempty
  · next now hphase => exact ⟨now, hphase⟩
  · cases hempty

/-- Handlers that do not deal with the resolver, one after the other. -/
theorem run_calls (numeric : Bytes → Option Endpoint) {events : List Event}
    (hquiet : ∀ event ∈ events, event.handler.usesResolver = false) (m : Monitor) (r : Resolver) :
    (process numeric).run ⟨m, .between, r⟩ (events.map .call) = ⟨(handlers numeric).run m events, .between, r⟩ := by
  induction events generalizing m with
  | nil => rfl
  | cons event rest ih =>
    rw [List.map_cons, Machine.run_cons, Machine.run_cons, process_step, Process.step]
    dsimp only
    rw [if_neg (by rw [hquiet event List.mem_cons_self]; exact Bool.false_ne_true)]
    exact ih (fun event hevent => hquiet event (List.mem_cons_of_mem _ hevent)) _

end Process

/-- In every state that the two threads reach, whatever the order of their steps. As long as no
more than `2 ^ 32` probers have been created, a prober waits exactly if there is exactly one
request or result for its uid, and there are never two. Results that are handed in have rung, or
are about to, or are about to be collected. So a prober that waits while the thread is idle has its
result behind a bell that has been rung, and once the thread has got through what it has been asked
and the loop has collected, nobody waits. -/
theorem lookups_accounted (numeric : Bytes → Option Endpoint) (options : Options)
    (socket4 socket6 : IcmpSocket) (cookie startedRealUs : ℕ) (moves : List Move) :
    let s := (process numeric).run (.initial (.initial options socket4 socket6 cookie startedRealUs)) moves
    (s.monitor.nextUid ≤ 2 ^ 32 + 1 → ∀ p ∈ s.monitor.probers,
      (p.resolving = true ↔ s.lookups.count p.uid = 1) ∧ s.lookups.count p.uid ≤ 1) ∧
    (s.resolver.completed ≠ [] →
      0 < s.resolver.counter ∨ s.resolver.worker = .signalling ∨ ∃ now, s.phase = .collecting now) ∧
    (s.monitor.nextUid ≤ 2 ^ 32 + 1 → s.phase = .between →
      (s.resolver.worker = .waiting → s.resolver.pending = [] → ∀ p ∈ s.monitor.probers, p.resolving = true →
        p.uid ∈ s.resolver.completed.map Resolution.uid ∧ 0 < s.resolver.counter) ∧
      ∀ answers : List Answer, 4 * s.resolver.pending.length + 3 ≤ answers.length → ∀ now,
        let idle := (process numeric).run s (answers.map .work)
        idle.resolver.worker = .waiting ∧ idle.resolver.pending = [] ∧
          ∀ p ∈ ((process numeric).run idle (idle.collect now)).monitor.probers, p.resolving = false) := by
  intro s
  have hwired := Monitor.wellWired_run numeric options socket4 socket6 cookie startedRealUs
  have hheeded : s.door.Heeded :=
    Doorbell.heeded_run Process.door (Process.door_step numeric) (fun h => absurd rfl h) moves
  have haccounted : ∀ later, ((process numeric).run s later).monitor.nextUid ≤ 2 ^ 32 + 1 →
      ((process numeric).run s later).Accounted := by
    intro later
    rw [← Machine.run_append]
    exact Process.accounted_run numeric rfl hwired _
  have hdoor : s.resolver.completed ≠ [] →
      0 < s.resolver.counter ∨ s.resolver.worker = .signalling ∨ ∃ now, s.phase = .collecting now :=
    Process.alarm_of_heeded hheeded
  refine ⟨fun hnext p hp => ?_, hdoor, fun hnext hphase => ⟨fun hworker hpending p hp hresolving => ?_,
    fun answers hlength now => ?_⟩⟩
  · have haccount := haccounted [] hnext
    refine ⟨?_, List.nodup_iff_count_le_one.mp haccount.nodup p.uid⟩
    rw [haccount.owed p hp]
    exact ⟨List.count_eq_one_of_mem haccount.nodup, fun hcount => List.count_pos_iff.mp (hcount ▸ Nat.one_pos)⟩
  · have hmem := ((haccounted [] hnext).owed p hp).mp hresolving
    rw [Machine.run_nil, Process.lookups_of_idle hworker hpending hphase] at hmem
    refine ⟨hmem, ?_⟩
    have hcompleted : s.resolver.completed ≠ [] := fun hnone => by simp [hnone] at hmem
    obtain hrung | hworking | ⟨now, hcollecting⟩ := hdoor hcompleted
    · exact hrung
    · rw [hworker] at hworking
      cases hworking
    · rw [hphase] at hcollecting
      cases hcollecting
  · intro idle
    obtain ⟨hmonitor, hactivity, hwork⟩ := Process.work_run numeric s answers
    change idle.resolver.work = _ at hwork
    have hle := s.resolver.work_le
    obtain ⟨hworker, hpending⟩ := idle.resolver.idle_iff.mp (by omega)
    refine ⟨hworker, hpending, fun p hp => ?_⟩
    have hcollected := Process.run_collect numeric (hactivity.trans hphase) now
    have hcounter : ((process numeric).run idle (idle.collect now)).monitor.nextUid = s.monitor.nextUid := by
      rw [hcollected, ← hmonitor]
      exact Monitor.nextUid_of_wiring
        (Monitor.wiring_step numeric idle.monitor ⟨now, .handleResolutions idle.resolver.completed⟩ nofun)
    have haccount := haccounted (answers.map .work ++ idle.collect now)
    rw [Machine.run_append] at haccount
    have howed := (haccount (hcounter.trans_le hnext)).owed p hp
    have hnothing : ((process numeric).run idle (idle.collect now)).lookups = [] := by
      rw [hcollected]
      exact Process.lookups_of_idle hworker hpending rfl
    change _ ↔ _ ∈ ((process numeric).run idle (idle.collect now)).lookups at howed
    rw [hnothing] at howed
    exact Bool.eq_false_iff.mpr fun hresolving => absurd (howed.mp hresolving) List.not_mem_nil

/-- A name has been looked up, in vain, and the loop is yet to hear of it. -/
theorem lookups_accounted_router :
    let directory : Directory := ⟨[⟨ascii "w.json", some (.object [(ascii "destinations",
      .array [.object [(ascii "address", .string (ascii "router"))]])])⟩], by decide⟩
    let answer : Answer := ⟨false, .empty, ascii "no such host"⟩
    let s := (process fun _ => none).run (.initial (.initial ⟨[], 1000000, 0, 0, 50, by decide, by decide⟩
      ⟨true, false, []⟩ ⟨true, false, []⟩ 5 0))
      [.call ⟨1000, .reloadClients directory⟩, .tick 1000 ⟨fun _ => .sent, fun _ => 0⟩, .proceed,
        .work answer, .work answer, .proceed, .work answer, .work answer]
    let idle := (process fun _ => none).run s ([answer, answer, answer].map .work)
    s.monitor.probers.map (fun p => (p.uid, p.resolving)) = [(1, true)] ∧ s.lookups.count 1 = 1 ∧
      0 < s.resolver.counter ∧
      ∀ p ∈ ((process fun _ => none).run idle (idle.collect 2000)).monitor.probers, p.resolving = false := by
  intro directory answer s idle
  have hprobers : s.monitor.probers.map (fun p => (p.uid, p.resolving)) = [(1, true)] := by decide +kernel
  have hresolver : s.resolver = ⟨[], [⟨1, false, .empty, ascii "no such host"⟩], 1, .waiting⟩ := by decide +kernel
  have hphase : s.phase = .between := by decide +kernel
  have hnext : s.monitor.nextUid ≤ 2 ^ 32 + 1 := by decide +kernel
  obtain ⟨p, hp, hfields⟩ := List.map_eq_singleton_iff.mp hprobers
  obtain ⟨huid, hresolving⟩ := Prod.mk.inj hfields
  have hmem : p ∈ s.monitor.probers := hp ▸ List.mem_singleton_self p
  obtain ⟨howed, -, hlast⟩ := lookups_accounted (fun _ => none) ⟨[], 1000000, 0, 0, 50, by decide, by decide⟩
    ⟨true, false, []⟩ ⟨true, false, []⟩ 5 0 [.call ⟨1000, .reloadClients directory⟩,
      .tick 1000 ⟨fun _ => .sent, fun _ => 0⟩, .proceed, .work answer, .work answer, .proceed, .work answer,
      .work answer]
  obtain ⟨hidle, hsettled⟩ := hlast hnext hphase
  have hone := (howed hnext p hmem).1.mp hresolving
  rw [huid] at hone
  refine ⟨hprobers, hone, (hidle (by rw [hresolver]) (by rw [hresolver]) p hmem hresolving).2, ?_⟩
  have hnobody := (hsettled [answer, answer, answer] (by rw [hresolver]; exact le_rfl) 2000).2.2
  dsimp only [idle, s]
  exact hnobody

/-- Reloads that bring a second destination in and take it out again, with the resolver looking on. -/
theorem churn_process (numeric : Bytes → Option Endpoint) {pair single : Directory} {s : Process}
    (hphase : s.phase = .between) {i t : ℕ} {x y : Bytes} {p : Prober}
    (hpair : (loadedClients s.monitor.options pair).map Client.asks = [(i, t, [(x, true), (y, true)])])
    (hsingle : (loadedClients s.monitor.options single).map Client.asks = [(i, t, [(x, true)])])
    (hxy : x ≠ y) (hprobers : s.monitor.probers = [p]) (hkey : p.key = proberKey x i t) (turns : ℕ)
    {reloads : List Event} (hreloads : reloads = (List.replicate turns
      [⟨0, .reloadClients pair⟩, ⟨0, .reloadClients single⟩]).flatten ++ [⟨0, .reloadClients pair⟩])
    {next : Process} (hnext : next = (process numeric).run s (reloads.map .call)) :
    next.lookups = s.lookups ∧ ∃ q ∈ next.monitor.probers, q.uid = (s.monitor.nextUid + turns) % 2 ^ 32 ∧
      q.resolving = false := by
  obtain ⟨monitor, phase, resolver⟩ := s
  obtain rfl : phase = .between := hphase
  obtain ⟨p', q, hboth, -, huid, hidle⟩ := churn numeric hpair hsingle hxy hprobers hkey turns
  have hquiet : ∀ event ∈ reloads, event.handler.usesResolver = false := by
    rw [hreloads]
    intro event hevent
    obtain hturn | hlast := List.mem_append.mp hevent
    · obtain ⟨turn, hreplicate, hmem⟩ := List.mem_flatten.mp hturn
      rw [List.eq_of_mem_replicate hreplicate] at hmem
      obtain rfl | hmem := List.mem_cons.mp hmem
      · rfl
      · rw [List.mem_singleton.mp hmem]
        rfl
    · rw [List.mem_singleton.mp hlast]
      rfl
  rw [Process.run_calls numeric hquiet monitor resolver, hreloads] at hnext
  rw [hnext]
  refine ⟨rfl, q, ?_, huid, hidle⟩
  rw [hboth]
  simp

/-- After `2 ^ 32 - 1` turns a prober that has asked for nothing has the uid of one that waits. -/
theorem lookup_owed_to_another :
    let entry : Bytes → Json := fun text => .object [(ascii "address", .string text)]
    let directory : List Json → Directory := fun destinations =>
      ⟨[⟨ascii "w.json", some (.object [(ascii "destinations", .array destinations)])⟩],
        List.nodup_singleton _⟩
    let single : Directory := directory [entry (ascii "a")]
    let pair : Directory := directory [entry (ascii "a"), entry (ascii "b")]
    let asks : List Move := [.call ⟨0, .reloadClients single⟩, .tick 0 ⟨fun _ => .sent, fun _ => 0⟩, .proceed, .proceed]
    let turns : List Event := (List.replicate 4294967295
      [⟨0, .reloadClients pair⟩, ⟨0, .reloadClients single⟩]).flatten ++ [⟨0, .reloadClients pair⟩]
    let s := (process fun _ => none).run (.initial (.initial ⟨[], 1000000, 0, 0, 50, by decide, by decide⟩
      ⟨true, false, []⟩ ⟨true, false, []⟩ 5 0)) (asks ++ turns.map .call)
    ∃ p ∈ s.monitor.probers, p.resolving = false ∧ s.lookups.count p.uid = 1 := by
  intro entry directory single pair asks turns s
  let asked : Process := (process fun _ => none).run (.initial (.initial
    ⟨[], 1000000, 0, 0, 50, by decide, by decide⟩ ⟨true, false, []⟩ ⟨true, false, []⟩ 5 0)) asks
  have hasked : asked.monitor.probers.map (fun p => (p.key, p.uid)) =
      [(proberKey (ascii "a") 1000000 3000000, 1)] ∧ asked.monitor.nextUid = 2 ∧ asked.lookups = [1] := by
    decide +kernel
  obtain ⟨hprobers, hnext, hlookups⟩ := hasked
  obtain ⟨p, hp, hpkey⟩ := List.map_eq_singleton_iff.mp hprobers
  have hpair : (loadedClients asked.monitor.options pair).map Client.asks =
      [(1000000, 3000000, [(ascii "a", true), (ascii "b", true)])] := by decide +kernel
  have hsingle : (loadedClients asked.monitor.options single).map Client.asks =
      [(1000000, 3000000, [(ascii "a", true)])] := by decide +kernel
  have hphase : asked.phase = .between := by decide +kernel
  have hs : s = (process fun _ => none).run asked (turns.map .call) := Machine.run_append ..
  obtain ⟨hkept, q, hq, huid, hidle⟩ := churn_process (fun _ => none) hphase hpair hsingle (by decide) hp
    (Prod.mk.inj hpkey).1 4294967295 rfl hs
  refine ⟨q, hq, hidle, ?_⟩
  rw [hkept, huid, hlookups, hnext]
  decide +kernel

end NetworkHealth.Daemon
