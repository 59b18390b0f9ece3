import Mathlib.Data.List.Nodup
import NetworkHealth.Daemon.Conservation

/-! Whether an answer counts. A reply carries what identifies its probe, but where the probe
was sent is not remembered: the reply's source is compared with the address the prober has
by the time the reply is handled. -/
namespace NetworkHealth.Daemon

namespace Endpoint

theorem isFrom_iff {e : Endpoint} {other : SockAddr} {otherLen : ℕ} :
    e.isFrom other otherLen = true ↔
      e.valid = true ∧ otherLen ≠ 0 ∧ e.addr.family ≠ .unspec ∧ other = e.addr := by
  obtain ⟨family, ⟨addrFamily, address⟩, len, text⟩ := e
  obtain ⟨otherFamily, otherAddress⟩ := other
  unfold isFrom
  generalize valid _ = isValid
  by_cases hlen : otherLen = 0
  · simp [hlen]
  · by_cases hfamily : otherFamily = addrFamily
    · subst hfamily
      cases otherFamily <;> cases isValid <;> simp [hlen, eq_comm]
    · cases isValid <;> simp [hlen, hfamily]

/-- Two endpoints that both take a datagram for an answer have the same address. -/
theorem isFrom_iff_of_isFrom {e target : Endpoint} {source : SockAddr} {len : ℕ}
    (h : target.isFrom source len = true) :
    e.isFrom source len = true ↔ e.valid = true ∧ e.addr = target.addr := by
  obtain ⟨-, hlen, hfamily, rfl⟩ := isFrom_iff.mp h
  rw [isFrom_iff]
  constructor
  · rintro ⟨hvalid, -, -, haddr⟩
    exact ⟨hvalid, haddr.symm⟩
  · rintro ⟨hvalid, haddr⟩
    exact ⟨hvalid, hlen, haddr ▸ hfamily, haddr.symm⟩

end Endpoint

/-- Every probe in flight has been sent somewhere. -/
def Recorded (p : Prober) : Prop :=
  ∀ q ∈ p.inFlight, ∃ target, ProberEvent.sent q.seq target q.sentUs ∈ p.history

theorem Recorded.of_subset {p p' : Prober} (h : Recorded p) (hqueue : p'.inFlight ⊆ p.inFlight)
    (hhistory : p.history ⊆ p'.history) : Recorded p' := by
  intro q hq
  obtain ⟨target, htarget⟩ := h q (hqueue hq)
  exact ⟨target, hhistory htarget⟩

theorem recorded_rule : ProberRule fun _ p => Recorded p where
  later := fun _ _ _ _ h => h
  fresh := fun _ _ _ _ _ _ _ q hq => absurd hq (by simp [freshProber])
  rewired := fun _ _ _ h => h
  asked := fun _ _ h => h
  gaveUp := by
    intro now p oldest rest h hqueue _
    refine h.of_subset ?_ ?_
    · rw [hqueue]
      exact List.subset_cons_self oldest rest
    · exact fun event hevent => List.mem_cons_of_mem _ (List.mem_cons_of_mem _ hevent)
  sent := by
    intro now p p' h _ _ _ houtcome
    change Recorded p'
    cases houtcome with
    | blocked error | refused error =>
      exact h.of_subset (List.Subset.refl _) fun event hevent => by
        simp [Prober.count, Prober.refuse, Prober.numbered, Prober.log, hevent]
    | launched =>
      intro q hq
      rcases List.mem_append.mp hq with hold | hnew
      · obtain ⟨target, htarget⟩ := h q hold
        exact ⟨target, by simp [Prober.launched, Prober.numbered, Prober.log, htarget]⟩
      · rw [List.mem_singleton.mp hnew]
        exact ⟨p.endpoint, by simp [Prober.launched, Prober.numbered, Prober.log]⟩
  answered := by
    intro now p q seq rttUs h _
    refine h.of_subset List.eraseP_subset fun event hevent => ?_
    exact List.mem_cons_of_mem _ (List.mem_cons_of_mem _ hevent)
  resolved := by
    intro now p result h
    unfold Prober.resolve
    split_ifs <;> exact h

/-- The probe was removed from flight by a received sample. -/
structure Prober.Answered (q : InFlight) (now : ℕ) (p p' : Prober) : Prop where
  inFlight : p'.inFlight = p.inFlight.erase q
  received : p'.received = p.received + 1
  history : ∃ rttUs, p'.history = .sample true rttUs now :: .answered q.seq now :: p.history

theorem not_answered_self (q : InFlight) (now : ℕ) (p : Prober) : ¬ Prober.Answered q now p p :=
  fun h => absurd h.received (Nat.succ_ne_self p.received).symm

theorem probe_of_mem {p : Prober} (hdistinct : p.inFlight.Pairwise (·.seq ≠ ·.seq)) {q : InFlight}
    (hq : q ∈ p.inFlight) : p.probe q.seq = some q := by
  unfold Prober.probe
  cases hfound : p.inFlight.find? (·.seq = q.seq) with
  | none => exact absurd (List.find?_eq_none.mp hfound q hq) (by simp)
  | some x =>
    have hseq : x.seq = q.seq := by simpa using List.find?_some hfound
    have hnodup : (p.inFlight.map InFlight.seq).Nodup := List.pairwise_map.mpr hdistinct
    rw [List.inj_on_of_nodup_map hnodup (List.mem_of_find?_eq_some hfound) hq hseq]

theorem answered_of_probe {p : Prober} {q : InFlight} {seq : ℕ} (hprobe : p.probe seq = some q)
    (rttUs now : ℕ) : p.Answered q now ((p.answer seq now).count true rttUs now) := by
  obtain ⟨hseq, before, after, hsplit, hbefore, herase⟩ := exists_of_probe hprobe
  refine ⟨?_, rfl, rttUs, by rw [hseq]; rfl⟩
  have hnotMem : q ∉ before := fun h => hbefore q h hseq
  change p.inFlight.eraseP _ = _
  rw [herase, hsplit, List.erase_append_right _ hnotMem, List.erase_cons_head]

/-- Whether a reply to a probe in flight completes it, when it identifies that probe. -/
theorem answered_iff {m : Monitor} {i : ℕ} {p : Prober} (hp : m.probers[i]? = some p)
    (hdistinct : p.inFlight.Pairwise (·.seq ≠ ·.seq)) {q : InFlight} (hq : q ∈ p.inFlight)
    {reply : Datagram} (hcookie : reply.cookie = m.cookie) (huid : reply.uid = p.uid)
    (hseq : reply.seq = q.seq) (now : ℕ) (io : Io) :
    (∃ p', (m.handleReply now io reply).probers[i]? = some p' ∧ p.Answered q now p') ↔
      m.proberByUid.lookup p.uid = some i ∧
        p.endpoint.isFrom reply.source reply.sourceLen = true := by
  have hprobe : p.probe reply.seq = some q := hseq ▸ probe_of_mem hdistinct hq
  constructor
  · rintro ⟨p', hp', hanswered⟩
    have hchanged : ¬ (m.handleReply now io reply).probers[i]? = m.probers[i]? := by
      intro hsame
      rw [hsame, hp, Option.some.injEq] at hp'
      exact not_answered_self q now p (hp' ▸ hanswered)
    rcases m.handleReply_cases io now reply with h | ⟨j, r, _, hr, -, hfrom, -, h⟩
    · exact absurd (by rw [h]) hchanged
    · have hindex : j = i := by
        by_contra hne
        exact hchanged (by rw [h]; exact List.getElem?_set_ne hne)
      subst hindex
      obtain ⟨hlookup, hget⟩ := Monitor.proberOf_eq_some.mp hr
      obtain rfl : r = p := by simpa [hget] using hp
      exact ⟨huid ▸ hlookup, hfrom⟩
  · rintro ⟨hlookup, hfrom⟩
    have hof : m.proberOf reply.uid = some (i, p) :=
      Monitor.proberOf_eq_some.mpr ⟨huid ▸ hlookup, hp⟩
    refine ⟨_, ?_, answered_of_probe hprobe (now - reply.sentUs) now⟩
    unfold Monitor.handleReply
    simp only [hcookie, hof, hprobe, hfrom]
    simp [List.getElem?_set_self (List.getElem?_eq_some_iff.mp hp).1]

/-- In every state of every run at non-decreasing times, every probe in flight was sent
somewhere, and a reply to it from there completes it exactly if its uid leads back to its
prober and its prober still has that address. -/
theorem answered_probe_counts_iff (numeric : Bytes → Option Endpoint) (options : Options)
    (socket4 socket6 : IcmpSocket) (cookie startedRealUs : ℕ) (events : List Event)
    (hevents : Machine.Timed Event.now 0 events) :
    let m := (handlers numeric).run (.initial options socket4 socket6 cookie startedRealUs) events
    ∀ i p, m.probers[i]? = some p → ∀ q ∈ p.inFlight,
      (∃ target, ProberEvent.sent q.seq target q.sentUs ∈ p.history) ∧
      ∀ target, ProberEvent.sent q.seq target q.sentUs ∈ p.history → ∀ (reply : Datagram) now io,
        reply.cookie = m.cookie → reply.uid = p.uid → reply.seq = q.seq →
        target.isFrom reply.source reply.sourceLen = true →
        ((∃ p', (m.handleReply now io reply).probers[i]? = some p' ∧ p.Answered q now p') ↔
          m.proberByUid.lookup p.uid = some i ∧ p.endpoint.valid = true ∧
            p.endpoint.addr = target.addr) := by
  intro m i p hp q hq
  have hmem := List.mem_of_getElem? hp
  have hrecorded := recorded_rule.always numeric options socket4 socket6 cookie startedRealUs events
  obtain ⟨t, hqueued⟩ := queued_rule.reachable numeric options socket4 socket6 cookie startedRealUs hevents
  refine ⟨hrecorded p hmem q hq, fun target _ reply now io hcookie huid hseq hfrom => ?_⟩
  rw [answered_iff hp (hqueued p hmem).distinct hq hcookie huid hseq,
    Endpoint.isFrom_iff_of_isFrom hfrom]

/-- A name that keeps its address: the answer counts. -/
theorem answered_probe_counts_iff_run :
    let router : Endpoint := ⟨.inet, ⟨.inet, [192, 0, 2, 1]⟩, 16, ascii "192.0.2.1"⟩
    let directory : Directory := ⟨[⟨ascii "w.json", some (.object [(ascii "destinations",
      .array [.object [(ascii "address", .string (ascii "router"))]])])⟩], by decide⟩
    let io : Io := ⟨fun _ => .sent, fun _ => 0⟩
    let m := (handlers fun _ => none).run
      (.initial ⟨[], 1000000, 0, 0, 50, by decide, by decide⟩ ⟨true, false, []⟩ ⟨true, false, []⟩ 5 0)
      [⟨1000, .reloadClients directory⟩, ⟨1000, .tick io⟩, ⟨2000, .handleResolutions [⟨1, true, router, []⟩]⟩,
        ⟨1001000, .tick io⟩]
    let reply : Datagram := ⟨5, 1, 1, 1001000, router.addr, 16⟩
    ∃ p ∈ m.probers, ∃ p' ∈ (m.handleReply 1001400 io reply).probers,
      p.Answered ⟨1, 1001000, 4001000⟩ 1001400 p' := by
  intro router directory io m reply
  have hget : m.probers[0]? = some ((m.probers[0]?).get (by decide +kernel)) := by simp
  obtain ⟨p', hp', hanswered⟩ := ((answered_probe_counts_iff (fun _ => none)
    ⟨[], 1000000, 0, 0, 50, by decide, by decide⟩ ⟨true, false, []⟩ ⟨true, false, []⟩ 5 0
    [⟨1000, .reloadClients directory⟩, ⟨1000, .tick io⟩, ⟨2000, .handleResolutions [⟨1, true, router, []⟩]⟩,
      ⟨1001000, .tick io⟩] (by decide) 0 _ hget ⟨1, 1001000, 4001000⟩ (by decide +kernel)).2 router
    (by decide +kernel) reply 1001400 io (by decide +kernel) (by decide +kernel) rfl (by decide)).mpr
    ⟨by decide +kernel, by decide +kernel, by decide +kernel⟩
  exact ⟨_, List.mem_of_getElem? hget, p', List.mem_of_getElem? hp', hanswered⟩

/-- A name that moves while a probe is out: the answer from where the probe was sent is
dropped, and the probe is given up as a timeout. -/
theorem answered_probe_lost :
    let before : Endpoint := ⟨.inet, ⟨.inet, [192, 0, 2, 1]⟩, 16, ascii "192.0.2.1"⟩
    let moved : Endpoint := ⟨.inet, ⟨.inet, [192, 0, 2, 2]⟩, 16, ascii "192.0.2.2"⟩
    let directory : Directory := ⟨[⟨ascii "w.json", some (.object [(ascii "destinations",
      .array [.object [(ascii "address", .string (ascii "router"))]])])⟩], by decide⟩
    let io : Io := ⟨fun _ => .sent, fun _ => 0⟩
    let m := (handlers fun _ => none).run
      (.initial ⟨[], 1000000, 0, 0, 50, by decide, by decide⟩ ⟨true, false, []⟩ ⟨true, false, []⟩ 5 0)
      [⟨1000, .reloadClients directory⟩, ⟨1000, .tick io⟩, ⟨2000, .handleResolutions [⟨1, true, before, []⟩]⟩,
        ⟨300002000, .tick io⟩, ⟨300002500, .handleResolutions [⟨1, true, moved, []⟩]⟩]
    let reply : Datagram := ⟨5, 1, 1, 300002000, before.addr, 16⟩
    let answered := m.handleReply 300003000 io reply
    reply.cookie = m.cookie ∧ before.isFrom reply.source reply.sourceLen = true ∧
      (∀ p ∈ m.probers, reply.uid = p.uid ∧ p.inFlight = [⟨1, 300002000, 303002000⟩] ∧
        .sent 1 before 300002000 ∈ p.history) ∧
      m.probers.length = 1 ∧ answered.probers = m.probers ∧
      ∀ p ∈ (answered.tick 303002000 io).probers, .expired 1 303002000 ∈ p.history ∧ p.received = 0 := by
  decide +kernel

end NetworkHealth.Daemon
