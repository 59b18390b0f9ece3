import NetworkHealth.Daemon.Packet
import NetworkHealth.Daemon.ReplyTime

/-! What a peer has a say in. A reply is matched by its cookie, uid and sequence number and by
where it comes from; the time its probe was sent is taken from the reply as well, and not from
the record of the probe. -/
namespace NetworkHealth.Daemon

/-- Nothing but replies with our cookie reaches the handler. -/
theorem cookie_of_mem_receive {order : ByteOrder} {socket : IcmpSocket} {family : Family} {cookie : UInt32}
    {messages : List Message} {reply : Datagram} (h : reply ∈ socket.receive order family cookie messages) :
    reply.cookie = cookie.toNat := by
  unfold IcmpSocket.receive at h
  split_ifs at h with hclosed
  · cases h
  · obtain ⟨message, -, hresult⟩ := List.mem_filterMap.mp h
    obtain ⟨hours, rfl⟩ := (IcmpSocket.result_receiveMessage_iff cookie message reply).mp hresult
    exact congrArg UInt32.toNat ((IcmpSocket.cookie_eq_iff message cookie).mpr hours.cookie)

/-- The reply answers a probe in flight, `q`, of the prober at `i`, and comes from the address that
this prober has. -/
structure Matches (m : Monitor) (i : ℕ) (p : Prober) (reply : Datagram) (q : InFlight) : Prop where
  cookie : reply.cookie = m.cookie
  uid : m.proberByUid.lookup reply.uid = some i
  inFlight : q ∈ p.inFlight
  seq : q.seq = reply.seq
  source : p.endpoint.isFrom reply.source reply.sourceLen = true

/-- What a batch has made of a prober: every received sample it adds is the time from the
timestamp of a matching reply to now, which is the time since its probe was sent exactly if the
reply says so, or if both lie in the future. -/
structure Measured (m : Monitor) (now : ℕ) (replies : List Datagram) (i : ℕ) (p p' : Prober) : Prop where
  endpoint : p'.endpoint = p.endpoint
  inFlight : p'.inFlight ⊆ p.inFlight
  history : ∃ added, p'.history = added ++ p.history ∧ ∀ rttUs t, .sample true rttUs t ∈ added → t = now ∧
    ∃ reply ∈ replies, ∃ q, Matches m i p reply q ∧ rttUs = now - reply.sentUs ∧
      (rttUs = now - q.sentUs ↔ reply.sentUs = q.sentUs ∨ now ≤ reply.sentUs ∧ now ≤ q.sentUs)

theorem sub_eq_sub_iff_eq_or {now a b : ℕ} : now - a = now - b ↔ a = b ∨ now ≤ a ∧ now ≤ b := by
  omega

namespace Monitor
variable {m : Monitor} {i : ℕ} {p : Prober}

/-- A reply leaves a prober alone or answers one of its probes. -/
theorem measured_handleReply (hp : m.probers[i]? = some p) (now : ℕ) (io : Io) (reply : Datagram) :
    ∃ p', (m.handleReply now io reply).probers[i]? = some p' ∧ Measured m now [reply] i p p' := by
  have hsame : Measured m now [reply] i p p := ⟨rfl, List.Subset.refl _, [], rfl, nofun⟩
  obtain hidle | ⟨j, r, q, hprober, hprobe, hsource, hcookie, hhandled⟩ := m.handleReply_cases io now reply
  · exact ⟨p, by rw [hidle, hp], hsame⟩
  · obtain ⟨hlookup, hr⟩ := proberOf_eq_some.mp hprober
    rw [hhandled]
    by_cases hij : j = i
    · subst hij
      obtain rfl := Option.some.inj (hr.symm.trans hp)
      obtain ⟨hseq, -⟩ := exists_of_probe hprobe
      refine ⟨_, List.getElem?_set_self (List.getElem?_eq_some_iff.mp hr).1, rfl, List.eraseP_subset,
        [.sample true (now - reply.sentUs) now, .answered reply.seq now], rfl, ?_⟩
      intro rttUs t hmem
      simp only [List.mem_cons, ProberEvent.sample.injEq, true_and, reduceCtorEq, List.not_mem_nil, or_false] at hmem
      obtain ⟨rfl, rfl⟩ := hmem
      exact ⟨rfl, reply, List.mem_singleton_self reply, q,
        ⟨hcookie, hlookup, List.mem_of_find?_eq_some hprobe, hseq, hsource⟩, rfl, sub_eq_sub_iff_eq_or⟩
    · exact ⟨p, by rw [List.getElem?_set_ne hij, hp], hsame⟩

theorem frame_handleReply (m : Monitor) (now : ℕ) (io : Io) (reply : Datagram) :
    (m.handleReply now io reply).cookie = m.cookie ∧ (m.handleReply now io reply).proberByUid = m.proberByUid := by
  obtain hidle | ⟨j, r, q, -, -, -, -, hhandled⟩ := m.handleReply_cases io now reply
  · rw [hidle]
    exact ⟨rfl, rfl⟩
  · rw [hhandled]
    exact ⟨rfl, rfl⟩

/-- The whole batch, reply by reply. -/
theorem measured_handleReplies (hp : m.probers[i]? = some p) (now : ℕ) (io : Io) (replies : List Datagram) :
    ∃ p', (m.handleReplies now io replies).probers[i]? = some p' ∧ Measured m now replies i p p' := by
  induction replies generalizing m p with
  | nil => exact ⟨p, hp, rfl, List.Subset.refl _, [], rfl, nofun⟩
  | cons reply replies ih =>
    obtain ⟨p₁, hp₁, hfirst⟩ := measured_handleReply hp now io reply
    obtain ⟨hcookie, huids⟩ := frame_handleReply m now io reply
    obtain ⟨p₂, hp₂, hrest⟩ := ih hp₁
    obtain ⟨added₁, hadded₁, hsamples₁⟩ := hfirst.history
    obtain ⟨added₂, hadded₂, hsamples₂⟩ := hrest.history
    refine ⟨p₂, hp₂, hrest.endpoint.trans hfirst.endpoint, List.Subset.trans hrest.inFlight hfirst.inFlight,
      added₂ ++ added₁, by rw [hadded₂, hadded₁, List.append_assoc], ?_⟩
    intro rttUs t hmem
    rcases List.mem_append.mp hmem with hlater | hearlier
    · obtain ⟨rfl, other, hother, q, hmatches, hrtt⟩ := hsamples₂ rttUs t hlater
      exact ⟨rfl, other, List.mem_cons_of_mem _ hother, q, ⟨hmatches.cookie.trans hcookie,
        huids ▸ hmatches.uid, hfirst.inFlight hmatches.inFlight, hmatches.seq, hfirst.endpoint ▸ hmatches.source⟩, hrtt⟩
    · obtain ⟨rfl, other, hother, q, hmatches, hrtt⟩ := hsamples₁ rttUs t hearlier
      exact ⟨rfl, other, List.mem_cons.mpr (Or.inl (List.mem_singleton.mp hother)), q, hmatches, hrtt⟩

end Monitor

/-- A datagram that matches nothing leaves everything as it is. -/
theorem Monitor.handleReply_of_not_matches {m : Monitor} {reply : Datagram}
    (h : ∀ i p q, m.probers[i]? = some p → ¬ Matches m i p reply q) (now : ℕ) (io : Io) :
    m.handleReply now io reply = m := by
  obtain hidle | ⟨i, p, q, hprober, hprobe, hsource, hcookie, -⟩ := m.handleReply_cases io now reply
  · exact hidle
  · obtain ⟨hlookup, hp⟩ := Monitor.proberOf_eq_some.mp hprober
    exact absurd ⟨hcookie, hlookup, List.mem_of_find?_eq_some hprobe, (exists_of_probe hprobe).1, hsource⟩ (h i p q hp)

/-- In every state and for every batch: a received sample is the time since the timestamp that its
datagram carries; a datagram that matches no probe in flight of the prober whose address it comes
from, by the time it is handled, might as well not have come; and while a prober has the address
that a probe was sent to, what matches this probe comes from there. -/
theorem measured_by_datagram (m : Monitor) (now : ℕ) (io : Io) (replies : List Datagram) :
    (∀ (i : ℕ) (p : Prober), m.probers[i]? = some p →
      ∃ p', (m.handleReplies now io replies).probers[i]? = some p' ∧ Measured m now replies i p p') ∧
    (∀ before reply after, replies = before ++ reply :: after →
      (∀ i p q, (m.handleReplies now io before).probers[i]? = some p →
        ¬ Matches (m.handleReplies now io before) i p reply q) →
      m.handleReplies now io replies = m.handleReplies now io (before ++ after)) ∧
    ∀ (i : ℕ) (p : Prober) (reply : Datagram) (q : InFlight) (target : Endpoint), Matches m i p reply q →
      .sent q.seq target q.sentUs ∈ p.history → p.endpoint.addr = target.addr → reply.source = target.addr := by
  refine ⟨fun i p hp => Monitor.measured_handleReplies hp now io replies, ?_, ?_⟩
  · rintro before reply after rfl hnothing
    have hidle := Monitor.handleReply_of_not_matches hnothing now io
    simp only [Monitor.handleReplies, List.foldl_append, List.foldl_cons] at hidle ⊢
    rw [hidle]
  · intro i p reply q target hmatches _ haddr
    obtain ⟨-, -, -, hsource⟩ := Endpoint.isFrom_iff.mp hmatches.source
    exact hsource.trans haddr

/-- One destination, probed once at 1000 us; its reply says that the probe was sent at 0. -/
theorem measured_by_datagram_forged :
    let directory : Directory := ⟨[⟨ascii "w.json", some (.object [
      (ascii "destinations", .array [.object [(ascii "address", .string (ascii "192.0.2.1"))]])])⟩], by decide⟩
    let router : Endpoint := ⟨.inet, ⟨.inet, [192, 0, 2, 1]⟩, 16, ascii "192.0.2.1"⟩
    let io : Io := ⟨fun _ => .sent, fun _ => 0⟩
    let m := (handlers fun _ => some router).run
      (.initial ⟨[], 1000000, 0, 0, 50, by decide, by decide⟩ ⟨true, false, []⟩ ⟨true, false, []⟩ 5 0)
      [⟨1000, .reloadClients directory⟩, ⟨1000, .tick io⟩]
    let after := m.handleReplies 1400 io [⟨5, 1, 1, 0, router.addr, 16⟩]
    m.probers.map Prober.inFlight = [[⟨1, 1000, 3001000⟩]] ∧ after.probers.length = 1 ∧
      ∀ p ∈ after.probers, p.inFlight = [] ∧ .sample true 1400 1400 ∈ p.history ∧ 1400 ≠ 1400 - 1000 := by
  decide +kernel

end NetworkHealth.Daemon
