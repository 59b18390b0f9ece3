import NetworkHealth.Daemon.AnsweredProbe
import NetworkHealth.Daemon.ProberInvariant
import NetworkHealth.Daemon.Sensitivity

/-! What a lost sample rests on. `tick` gives up a probe or cannot send one, and both count as
lost. A probe that was not sent is no news of the host when its name has not been looked up
yet, or when the send failed for a local reason. -/
namespace NetworkHealth.Daemon

def ProberEvent.isLoss : ProberEvent → Bool
  | .sample false _ _ => true
  | _ => false

/-- Every lost sample that a history has gained rests on what came before it. -/
def AddedLosses (Rests : List ProberEvent → Prop) (before after : List ProberEvent) : Prop :=
  ∀ newer rttUs t older, after = newer ++ .sample false rttUs t :: older → before <:+ older → Rests older

section Histories
variable {Rests : List ProberEvent → Prop} {before history : List ProberEvent}

theorem addedLosses_self : AddedLosses Rests before before := by
  intro newer rttUs t older hsplit hsuffix
  have hlength := congrArg List.length hsplit
  have hle := hsuffix.length_le
  simp only [List.length_append, List.length_cons] at hlength
  omega

theorem AddedLosses.cons (h : AddedLosses Rests before history) {event : ProberEvent}
    (hevent : event.isLoss = false) : AddedLosses Rests before (event :: history) := by
  intro newer rttUs t older hsplit hsuffix
  cases newer with
  | nil =>
    obtain ⟨rfl, -⟩ := List.cons.inj hsplit
    cases hevent
  | cons first newer =>
    obtain ⟨rfl, hrest⟩ := List.cons.inj hsplit
    exact h newer rttUs t older hrest hsuffix

theorem AddedLosses.of_cons {event : ProberEvent} (h : AddedLosses Rests before (event :: history)) :
    AddedLosses Rests before history := by
  intro newer rttUs t older hsplit hsuffix
  exact h (event :: newer) rttUs t older (by rw [hsplit]; rfl) hsuffix

theorem addedLosses_cons_sample (hsuffix : before <:+ history) (rttUs t : ℕ) :
    AddedLosses Rests before (.sample false rttUs t :: history) ↔
      Rests history ∧ AddedLosses Rests before history := by
  constructor
  · intro h
    exact ⟨h [] rttUs t history rfl hsuffix, h.of_cons⟩
  · rintro ⟨hrests, h⟩ newer rttUs' t' older hsplit holder
    cases newer with
    | nil =>
      obtain ⟨-, rfl⟩ := List.cons.inj hsplit
      exact hrests
    | cons first newer =>
      obtain ⟨rfl, hrest⟩ := List.cons.inj hsplit
      exact h newer rttUs' t' older hrest holder

end Histories

namespace Prober

/-- The prober as its send in a tick is handed to the kernel. -/
def attempt (now : ℕ) (io : Io) (p : Prober) : Prober :=
  let expired := expire io now ⟨[], false, false, []⟩ p p.inFlight
  ((requestLookup now expired.1 expired.2).2.log (.call now)).numbered

/-- A tick sends for this prober. -/
def SendsAt (now : ℕ) (p : Prober) : Prop :=
  (p.unexpired now).length < p.maxInFlight ∧ p.nextSendUs ≤ now + kSendSlackUs

instance (now : ℕ) (p : Prober) : Decidable (p.SendsAt now) := inferInstanceAs (Decidable (_ ∧ _))

end Prober

/-- A prober's stream and what it knows about its address. -/
structure Naming where
  uid : ℕ
  numeric : Bool
  endpoint : Endpoint
  resolveFailures : ℕ

def Prober.naming (p : Prober) : Naming := ⟨p.uid, p.numeric, p.endpoint, p.resolveFailures⟩

/-- What a lost sample can rest on in a tick, `p` being the prober as the tick finds it: a
probe that has waited, a send the kernel answers as unreachable, no socket for the address,
or a name that could not be looked up. -/
inductive Evidence (socket4 socket6 : IcmpSocket) (now : ℕ) (io : Io) (p : Prober) :
    List ProberEvent → Prop
  | waited {seq sentUs : ℕ} {target : Endpoint} {older : List ProberEvent}
    (hsent : .sent seq target sentUs ∈ older) (hwait : sentUs + p.timeoutUs ≤ now + kSendSlackUs) :
    Evidence socket4 socket6 now io p (.expired seq now :: older)
  | unreachable {error : Bytes} (hvalid : p.endpoint.valid = true)
    (hopen : (socketFor socket4 socket6 p).isOpen = true)
    (hanswer : io.send (p.attempt now io) = .unreachable error) :
    Evidence socket4 socket6 now io p (.refused now :: (p.attempt now io).history)
  | noSocket (hvalid : p.endpoint.valid = true)
    (hclosed : (socketFor socket4 socket6 p).isOpen = false) :
    Evidence socket4 socket6 now io p (.refused now :: (p.attempt now io).history)
  | lookupFailed (hunresolved : p.endpoint.valid = false) (hfailed : p.resolveFailures ≠ 0) :
    Evidence socket4 socket6 now io p (.refused now :: (p.attempt now io).history)

/-- A send is not due, or it is for a name whose lookup is not still to come, and does not fail
for a local reason. -/
def Grounded (socket4 socket6 : IcmpSocket) (now : ℕ) (io : Io) (p : Prober) : Prop :=
  p.SendsAt now → (p.endpoint.valid = false → p.resolveFailures ≠ 0) ∧
    (p.endpoint.valid = true → (socketFor socket4 socket6 p).isOpen = true →
      ∀ error, io.send (p.attempt now io) ≠ .failed error)

section Tick
variable (socket4 socket6 : IcmpSocket) (io : Io) (now : ℕ) (b : Board) (p : Prober)

theorem expire_snd (b' : Board) (queue : List InFlight) :
    (expire io now b p queue).2 = (expire io now b' p queue).2 := by
  induction queue generalizing b b' p with
  | nil => rfl
  | cons oldest rest ih =>
    unfold expire
    split_ifs
    · exact ih _ _ _
    · rfl

theorem requestLookup_snd (b' : Board) : (requestLookup now b p).2 = (requestLookup now b' p).2 := by
  unfold requestLookup
  split_ifs <;> rfl

theorem history_requestLookup : (requestLookup now b p).2.history = p.history := by
  unfold requestLookup
  split_ifs <;> rfl

theorem naming_requestLookup : (requestLookup now b p).2.naming = p.naming := by
  unfold requestLookup
  split_ifs <;> rfl

theorem naming_of_sendOutcome {now : ℕ} {p p' : Prober} (h : p.SendOutcome now p') :
    p'.naming = p.naming := by
  cases h <;> rfl

/-- What expiring and asking for a lookup leave alone. -/
theorem asked_fields :
    let expired := expire io now b p p.inFlight
    let asked := (requestLookup now expired.1 expired.2).2
    asked.endpoint = p.endpoint ∧ asked.inFlight = p.unexpired now ∧ asked.maxInFlight = p.maxInFlight ∧
      asked.nextSendUs = p.nextSendUs ∧ (asked.log (.call now)).numbered = p.attempt now io := by
  intro expired asked
  have hkept : expired.2.endpoint = p.endpoint ∧ expired.2.maxInFlight = p.maxInFlight ∧
      expired.2.nextSendUs = p.nextSendUs :=
    expire_keeps io now b p (fun q => q.endpoint = p.endpoint ∧ q.maxInFlight = p.maxInFlight ∧
      q.nextSendUs = p.nextSendUs) (fun _ _ _ h _ _ => h) ⟨rfl, rfl, rfl⟩
  have hasked : asked.endpoint = expired.2.endpoint ∧ asked.inFlight = expired.2.inFlight ∧
      asked.maxInFlight = expired.2.maxInFlight ∧ asked.nextSendUs = expired.2.nextSendUs := by
    simp only [asked, requestLookup]
    split_ifs <;> exact ⟨rfl, rfl, rfl, rfl⟩
  refine ⟨hasked.1.trans hkept.1, hasked.2.1.trans (inFlight_expire io now b p),
    hasked.2.2.1.trans hkept.2.1, hasked.2.2.2.trans hkept.2.2, ?_⟩
  unfold Prober.attempt
  dsimp only
  rw [expire_snd io now ⟨[], false, false, []⟩ p b, requestLookup_snd now _ _ expired.1]

variable {b p}

/-- Giving up on probes that have waited adds only losses that rest on that. -/
theorem addedLosses_attempt (hdeadline : ∀ q ∈ p.inFlight, q.deadlineUs = q.sentUs + p.timeoutUs)
    (hrecorded : Recorded p) :
    p.history <:+ (p.attempt now io).history ∧
      AddedLosses (Evidence socket4 socket6 now io p) p.history (p.attempt now io).history := by
  have hexpired := expire_keeps io now ⟨[], false, false, []⟩ p (fun q => q.inFlight ⊆ p.inFlight ∧
      p.history <:+ q.history ∧
      AddedLosses (Evidence socket4 socket6 now io p) p.history q.history) ?_
    ⟨List.Subset.refl _, List.suffix_rfl, addedLosses_self⟩
  · obtain ⟨-, hsuffix, hadded⟩ := hexpired
    have hhistory : (p.attempt now io).history =
        .call now :: (expire io now ⟨[], false, false, []⟩ p p.inFlight).2.history := by
      change _ :: (requestLookup _ _ _).2.history = _
      rw [history_requestLookup]
    rw [hhistory]
    exact ⟨hsuffix.trans (List.suffix_cons _ _), hadded.cons rfl⟩
  · rintro q oldest rest ⟨hqueue, hsuffix, hadded⟩ hfront hdue
    rw [hfront] at hqueue
    have holdest := hqueue List.mem_cons_self
    obtain ⟨target, htarget⟩ := hrecorded oldest holdest
    have hwait := hdeadline oldest holdest
    refine ⟨List.subset_of_cons_subset hqueue, ?_, ?_⟩
    · exact (hsuffix.trans (List.suffix_cons _ _)).trans (List.suffix_cons _ _)
    · have hlonger : p.history <:+ .expired oldest.seq now :: q.history :=
        hsuffix.trans (List.suffix_cons _ _)
      change AddedLosses _ _ (.sample false 0 now :: .expired oldest.seq now :: q.history)
      rw [addedLosses_cons_sample hlonger]
      exact ⟨.waited (hsuffix.subset htarget) (by omega), hadded.cons rfl⟩

theorem evidence_refused_iff :
    Evidence socket4 socket6 now io p (.refused now :: (p.attempt now io).history) ↔
      (p.endpoint.valid = false → p.resolveFailures ≠ 0) ∧
        (p.endpoint.valid = true → (socketFor socket4 socket6 p).isOpen = true →
          ∃ error, io.send (p.attempt now io) = .unreachable error) := by
  constructor
  · intro h
    cases h with
    | unreachable hvalid hopen hanswer => exact ⟨by simp [hvalid], fun _ _ => ⟨_, hanswer⟩⟩
    | noSocket hvalid hclosed => exact ⟨by simp [hvalid], by simp [hclosed]⟩
    | lookupFailed hunresolved hfailed => exact ⟨fun _ => hfailed, by simp [hunresolved]⟩
  · rintro ⟨hlookup, hanswer⟩
    cases hvalid : p.endpoint.valid with
    | false => exact .lookupFailed hvalid (hlookup hvalid)
    | true =>
      cases hopen : (socketFor socket4 socket6 p).isOpen with
      | false => exact .noSocket hvalid hopen
      | true =>
        obtain ⟨error, herror⟩ := hanswer hvalid hopen
        exact .unreachable hvalid hopen herror

/-- What a send adds to the history of its prober. -/
theorem history_sendProbe (b : Board) (p : Prober) :
    let numbered := (p.log (.call now)).numbered
    let after := (sendProbe socket4 socket6 io now b p).2
    (p.endpoint.valid = true ∧ (socketFor socket4 socket6 p).isOpen = true ∧ io.send numbered = .sent) ∧
        after.history = .sent numbered.sequence numbered.endpoint now :: numbered.history ∨
      ¬ (p.endpoint.valid = true ∧ (socketFor socket4 socket6 p).isOpen = true ∧ io.send numbered = .sent) ∧
        after.history = .sample false 0 now :: .refused now :: numbered.history := by
  intro numbered after
  simp only [after, sendProbe]
  split
  · next hblocked =>
    refine Or.inr ⟨?_, rfl⟩
    rintro ⟨hvalid, hopen, -⟩
    change (!p.endpoint.valid || !(socketFor socket4 socket6 p).isOpen) = true at hblocked
    simp [hvalid, hopen] at hblocked
  · next hclear =>
    change ¬ (!p.endpoint.valid || !(socketFor socket4 socket6 p).isOpen) = true at hclear
    simp only [Bool.or_eq_true, Bool.not_eq_true', not_or, Bool.not_eq_false] at hclear
    split
    · next hsent => exact Or.inl ⟨⟨hclear.1, hclear.2, hsent⟩, rfl⟩
    · next hanswer => exact Or.inr ⟨fun h => absurd (hanswer.symm.trans h.2.2) (by simp), rfl⟩
    · next hanswer => exact Or.inr ⟨fun h => absurd (hanswer.symm.trans h.2.2) (by simp), rfl⟩

/-- A tick adds only losses that rest on evidence exactly if its send is grounded. -/
theorem addedLosses_tickProber_iff (hdeadline : ∀ q ∈ p.inFlight, q.deadlineUs = q.sentUs + p.timeoutUs)
    (hrecorded : Recorded p) (b : Board) :
    AddedLosses (Evidence socket4 socket6 now io p) p.history
        (tickProber socket4 socket6 io now b p).2.history ↔
      Grounded socket4 socket6 now io p := by
  obtain ⟨hsuffix, hadded⟩ := addedLosses_attempt socket4 socket6 io now hdeadline hrecorded
  obtain ⟨hendpoint, hqueue, hmax, hnext, hattempt⟩ := asked_fields io now b p
  have hunsent : AddedLosses (Evidence socket4 socket6 now io p) p.history
      (.sent (p.attempt now io).sequence (p.attempt now io).endpoint now :: (p.attempt now io).history) :=
    hadded.cons rfl
  unfold tickProber sendDue
  dsimp only
  generalize requestLookup now (expire io now b p p.inFlight).1 (expire io now b p p.inFlight).2 = asked at *
  have hsocket : socketFor socket4 socket6 asked.2 = socketFor socket4 socket6 p := by
    unfold socketFor
    rw [hendpoint]
  have hdue : (asked.2.inFlight.length < asked.2.maxInFlight ∧ asked.2.nextSendUs ≤ now + kSendSlackUs) ↔
      p.SendsAt now := by rw [hqueue, hmax, hnext, Prober.SendsAt]
  split_ifs with hsends <;> rw [hdue] at hsends
  · change AddedLosses _ _ (sendProbe socket4 socket6 io now asked.1 asked.2).2.history ↔ _
    have hsend := history_sendProbe socket4 socket6 io now asked.1 asked.2
    dsimp only at hsend
    rw [hattempt, hendpoint, hsocket] at hsend
    obtain ⟨⟨hvalid, hopen, hsent⟩, he⟩ | ⟨hunsent, he⟩ := hsend <;> rw [he]
    · refine iff_of_true hunsent fun _ => ⟨by simp [hvalid], fun _ _ error => ?_⟩
      rw [hsent]
      simp
    · rw [addedLosses_cons_sample (hsuffix.trans (List.suffix_cons _ _)), evidence_refused_iff,
        and_iff_left (hadded.cons rfl), Grounded, forall_prop_of_true hsends]
      refine and_congr_right fun _ => forall_congr' fun hvalid => forall_congr' fun hopen => ?_
      cases hanswer : io.send (p.attempt now io) with
      | sent => exact absurd ⟨hvalid, hopen, hanswer⟩ hunsent
      | unreachable error => simp
      | failed error => simp
  · refine iff_of_true ?_ fun h => absurd h hsends
    rw [← hattempt] at hadded
    exact hadded.of_cons

/-- What a tick leaves of what a prober knows about its address. Nothing is sent to an address
that is not known. -/
theorem naming_tickProber (b : Board) (p : Prober) :
    (tickProber socket4 socket6 io now b p).2.naming = p.naming ∧
      (p.endpoint.valid = false → ∀ seq target t,
        .sent seq target t ∈ (tickProber socket4 socket6 io now b p).2.history →
          .sent seq target t ∈ p.history) := by
  have hexpired := expire_keeps io now b p (fun q => q.naming = p.naming ∧ ∀ seq target t,
      .sent seq target t ∈ q.history → .sent seq target t ∈ p.history)
    (fun q oldest rest hq _ _ => ⟨hq.1, fun seq target t hsent => hq.2 seq target t ?_⟩)
    ⟨rfl, fun _ _ _ h => h⟩
  · have hview := naming_requestLookup now (expire io now b p p.inFlight).1 (expire io now b p p.inFlight).2
    have hhistory := history_requestLookup now (expire io now b p p.inFlight).1
      (expire io now b p p.inFlight).2
    unfold tickProber sendDue
    dsimp only
    generalize requestLookup now _ _ = asked at *
    rw [← hhistory, ← hview] at hexpired
    split_ifs
    · have hsend := history_sendProbe socket4 socket6 io now asked.1 asked.2
      have houtcome := sendOutcome_sendProbe socket4 socket6 io now asked.1 asked.2
      generalize (sendProbe socket4 socket6 io now asked.1 asked.2).2 = sent at *
      refine ⟨(naming_of_sendOutcome houtcome).trans hexpired.1, fun hinvalid seq target t hmem => ?_⟩
      apply hexpired.2 seq target t
      obtain ⟨⟨hvalid, -⟩, -⟩ | ⟨-, he⟩ := hsend
      · have hendpoint : asked.2.endpoint = p.endpoint := congrArg Naming.endpoint hexpired.1
        rw [hendpoint, hinvalid] at hvalid
        cases hvalid
      · change _ ∈ sent.history at hmem
        rw [he] at hmem
        simpa [Prober.numbered, Prober.log] using hmem
    · exact ⟨hexpired.1, fun _ => hexpired.2⟩
  · simpa [Prober.count, Prober.giveUp, Prober.log] using hsent

end Tick

theorem deadline_rule : ProberRule fun _ p => ∀ q ∈ p.inFlight, q.deadlineUs = q.sentUs + p.timeoutUs where
  later := fun _ _ _ _ h => h
  fresh := fun _ _ _ _ _ _ _ q hq => absurd hq (by simp [freshProber])
  rewired := fun _ _ _ h => h
  asked := fun _ _ h => h
  gaveUp := by
    intro now p oldest rest h hqueue _ q hq
    refine h q ?_
    rw [hqueue]
    exact List.mem_cons_of_mem oldest hq
  sent := by
    intro now p p' h _ _ _ houtcome
    change ∀ q ∈ p'.inFlight, q.deadlineUs = q.sentUs + p'.timeoutUs
    rw [(fields_of_stream (stream_of_sendOutcome houtcome)).2.1]
    obtain ⟨hqueue, -⟩ | ⟨hqueue, -⟩ := inFlight_of_sendOutcome houtcome <;> rw [hqueue]
    · exact h
    · intro q hq
      obtain hq | hq := List.mem_append.mp hq
      · exact h q hq
      · rw [List.mem_singleton.mp hq]
  answered := fun _ _ _ _ _ h _ q hq => h q (List.mem_of_mem_eraseP hq)
  resolved := by
    intro now p result h
    unfold Prober.resolve
    split_ifs <;> exact h

/-- The losses among what a prober has been through. -/
def Prober.losses (p : Prober) : List ProberEvent := p.history.filter ProberEvent.isLoss

/-- Every loss that a step applies to a prober rests on evidence. Only ticks apply any. -/
def Backed (numeric : Bytes → Option Endpoint) (m : Monitor) (event : Event) : Prop :=
  match event.handler with
  | .tick io => ∀ (i : ℕ) (p p' : Prober), m.probers[i]? = some p → (m.tick event.now io).probers[i]? = some p' →
      AddedLosses (Evidence m.socket4 m.socket6 event.now io p) p.history p'.history
  | _ => ∀ p' ∈ (m.step numeric event).probers,
      p'.losses = [] ∨ ∃ p ∈ m.probers, p.uid = p'.uid ∧ p'.losses = p.losses

/-- Every send of a step is for a name whose lookup is not still to come, and does not fail
for a local reason. -/
def GroundedStep (m : Monitor) (event : Event) : Prop :=
  match event.handler with
  | .tick io => ∀ p ∈ m.probers, Grounded m.socket4 m.socket6 event.now io p
  | _ => True

theorem Monitor.getElem?_tick {m : Monitor} {i : ℕ} {p : Prober} (hp : m.probers[i]? = some p) (now : ℕ)
    (io : Io) : ∃ b, (m.tick now io).probers[i]? =
      some (tickProber m.socket4 m.socket6 io now b p).2 :=
  getElem?_mapAccum hp _

theorem backed_iff (numeric : Bytes → Option Endpoint) (m : Monitor)
    (hdeadline : ∀ p ∈ m.probers, ∀ q ∈ p.inFlight, q.deadlineUs = q.sentUs + p.timeoutUs)
    (hrecorded : ∀ p ∈ m.probers, Recorded p) (event : Event) :
    Backed numeric m event ↔ GroundedStep m event := by
  by_cases htick : ∃ io, event.handler = .tick io
  · obtain ⟨io, htick⟩ := htick
    simp only [Backed, GroundedStep, htick]
    have hiff : ∀ b, ∀ p ∈ m.probers, AddedLosses (Evidence m.socket4 m.socket6 event.now io p) p.history
        (tickProber m.socket4 m.socket6 io event.now b p).2.history ↔
          Grounded m.socket4 m.socket6 event.now io p := fun b p hp =>
      addedLosses_tickProber_iff m.socket4 m.socket6 io event.now (hdeadline p hp) (hrecorded p hp) b
    constructor
    · intro h p hp
      obtain ⟨i, hi⟩ := List.mem_iff_getElem?.mp hp
      obtain ⟨b, hb⟩ := Monitor.getElem?_tick hi event.now io
      exact (hiff b p hp).mp (h i p _ hi hb)
    · intro h i p p' hi hp'
      obtain ⟨b, hb⟩ := Monitor.getElem?_tick hi event.now io
      obtain rfl := Option.some.inj (hp'.symm.trans hb)
      have hp := List.mem_of_getElem? hi
      exact (hiff b p hp).mpr (h p hp)
  · have hview := view_step (fun p => (p.uid, p.losses)) numeric m event (by simpa using htick)
      (fun _ _ _ => rfl) (fun _ _ _ _ _ _ _ => rfl) fun _ _ p now result => by
        unfold Prober.resolve
        split_ifs <;> rfl
    have hquiet : ∀ p' ∈ (m.step numeric event).probers,
        p'.losses = [] ∨ ∃ p ∈ m.probers, p.uid = p'.uid ∧ p'.losses = p.losses := by
      intro p' hp'
      obtain ⟨p, hp, he⟩ | ⟨uid, host, intervalUs, timeoutUs, he⟩ := hview p' hp'
      · simp only [Prod.mk.injEq] at he
        exact Or.inr ⟨p, hp, he.1.symm, he.2⟩
      · simp only [Prod.mk.injEq] at he
        exact Or.inl he.2
    unfold Backed GroundedStep
    split
    · next io he => exact absurd ⟨io, he⟩ htick
    · exact iff_of_true hquiet trivial

/-- A lookup result of this kind is handled for the prober with this uid. -/
def Answers (kind : Resolution → Prop) (uid : ℕ) (m : Monitor) (event : Event) : Prop :=
  (∃ p ∈ m.probers, p.uid = uid) ∧
    ∃ results, event.handler = .handleResolutions results ∧ ∃ result ∈ results, result.uid = uid ∧ kind result

/-- Nothing has come of looking its name up, and nothing has been sent. -/
def Prober.Unresolved (p : Prober) : Prop :=
  p.endpoint = .empty ∧ p.resolveFailures = 0 ∧ ∀ seq target t, .sent seq target t ∉ p.history

/-- What is known of an address came from lookups that have been answered. -/
structure LookedUp (answered : (Resolution → Prop) → ℕ → Prop) (p : Prober) : Prop where
  failed : p.resolveFailures ≠ 0 → answered (·.ok = false) p.uid
  first : p.numeric = false → answered (fun _ => True) p.uid ∨ p.Unresolved

section Lookups
variable {answered answered' : (Resolution → Prop) → ℕ → Prop}

theorem LookedUp.mono {p : Prober} (h : LookedUp answered p)
    (hmono : ∀ kind uid, answered kind uid → answered' kind uid) : LookedUp answered' p where
  failed hfailures := hmono _ _ (h.failed hfailures)
  first hnumeric := (h.first hnumeric).imp_left (hmono _ _)

theorem lookedUp_fresh (numeric : Bytes → Option Endpoint) (now uid : ℕ) (host : Bytes)
    (intervalUs timeoutUs : ℕ) :
    LookedUp answered (freshProber numeric now uid host intervalUs timeoutUs) where
  failed hfailures := absurd rfl hfailures
  first hnumeric := by
    have hnone : numeric host = none := by simpa [freshProber] using hnumeric
    refine Or.inr ⟨?_, rfl, fun _ _ _ => List.not_mem_nil⟩
    simp [freshProber, hnone]

theorem lookedUp_congr {p q : Prober} (hnaming : p.naming = q.naming)
    (hsent : ∀ seq target t, .sent seq target t ∈ p.history ↔ .sent seq target t ∈ q.history) :
    LookedUp answered p = LookedUp answered q := by
  simp only [Prober.naming, Naming.mk.injEq] at hnaming
  obtain ⟨huid, hnumeric, hendpoint, hfailures⟩ := hnaming
  have hiff : p.Unresolved ↔ q.Unresolved := by
    simp only [Prober.Unresolved, hendpoint, hfailures, hsent]
  apply propext
  constructor
  · intro h
    refine ⟨?_, fun hn => ?_⟩
    · rw [← huid, ← hfailures]
      exact h.failed
    · rw [← huid]
      exact (h.first (hnumeric.trans hn)).imp_right hiff.mp
  · intro h
    refine ⟨?_, fun hn => ?_⟩
    · rw [huid, hfailures]
      exact h.failed
    · rw [huid]
      exact (h.first (hnumeric.symm.trans hn)).imp_right hiff.mpr

/-- The prober a uid leads to is one with that uid. -/
theorem Monitor.WellWired.uid_of_proberOf {m : Monitor} (h : m.WellWired) {uid i : ℕ} {p : Prober}
    (hp : m.proberOf uid = some (i, p)) : p.uid = uid := by
  obtain ⟨hlookup, hi⟩ := Monitor.proberOf_eq_some.mp hp
  rw [h.table] at hlookup
  have hmem := List.mem_zipIdx_iff_getElem?.mp (List.mem_reverse.mp (mem_of_lookup hlookup))
  simp only [List.getElem?_map, hi, Option.map_some, Option.some.injEq] at hmem
  exact hmem

theorem lookedUp_handleResolutions {m : Monitor} (hwired : m.WellWired)
    (h : ∀ p ∈ m.probers, LookedUp answered p) (now : ℕ) (results : List Resolution)
    (hanswers : ∀ kind uid, Answers kind uid m ⟨now, .handleResolutions results⟩ → answered kind uid) :
    ∀ p ∈ (m.handleResolutions now results).probers, LookedUp answered p := by
  have hall : (m.handleResolutions now results).wiring = m.wiring ∧
      ∀ p ∈ (m.handleResolutions now results).probers, LookedUp answered p := by
    refine List.foldlRecOn (motive := fun m' : Monitor => m'.wiring = m.wiring ∧
      ∀ p ∈ m'.probers, LookedUp answered p) results _ ⟨rfl, h⟩ ?_
    rintro m' ⟨hwiring, hm'⟩ result hresult
    refine ⟨(m'.wiring_handleResolution now result).trans hwiring, ?_⟩
    obtain he | ⟨i, old, dirty, hold, he⟩ := m'.handleResolution_cases now result <;> rw [he]
    · exact hm'
    · intro p hp
      obtain hp | rfl := List.mem_or_eq_of_mem_set hp
      · exact hm' p hp
      · have huid : old.uid = result.uid := (hwired.of_wiring hwiring).uid_of_proberOf hold
        have hmem := List.mem_of_getElem? (Monitor.proberOf_eq_some.mp hold).2
        have hknown : ∃ q ∈ m.probers, q.uid = old.uid := by
          have hstreams : m'.probers.map Prober.stream = m.probers.map Prober.stream :=
            congrArg (·.2.1) hwiring
          have hin := List.mem_map_of_mem (f := Prober.stream) hmem
          rw [hstreams] at hin
          obtain ⟨q, hq, hsame⟩ := List.mem_map.mp hin
          exact ⟨q, hq, congrArg Stream.uid hsame⟩
        have hnews : ∀ kind : Resolution → Prop, kind result → answered kind old.uid := fun kind hkind =>
          hanswers kind old.uid ⟨hknown, results, rfl, result, hresult, huid.symm, hkind⟩
        refine ⟨fun hfailures => ?_, fun _ => Or.inl ?_⟩
        · cases hok : result.ok with
          | false =>
            have := hnews (·.ok = false) hok
            simpa [Prober.resolve, hok] using this
          | true =>
            simp [Prober.resolve, hok] at hfailures
        · have := hnews (fun _ => True) trivial
          rwa [show (old.resolve now result).uid = old.uid from
            congrArg Stream.uid (stream_resolve now old result)]
  exact hall.2

theorem lookedUp_step (numeric : Bytes → Option Endpoint) {m : Monitor} (hwired : m.WellWired)
    (h : ∀ p ∈ m.probers, LookedUp answered p) (event : Event)
    (hanswers : ∀ kind uid, Answers kind uid m event → answered kind uid) :
    ∀ p ∈ (m.step numeric event).probers, LookedUp answered p := by
  obtain ⟨now, handler⟩ := event
  by_cases hresults : ∃ results, handler = .handleResolutions results
  · obtain ⟨results, rfl⟩ := hresults
    exact lookedUp_handleResolutions hwired h now results hanswers
  by_cases htick : ∃ io, handler = .tick io
  · obtain ⟨io, rfl⟩ := htick
    intro p hp
    obtain ⟨q, hq, b, -, rfl⟩ :=
      exists_of_mem_mapAccum (fun _ => True) m.probers (fun _ _ _ _ => trivial) trivial hp
    obtain ⟨hnaming, hsent⟩ := naming_tickProber m.socket4 m.socket6 io now b q
    generalize (tickProber m.socket4 m.socket6 io now b q).2 = p at *
    simp only [Prober.naming, Naming.mk.injEq] at hnaming
    obtain ⟨huid, hnumeric, hendpoint, hfailures⟩ := hnaming
    refine ⟨?_, ?_⟩
    · rw [huid, hfailures]
      exact (h q hq).failed
    · rw [huid, hnumeric]
      refine fun hname => ((h q hq).first hname).imp_right ?_
      rintro ⟨hempty, hnone, hunsent⟩
      refine ⟨hendpoint.trans hempty, hfailures.trans hnone, fun seq target t hmem => ?_⟩
      exact hunsent seq target t (hsent (by rw [hempty]; rfl) seq target t hmem)
  · intro p hp
    obtain ⟨q, hq, he⟩ | ⟨uid, host, intervalUs, timeoutUs, he⟩ := view_step (LookedUp answered)
      numeric m ⟨now, handler⟩ (by simpa using htick)
      (fun _ _ _ => lookedUp_congr rfl fun _ _ _ => Iff.rfl)
      (fun _ _ _ _ _ _ _ => lookedUp_congr rfl fun _ _ _ => by simp [Prober.answer, Prober.count, Prober.log])
      (fun results he => absurd ⟨results, he⟩ hresults) p hp <;> rw [he]
    · exact h q hq
    · exact lookedUp_fresh numeric now uid host intervalUs timeoutUs

end Lookups

section Frame
variable (socket4 socket6 : IcmpSocket) (io : Io) (now : ℕ) (b : Board) {p : Prober} {s : Subscriber}

theorem destination?_boardRule {subscribers : List Subscriber} (hs : s ∉ subscribers) :
    BoardRule subscribers fun b' => b'.destination? s = b.destination? s where
  sampled b' s' hs' received rttUs realNow h := by
    rw [destination?_sampleAt, if_neg, h]
    rintro rfl
    exact hs hs'
  noted _ h := h
  asked _ _ h := h

/-- A prober with nothing in flight that does not send leaves everything as it is. -/
theorem destination?_tickProber_of_idle (hempty : p.inFlight = []) (hidle : ¬ p.SendsAt now) :
    (tickProber socket4 socket6 io now b p).1.destination? s = b.destination? s := by
  obtain ⟨-, hqueue, hmax, hnext, -⟩ := asked_fields io now b p
  have hdue : ¬ ((requestLookup now b p).2.inFlight.length < (requestLookup now b p).2.maxInFlight ∧
      (requestLookup now b p).2.nextSendUs ≤ now + kSendSlackUs) := by
    rw [hempty] at hqueue hmax hnext
    change (requestLookup now b p).2.inFlight = _ at hqueue
    change (requestLookup now b p).2.maxInFlight = _ at hmax
    change (requestLookup now b p).2.nextSendUs = _ at hnext
    rw [hqueue, hmax, hnext]
    exact hidle
  unfold tickProber sendDue
  rw [hempty]
  dsimp only [expire]
  rw [if_neg hdue]
  unfold requestLookup
  split_ifs <;> rfl

end Frame

/-- A destination is left alone by ticks in which its prober neither waits nor sends. -/
theorem Monitor.WellWired.destination?_tick {m : Monitor} (hwired : m.WellWired) {p : Prober} (hp : p ∈ m.probers)
    (hempty : p.inFlight = []) {now : ℕ} (hidle : ¬ p.SendsAt now) (io : Io) {s : Subscriber}
    (hs : s ∈ p.subscribers) : (m.tick now io).destination? s = m.destination? s := by
  refine mapAccum_keeps (fun b : Board => b.destination? s = m.destination? s) m.probers
    (fun b q hq hb => ?_) rfl
  rw [← hb]
  by_cases hmem : s ∈ q.subscribers
  · obtain ⟨i, hi⟩ := List.mem_iff_getElem?.mp hp
    obtain ⟨j, hj⟩ := List.mem_iff_getElem?.mp hq
    obtain ⟨wire, hwire, hprober, rfl⟩ := (hwired.mem_subscribers hi s).mp hs
    have hsame := hwired.prober_of_mem_subscribers hwire hj hmem
    obtain rfl : i = j := Option.some.inj (hprober.symm.trans hsame)
    obtain rfl : p = q := Option.some.inj (hi.symm.trans hj)
    exact destination?_tickProber_of_idle m.socket4 m.socket6 io now b hempty hidle
  · exact (destination?_boardRule b hmem).tickProber m.socket4 m.socket6 io now rfl

/-- Over every run: each loss that a step applies rests on evidence exactly if each send of a
step is grounded; a name that counts as failed has been looked up and failed; and while the
first lookup of a name is outstanding, a grounded tick leaves its destinations alone. -/
theorem lost_verdict_backed_iff (numeric : Bytes → Option Endpoint) (options : Options)
    (socket4 socket6 : IcmpSocket) (cookie startedRealUs : ℕ) (events : List Event) :
    let initial : Monitor := .initial options socket4 socket6 cookie startedRealUs
    let m := (handlers numeric).run initial events
    ((handlers numeric).Admits (Backed numeric) initial events ↔
      (handlers numeric).Admits GroundedStep initial events) ∧
    (∀ p ∈ m.probers, p.resolveFailures ≠ 0 →
      (handlers numeric).Occurs (Answers (·.ok = false) p.uid) initial events) ∧
    ∀ p ∈ m.probers, p.numeric = false →
      ¬ (handlers numeric).Occurs (Answers (fun _ => True) p.uid) initial events →
      ∀ now io, GroundedStep m ⟨now, .tick io⟩ →
        ∀ s ∈ p.subscribers, (m.tick now io).destination? s = m.destination? s := by
  intro initial m
  have hlooked : ∀ p ∈ m.probers,
      LookedUp (fun kind uid => (handlers numeric).Occurs (Answers kind uid) initial events) p := by
    induction events using List.reverseRecOn with
    | nil => exact fun _ h => absurd h List.not_mem_nil
    | append_singleton events event ih =>
      have hbefore : ∀ p ∈ (handlers numeric).run initial events |>.probers,
          LookedUp (fun kind uid => (handlers numeric).Occurs (Answers kind uid) initial (events ++ [event])) p :=
        fun p hp => (ih p hp).mono fun _ _ h => Machine.occurs_concat.mpr (Or.inl h)
      have hstep := lookedUp_step numeric
        (Monitor.wellWired_run numeric options socket4 socket6 cookie startedRealUs events) hbefore event
        fun kind uid h => Machine.occurs_concat.mpr (Or.inr h)
      simpa [m, initial] using hstep
  refine ⟨?_, fun p hp => (hlooked p hp).failed, ?_⟩
  · refine Machine.admits_congr (fun m : Monitor => (∀ p ∈ m.probers, ∀ q ∈ p.inFlight,
      q.deadlineUs = q.sentUs + p.timeoutUs) ∧ ∀ p ∈ m.probers, Recorded p)
      (fun m event h => backed_iff numeric m h.1 h.2 event) (fun m event h _ => ?_)
      ⟨fun _ h => absurd h List.not_mem_nil, fun _ h => absurd h List.not_mem_nil⟩ events
    exact ⟨deadline_rule.step numeric event h.1 (Nat.zero_le _),
      recorded_rule.step numeric event h.2 (Nat.zero_le _)⟩
  · intro p hp hnumeric hfirst now io hgrounded s hs
    have hwired : m.WellWired :=
      Monitor.wellWired_run numeric options socket4 socket6 cookie startedRealUs events
    obtain hanswered | ⟨hempty, hnone, hunsent⟩ := (hlooked p hp).first hnumeric
    · exact absurd hanswered hfirst
    · have hrecorded := recorded_rule.always numeric options socket4 socket6 cookie startedRealUs events p hp
      have hqueue : p.inFlight = [] := by
        refine List.eq_nil_iff_forall_not_mem.mpr fun q hq => ?_
        obtain ⟨target, htarget⟩ := hrecorded q hq
        exact hunsent _ _ _ htarget
      refine hwired.destination?_tick hp hqueue (fun hsends => ?_) io hs
      exact (hgrounded p hp hsends).1 (by rw [hempty]; rfl) hnone

/-- A name that has just been configured: the tick that asks for its lookup counts a loss, and
the destination is bad with the lookup outstanding. A local failure to send counts as well. -/
theorem lost_verdict_unbacked :
    let entry : Bytes → Json := fun text => .object [(ascii "address", .string text)]
    let directory : Directory := ⟨[⟨ascii "w.json", some (.object [(ascii "destinations",
      .array [entry (ascii "router"), entry (ascii "192.0.2.1")])])⟩], by decide⟩
    let numeric : Bytes → Option Endpoint := fun host =>
      if host = ascii "192.0.2.1" then some ⟨.inet, ⟨.inet, [192, 0, 2, 1]⟩, 16, host⟩ else none
    let io : Io := ⟨fun _ => .failed (ascii "No buffer space available"), fun _ => 0⟩
    let initial : Monitor :=
      .initial ⟨[], 1000000, 0, 0, 50, by decide, by decide⟩ ⟨true, false, []⟩ ⟨true, false, []⟩ 5 0
    let m := (handlers numeric).run initial [⟨1000, .reloadClients directory⟩]
    let after := m.tick 1000 io
    ¬ (handlers numeric).Admits (Backed numeric) initial
        [⟨1000, .reloadClients directory⟩, ⟨1000, .tick io⟩] ∧
      after.lookups = [⟨1, ascii "router"⟩] ∧ after.probers.map Prober.resolving = [true, false] ∧
      m.clients.flatMap (·.destinations.map Destination.state) = [.unknown, .unknown] ∧
      after.clients.flatMap (·.destinations.map Destination.state) = [.bad, .bad] := by
  intro entry directory numeric io initial m after
  refine ⟨fun hbacked => ?_, by decide +kernel, by decide +kernel, by decide +kernel, by decide +kernel⟩
  have hdeadline := deadline_rule.always numeric ⟨[], 1000000, 0, 0, 50, by decide, by decide⟩
    ⟨true, false, []⟩ ⟨true, false, []⟩ 5 0 [⟨1000, .reloadClients directory⟩]
  have hrecorded := recorded_rule.always numeric ⟨[], 1000000, 0, 0, 50, by decide, by decide⟩
    ⟨true, false, []⟩ ⟨true, false, []⟩ 5 0 [⟨1000, .reloadClients directory⟩]
  have hgrounded := (backed_iff numeric m hdeadline hrecorded ⟨1000, .tick io⟩).mp hbacked.2.1
  have hpending : ∃ p ∈ m.probers, ((p.unexpired 1000).length < p.maxInFlight ∧
      p.nextSendUs ≤ 1000 + kSendSlackUs) ∧ p.endpoint.valid = false ∧ p.resolveFailures = 0 := by
    decide +kernel
  obtain ⟨p, hp, hsends, hinvalid, hnone⟩ := hpending
  exact (hgrounded p hp hsends).1 hinvalid hnone

end NetworkHealth.Daemon
