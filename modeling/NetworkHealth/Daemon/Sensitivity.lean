import NetworkHealth.Library.Hysteresis
import NetworkHealth.Daemon.Rules

/-! The sensitivity rule. A destination keeps only a candidate and a streak, and they always
encode the run of equal verdicts its history ends with, through any samples, thresholds,
sensitivities and reloads. -/
namespace NetworkHealth.Daemon
open Hysteresis

/-- The bookkeeping agrees with the history: nothing is shown before the first sample. -/
def Judged (d : Destination) : Prop :=
  d.samples = [] ∧ d.state = .unknown ∨
    d.state ≠ .unknown ∧ Encodes d.state d.candidate d.candidateStreak d.samples

/-- The rule: what is shown is what the history rules, and with one sensitivity throughout that
is the verdict of the newest window longer than it, or the first verdict without one. -/
structure FollowsRule (d : Destination) : Prop where
  shown : d.state = (ruled d.samples).getD .unknown
  window : ∀ n, (∀ sample ∈ d.samples, sample.2 = n) → ∀ newer v older,
    d.samples.map Prod.fst = newer ++ List.replicate (n + 1) v ++ older →
    (∀ newer' v' older', d.samples.map Prod.fst = newer' ++ List.replicate (n + 1) v' ++ older' →
      newer.length ≤ newer'.length) → d.state = v
  first : ∀ n, (∀ sample ∈ d.samples, sample.2 = n) →
    (∀ newer v older, d.samples.map Prod.fst ≠ newer ++ List.replicate (n + 1) v ++ older) →
    d.state = (d.samples.map Prod.fst).getLast?.getD .unknown

/-- A sample with the settings in force when it is applied. -/
structure Reading where
  received : Bool
  rttUs : ℕ
  realNow : ℕ
  thresholdUs : ℕ
  sensitivity : ℕ
  deriving DecidableEq, Repr

/-- A destination through samples and changes of its settings, first sample first. -/
def Destination.replay (d : Destination) (readings : List Reading) : Destination :=
  readings.foldl (fun d r => { d with thresholdUs := r.thresholdUs, sensitivity := r.sensitivity }.sample
    r.received r.rttUs r.realNow) d

/-- The verdicts of the readings with the sensitivities in force, newest first. -/
def verdicts (readings : List Reading) : List (HealthState × ℕ) :=
  (readings.map fun r => (classify r.received r.rttUs r.thresholdUs, r.sensitivity)).reverse

theorem Judged.followsRule {d : Destination} (h : Judged d) : FollowsRule d := by
  have hshown : d.state = (ruled d.samples).getD .unknown := by
    rcases h with ⟨hnone, hunknown⟩ | ⟨-, hencodes⟩
    · rw [hnone, hunknown]
      rfl
    · rw [hencodes.ruled_eq]
      rfl
  have hconstant : ∀ n, (∀ sample ∈ d.samples, sample.2 = n) →
      (d.samples.map Prod.fst).map (·, n) = d.samples := by
    intro n hn
    rw [List.map_map]
    conv_rhs => rw [← List.map_id d.samples]
    refine List.map_congr_left fun sample hsample => ?_
    exact Prod.ext rfl (hn sample hsample).symm
  refine ⟨hshown, fun n hn newer v older hwindow hnewest => ?_, fun n hn hnone => ?_⟩
  · have hruled := (ruled_constant n (d.samples.map Prod.fst)).1 newer v older hwindow hnewest
    rw [hconstant n hn] at hruled
    rw [hshown, hruled]
    rfl
  · have hruled := (ruled_constant n (d.samples.map Prod.fst)).2 hnone
    rw [hconstant n hn] at hruled
    rw [hshown, hruled]

theorem judged_judge {d : Destination} {verdict : HealthState} {past : List (HealthState × ℕ)}
    (hverdict : verdict ≠ .unknown) (hsamples : d.samples = (verdict, d.sensitivity) :: past)
    (h : past = [] ∧ d.state = .unknown ∨
      d.state ≠ .unknown ∧ Encodes d.state d.candidate d.candidateStreak past) :
    Judged (d.judge verdict) := by
  unfold Destination.judge
  rcases h with ⟨hnone, hunknown⟩ | ⟨hknown, hencodes⟩
  · rw [if_pos hunknown]
    refine Or.inr ⟨hverdict, ?_⟩
    simp only [hsamples, hnone]
    exact encodes_singleton verdict _
  · rw [if_neg hknown]
    by_cases hagree : verdict = d.state
    · rw [if_pos hagree]
      refine Or.inr ⟨hknown, ?_⟩
      simp only [hsamples, hagree]
      exact hencodes.agree _
    · rw [if_neg hagree]
      dsimp only
      by_cases hmany : d.sensitivity < if verdict = d.candidate then d.candidateStreak + 1 else 1
      · rw [if_pos hmany]
        refine Or.inr ⟨hverdict, ?_⟩
        simp only [hsamples]
        exact hencodes.switch hagree hmany
      · rw [if_neg hmany]
        refine Or.inr ⟨hknown, ?_⟩
        simp only [hsamples]
        exact hencodes.doubt hagree hmany

theorem Judged.sample {d : Destination} (h : Judged d) (received : Bool) (rttUs realNow : ℕ) :
    Judged (d.sample received rttUs realNow) := by
  have hnext : Judged ((d.count received rttUs realNow).judge
      (classify received rttUs d.thresholdUs)) :=
    judged_judge (classify_ne_unknown received rttUs d.thresholdUs) rfl h
  unfold Destination.sample
  dsimp only
  split_ifs
  · exact hnext
  · exact hnext

theorem judged_rule : DestinationRule Judged where
  loaded := fun _ h => Or.inl ⟨h.samples, h.state⟩
  carried := fun _ _ _ h _ _ => h
  wired := fun _ _ h => h
  sampled := fun _ received rttUs realNow h => h.sample received rttUs realNow

/-- The history is what its name says: a sample enters its verdict under the threshold in
force, with the sensitivity in force. -/
theorem samples_sample (d : Destination) (received : Bool) (rttUs realNow : ℕ) :
    (d.sample received rttUs realNow).samples =
      (classify received rttUs d.thresholdUs, d.sensitivity) :: d.samples := by
  have hjudge : ∀ (d : Destination) verdict, (d.judge verdict).samples = d.samples := by
    intro d verdict
    unfold Destination.judge
    dsimp only
    split_ifs <;> rfl
  unfold Destination.sample
  dsimp only
  split_ifs <;> exact hjudge _ _

theorem samples_replay (d : Destination) (readings : List Reading) :
    (d.replay readings).samples = verdicts readings ++ d.samples := by
  induction readings generalizing d with
  | nil => rfl
  | cons r rest ih =>
    rw [Destination.replay, List.foldl_cons, ← Destination.replay, ih, samples_sample]
    simp [verdicts]

theorem Judged.replay {d : Destination} (h : Judged d) (readings : List Reading) :
    Judged (d.replay readings) := by
  induction readings generalizing d with
  | nil => exact h
  | cons r rest ih =>
    refine ih (d := { d with thresholdUs := r.thresholdUs, sensitivity := r.sensitivity }.sample
      r.received r.rttUs r.realNow) (Judged.sample ?_ _ _ _)
    exact h

theorem destination?_modifyDestination (b : Board) (s s' : Subscriber) (f : Destination → Destination)
    (clients : List Client) (hclients : clients = modifyDestination b.clients s f) (b' : Board)
    (hb' : b'.clients = clients) :
    b'.destination? s' = if s = s' then (b.destination? s').map f else b.destination? s' := by
  obtain ⟨c, i⟩ := s
  obtain ⟨c', i'⟩ := s'
  simp only [Board.destination?, hb', hclients, modifyDestination, List.getElem?_modify,
    Subscriber.mk.injEq]
  cases b.clients[c']? with
  | none => simp
  | some client =>
    by_cases hc : c = c'
    · simp [hc, List.getElem?_modify]
      by_cases hi : i = i' <;> simp [hi]
    · simp [hc]

theorem destination?_sampleAt (received : Bool) (rttUs realNow : ℕ) (b : Board) (s s' : Subscriber) :
    (b.sampleAt received rttUs realNow s).destination? s' =
      if s = s' then (b.destination? s').map (·.sample received rttUs realNow) else b.destination? s' := by
  unfold Board.sampleAt
  split
  · next hnone =>
    split_ifs with hs
    · rw [← hs, hnone]
      rfl
    · rfl
  · exact destination?_modifyDestination b s s' _ _ rfl _ rfl

/-- A sample reaches every destination as often as the prober lists it, and no other: whoever
else shares the prober makes no difference. -/
theorem destination?_applySample (b : Board) (p : Prober) (received : Bool) (rttUs now realNow : ℕ)
    (s : Subscriber) :
    (applySample b p received rttUs now realNow).1.destination? s =
      (b.destination? s).map (fun d => (·.sample received rttUs realNow)^[p.subscribers.count s] d) := by
  suffices hall : ∀ (subscribers : List Subscriber) (b : Board),
      (subscribers.foldl (Board.sampleAt received rttUs realNow) b).destination? s =
        (b.destination? s).map fun d => (·.sample received rttUs realNow)^[subscribers.count s] d from
    hall p.subscribers b
  intro subscribers
  induction subscribers with
  | nil => intro b; simp
  | cons s' rest ih =>
    intro b
    rw [List.foldl_cons, ih, destination?_sampleAt]
    by_cases hs : s' = s
    · subst hs
      simp [Function.comp_def]
    · simp [hs]

/-- The sensitivity rule, for any sequence of samples under any settings, in every reachable
state, and independently of the other subscribers. -/
theorem sensitivity_rule (numeric : Bytes → Option Endpoint) (options : Options)
    (socket4 socket6 : IcmpSocket) (cookie startedRealUs : ℕ) (events : List Event) :
    (∀ d, Loaded d → ∀ readings, FollowsRule (d.replay readings) ∧
      (d.replay readings).samples = verdicts readings) ∧
    (let m := (handlers numeric).run (.initial options socket4 socket6 cookie startedRealUs) events
      ∀ client ∈ m.clients, ∀ d ∈ client.destinations, FollowsRule d) ∧
    ∀ (b : Board) (p : Prober) received rttUs now realNow s,
      (applySample b p received rttUs now realNow).1.destination? s =
        (b.destination? s).map fun d => (·.sample received rttUs realNow)^[p.subscribers.count s] d := by
  refine ⟨fun d hd readings => ⟨?_, ?_⟩, ?_, destination?_applySample⟩
  · exact ((judged_rule.loaded d hd).replay readings).followsRule
  · rw [samples_replay, hd.samples, List.append_nil]
  · intro m client hclient d hd
    exact (judged_rule.reachable numeric options socket4 socket6 cookie startedRealUs events
      client hclient d hd).followsRule

/-- One answer, then four lost probes under sensitivity 3, with a slow answer in between. -/
theorem sensitivity_rule_run :
    let d : Destination := ⟨ascii "d0", ascii "Router", ascii "192.0.2.1", 0, 1000, 3, true, false, none,
      .unknown, .unknown, 0, false, 0, 0, 0, 0, 0, []⟩
    let lost : Reading := ⟨false, 0, 0, 1000, 3⟩
    let readings : List Reading :=
      [⟨true, 400, 0, 1000, 3⟩, lost, ⟨true, 5000, 0, 1000, 3⟩, lost, lost, lost, lost]
    (d.replay (readings.take 6)).state = .good ∧ (d.replay readings).state = .bad := by
  intro d lost readings
  have hd : Loaded d := ⟨by decide, by decide, by decide, by decide, by decide, rfl, rfl, rfl, rfl⟩
  have hrule := (sensitivity_rule (fun _ => none) ⟨[], 0, 0, 0, 0, by decide, by decide⟩
    ⟨true, false, []⟩ ⟨true, false, []⟩ 1 0 []).1 d hd
  exact ⟨by rw [(hrule _).1.shown, (hrule _).2]; decide, by rw [(hrule _).1.shown, (hrule _).2]; decide⟩

end NetworkHealth.Daemon
