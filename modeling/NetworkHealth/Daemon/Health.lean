import NetworkHealth.Daemon.Json

/-! Destinations and what a sample does to one of them. -/
namespace NetworkHealth.Daemon

/-- `offline` is only how `bad` is reported for a destination that is allowed to be off. -/
inductive HealthState
  | unknown
  | good
  | warn
  | bad
  | offline
  deriving DecidableEq, Repr

def healthStateName : HealthState → Bytes
  | .good => ascii "good"
  | .warn => ascii "warn"
  | .bad => ascii "bad"
  | .offline => ascii "offline"
  | .unknown => ascii "unknown"

def reportedState (state : HealthState) (partTime : Bool) : HealthState :=
  if partTime && state = .bad then .offline else state

structure Destination where
  id : Bytes
  name : Bytes
  address : Bytes
  order : ℤ
  thresholdUs : ℕ
  sensitivity : ℕ
  enabled : Bool
  partTime : Bool
  /-- The index of its prober, none where the source has -1. -/
  prober : Option ℕ
  state : HealthState
  candidate : HealthState
  candidateStreak : ℕ
  haveRtt : Bool
  rttUs : ℕ
  sent : ℕ
  received : ℕ
  lastReplyRealUs : ℕ
  lastChangeRealUs : ℕ
  /-- History, read by nothing in the program: the verdict of every sample applied, newest
  first, with the sensitivity in force at it. -/
  samples : List (HealthState × ℕ)
  deriving DecidableEq, Repr

def classify (received : Bool) (rttUs thresholdUs : ℕ) : HealthState :=
  if !received then .bad
  else if rttUs ≤ thresholdUs then .good
  else .warn

theorem classify_ne_unknown (received : Bool) (rttUs thresholdUs : ℕ) :
    classify received rttUs thresholdUs ≠ .unknown := by
  unfold classify
  split_ifs <;> simp

namespace Destination

/-- The counting part of a sample. -/
def count (d : Destination) (received : Bool) (rttUs realNow : ℕ) : Destination :=
  { d with
    sent := d.sent + 1
    received := if received then d.received + 1 else d.received
    haveRtt := received
    rttUs := if received then rttUs else d.rttUs
    lastReplyRealUs := if received then realNow else d.lastReplyRealUs
    samples := (classify received rttUs d.thresholdUs, d.sensitivity) :: d.samples }

/-- The part that decides what is shown. -/
def judge (d : Destination) (sample : HealthState) : Destination :=
  if d.state = .unknown then
    -- First verdict is adopted immediately.
    { d with state := sample, candidate := sample, candidateStreak := 0 }
  else if sample = d.state then
    { d with candidate := sample, candidateStreak := 0 }
  else
    let streak := if sample = d.candidate then d.candidateStreak + 1 else 1
    if d.sensitivity < streak then
      { d with candidate := sample, state := sample, candidateStreak := 0 }
    else { d with candidate := sample, candidateStreak := streak }

/-- One sample, as the loop of `applySample` applies it to a subscriber. -/
def sample (d : Destination) (received : Bool) (rttUs realNow : ℕ) : Destination :=
  let next := (d.count received rttUs realNow).judge (classify received rttUs d.thresholdUs)
  if next.state ≠ d.state then { next with lastChangeRealUs := realNow } else next

end Destination

end NetworkHealth.Daemon
