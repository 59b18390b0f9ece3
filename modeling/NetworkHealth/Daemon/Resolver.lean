import NetworkHealth.Library.Doorbell
import NetworkHealth.Daemon.LostVerdict

/-! The resolver's thread and the event loop, step by step. A step is what happens between two
points at which the other thread may notice: a critical section, or one call on the eventfd. Those
calls succeed; `resolveHostName` is a parameter. -/
namespace NetworkHealth.Daemon

/-- What `resolveHostName` comes back with. -/
structure Answer where
  ok : Bool
  endpoint : Endpoint
  error : Bytes
  deriving DecidableEq, Repr

/-- How far the thread has come in the body of its loop. -/
inductive Worker
  | waiting
  | resolving (request : Request)
  /-- The name is resolved and the result not yet handed in. -/
  | resolved (result : Resolution)
  /-- The result is handed in and the eventfd not yet written. -/
  | signalling
  deriving DecidableEq, Repr

structure Resolver where
  pending : List Request
  completed : List Resolution
  /-- What the eventfd counts. -/
  counter : ℕ
  worker : Worker
  deriving DecidableEq, Repr

namespace Resolver

def initial : Resolver := ⟨[], [], 0, .waiting⟩

/-- Collapses duplicate in-flight requests for the same target. -/
def request (r : Resolver) (request : Request) : Resolver :=
  if r.pending.any fun pending => pending.uid = request.uid then r
  else { r with pending := r.pending ++ [request] }

/-- One step of `run`. The thread waits until something is pending. -/
def run (r : Resolver) (answer : Answer) : Resolver :=
  match r.worker with
  | .waiting => match r.pending with
    | [] => r
    | request :: rest => { r with pending := rest, worker := .resolving request }
  | .resolving request =>
    { r with worker := .resolved ⟨request.uid, answer.ok, answer.endpoint, answer.error⟩ }
  | .resolved result => { r with completed := r.completed ++ [result], worker := .signalling }
  | .signalling => { r with counter := r.counter + 1, worker := .waiting }

/-- Reading the eventfd, the first half of `collect`. -/
def clear (r : Resolver) : Resolver := { r with counter := 0 }

end Resolver

/-- Where the event loop is. -/
inductive Activity
  /-- In no handler that deals with the resolver. -/
  | between
  /-- In `tick`, before the prober with this index. -/
  | ticking (now : ℕ) (io : Io) (index : ℕ)
  /-- In `collect`, after the eventfd has been read. -/
  | collecting (now : ℕ)
  /-- In `handleResolutions`, with the results that are left. -/
  | handling (now : ℕ) (results : List Resolution)

def Activity.isBetween : Activity → Bool
  | .between => true
  | .ticking .. | .collecting _ | .handling .. => false

instance (activity : Activity) : Decidable (activity = .between) :=
  decidable_of_iff (activity.isBetween = true) (by cases activity <;> simp [Activity.isBetween])

structure Process where
  monitor : Monitor
  phase : Activity
  resolver : Resolver

inductive Move
  /-- A handler that does not deal with the resolver, from beginning to end. -/
  | call (event : Event)
  /-- `tick` is called. -/
  | tick (now : ℕ) (io : Io)
  /-- `handleResolutions` is called and clears the eventfd. -/
  | handleResolutions (now : ℕ)
  /-- The loop goes on with what it is in. -/
  | proceed
  /-- The thread goes on; `resolveHostName` returns this if it is what it does. -/
  | work (answer : Answer)

/-- The handlers that deal with the resolver. -/
def Handler.usesResolver : Handler → Bool
  | .tick _ | .handleResolutions _ => true
  | _ => false

namespace Process

/-- Before `start`. -/
def initial (m : Monitor) : Process := ⟨m, .between, .initial⟩

/-- `tick` at one prober, with the calls of `request` it makes. -/
def tickAt (s : Process) (now : ℕ) (io : Io) (index : ℕ) (p : Prober) : Process :=
  let next := tickProber s.monitor.socket4 s.monitor.socket6 io now s.monitor.toBoard p
  { monitor := { s.monitor with toBoard := next.1, probers := s.monitor.probers.set index next.2 }
    phase := .ticking now io (index + 1)
    resolver := (next.1.lookups.drop s.monitor.lookups.length).foldl Resolver.request s.resolver }

/-- What the loop does next in a handler that deals with the resolver. -/
def proceed (s : Process) : Process :=
  match s.phase with
  | .between => s
  | .ticking now io index => match s.monitor.probers[index]? with
    | some p => s.tickAt now io index p
    | none => { s with phase := .between }
  | .collecting now =>
    { s with phase := .handling now s.resolver.completed, resolver := { s.resolver with completed := [] } }
  | .handling _ [] => { s with phase := .between }
  | .handling now (result :: rest) =>
    { s with monitor := s.monitor.handleResolution now result, phase := .handling now rest }

def step (numeric : Bytes → Option Endpoint) (s : Process) : Move → Process
  | .call event => match s.phase with
    | .between => if event.handler.usesResolver then s else { s with monitor := s.monitor.step numeric event }
    | _ => s
  | .tick now io => match s.phase with
    | .between => { s with phase := .ticking now io 0 }
    | _ => s
  | .handleResolutions now => match s.phase with
    | .between => { s with phase := .collecting now, resolver := s.resolver.clear }
    | _ => s
  | .proceed => s.proceed
  | .work answer => { s with resolver := s.resolver.run answer }

end Process

/-- Both threads, in any order of their steps. -/
def process (numeric : Bytes → Option Endpoint) : Machine Process Move := ⟨Process.step numeric⟩

@[simp] theorem process_step (numeric : Bytes → Option Endpoint) (s : Process) (move : Move) :
    (process numeric).step s move = s.step numeric move := rfl

/-! ## The handlers as one step each -/

/-- `tick` when it has come to the prober with this index. -/
def Monitor.ticked (m : Monitor) (now : ℕ) (io : Io) (index : ℕ) : Monitor :=
  let next := mapAccum (tickProber m.socket4 m.socket6 io now) m.toBoard (m.probers.take index)
  { m with toBoard := next.1, probers := next.2 ++ m.probers.drop index }

namespace Monitor
variable (m : Monitor) (now : ℕ) (io : Io)

theorem ticked_of_length_le {index : ℕ} (h : m.probers.length ≤ index) : m.ticked now io index = m.tick now io := by
  unfold ticked tick
  rw [List.take_of_length_le h, List.drop_eq_nil_of_le h]
  dsimp only
  rw [List.append_nil]

/-- The probers on both sides of the one that is next. -/
theorem probers_ticked {index : ℕ} {p : Prober} (hp : m.probers[index]? = some p) :
    ∃ done, done.length = index ∧ (m.ticked now io index).probers = done ++ p :: m.probers.drop (index + 1) := by
  obtain ⟨hindex, rfl⟩ := List.getElem?_eq_some_iff.mp hp
  refine ⟨_, ?_, congrArg (_ ++ ·) (List.drop_eq_getElem_cons hindex)⟩
  rw [mapAccum_length, List.length_take, Nat.min_eq_left hindex.le]

/-- The prober that is next is as it was. -/
theorem getElem?_ticked {index : ℕ} {p : Prober} (hp : m.probers[index]? = some p) :
    (m.ticked now io index).probers[index]? = some p := by
  obtain ⟨done, hlength, hprobers⟩ := m.probers_ticked now io hp
  rw [hprobers, ← hlength, List.getElem?_append_right le_rfl, Nat.sub_self]
  rfl

theorem length_ticked (index : ℕ) : (m.ticked now io index).probers.length = m.probers.length := by
  unfold ticked
  simp only [List.length_append, mapAccum_length, List.length_take, List.length_drop]
  omega

theorem ticked_succ {index : ℕ} {p : Prober} (hp : m.probers[index]? = some p) :
    let before := m.ticked now io index
    let next := tickProber m.socket4 m.socket6 io now before.toBoard p
    m.ticked now io (index + 1) = { before with toBoard := next.1, probers := before.probers.set index next.2 } := by
  intro before next
  obtain ⟨done, hlength, hprobers⟩ := m.probers_ticked now io hp
  have htake : m.probers.take (index + 1) = m.probers.take index ++ [p] := by
    rw [List.take_add_one, hp, Option.toList_some]
  have hset : before.probers.set index next.2 = done ++ next.2 :: m.probers.drop (index + 1) := by
    rw [hprobers, ← hlength, List.set_append_right _ _ le_rfl, Nat.sub_self]
    rfl
  have hdone : (mapAccum (tickProber m.socket4 m.socket6 io now) m.toBoard (m.probers.take index)).2 = done := by
    have hsplit : _ ++ m.probers.drop index = done ++ p :: m.probers.drop (index + 1) := hprobers
    refine (List.append_inj' hsplit ?_).1
    have hindex := (List.getElem?_eq_some_iff.mp hp).1
    simp only [List.length_drop, List.length_cons]
    omega
  rw [hset]
  unfold ticked
  rw [htake, mapAccum_append, hdone]
  simp only [mapAccum_cons, mapAccum_nil, List.append_assoc, List.cons_append, List.nil_append]
  rfl

theorem wiring_ticked (index : ℕ) : (m.ticked now io index).wiring = m.wiring := by
  have hgroups : (m.ticked now io index).clients.map Client.group = m.clients.map Client.group :=
    mapAccum_keeps (fun b : Board => b.clients.map Client.group = m.clients.map Client.group)
      (m.probers.take index) (fun b p _ hb => (group_tickProber m.socket4 m.socket6 io now b p).trans hb) rfl
  have hstreams : (m.ticked now io index).probers.map Prober.stream = m.probers.map Prober.stream := by
    unfold ticked
    dsimp only
    rw [List.map_append, map_mapAccum Prober.stream Prober.stream
      (fun b p => stream_tickProber m.socket4 m.socket6 io now b p), ← List.map_append, List.take_append_drop]
  simp only [wiring, hgroups, hstreams]
  rfl

end Monitor

namespace Process
variable (numeric : Bytes → Option Endpoint) {m : Monitor} {s : Process}

/-- The monitor has been through a run of the handlers, and maybe part of a `tick`. -/
def Follows (m : Monitor) (s : Process) : Prop :=
  match s.phase with
  | .ticking now io index => ∃ events, s.monitor = ((handlers numeric).run m events).ticked now io index
  | _ => ∃ events, s.monitor = (handlers numeric).run m events

/-- One more handler. -/
theorem exists_run_append {events : List Event} (event : Event) :
    ∃ later, ((handlers numeric).run m events).step numeric event = (handlers numeric).run m later :=
  ⟨events ++ [event], by rw [Machine.run_append]; rfl⟩

theorem Follows.proceed (h : s.Follows numeric m) : s.proceed.Follows numeric m := by
  obtain ⟨monitor, phase, resolver⟩ := s
  cases phase with
  | between => exact h
  | collecting now => exact h
  | ticking now io index =>
    obtain ⟨events, rfl⟩ := h
    set before := (handlers numeric).run m events with hbefore
    cases hp : before.probers[index]? with
    | none =>
      have hlength : before.probers.length ≤ index := List.getElem?_eq_none_iff.mp hp
      have hnext : (before.ticked now io index).probers[index]? = none := by
        rw [List.getElem?_eq_none_iff, before.length_ticked]
        exact hlength
      unfold Process.proceed
      dsimp only
      rw [hnext]
      rw [before.ticked_of_length_le now io hlength]
      exact exists_run_append numeric ⟨now, .tick io⟩
    | some p =>
      unfold Process.proceed
      dsimp only
      rw [before.getElem?_ticked now io hp]
      exact ⟨events, (before.ticked_succ now io hp).symm⟩
  | handling now results =>
    cases results with
    | nil => exact h
    | cons result rest =>
      obtain ⟨events, rfl⟩ := h
      exact exists_run_append numeric ⟨now, .handleResolutions [result]⟩

theorem Follows.step (h : s.Follows numeric m) (move : Move) : (s.step numeric move).Follows numeric m := by
  obtain ⟨monitor, phase, resolver⟩ := s
  cases move with
  | call event =>
    cases phase with
    | between =>
      unfold Process.step
      dsimp only
      split
      · exact h
      · obtain ⟨events, rfl⟩ := h
        exact exists_run_append numeric event
    | ticking | collecting | handling => exact h
  | tick now io =>
    cases phase with
    | between => exact h
    | ticking | collecting | handling => exact h
  | handleResolutions now =>
    cases phase with
    | between => exact h
    | ticking | collecting | handling => exact h
  | proceed => exact Follows.proceed numeric h
  | work answer => exact h

/-- Whatever the threads do, the monitor is what calling its handlers one after the other makes
of it. -/
theorem follows_run (m : Monitor) (moves : List Move) :
    ((process numeric).run (.initial m) moves).Follows numeric m :=
  Machine.run_keeps (Follows numeric m) (fun _ move h => Follows.step numeric h move) (s := .initial m) ⟨[], rfl⟩ moves

theorem Follows.wellWired (h : s.Follows numeric m)
    (hm : ∀ events, ((handlers numeric).run m events).WellWired) : s.monitor.WellWired := by
  obtain ⟨monitor, phase, resolver⟩ := s
  cases phase with
  | between | collecting | handling =>
    obtain ⟨events, rfl⟩ := h
    exact hm events
  | ticking now io index =>
    obtain ⟨events, rfl⟩ := h
    exact (hm events).of_wiring (Monitor.wiring_ticked _ now io index)

end Process
end NetworkHealth.Daemon
