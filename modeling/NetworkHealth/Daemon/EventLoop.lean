import NetworkHealth.Library.Machine
import NetworkHealth.Daemon.Configuration

/-! The event loop: what it sleeps until, and what one trip through it does. The handlers
are also a machine of their own, on which they may be called in any order; every trip is a
run of that machine. -/
namespace NetworkHealth.Daemon

def kClientCheckIntervalUs : ℕ := 60 * 1000000
def kReadablePublishIntervalUs : ℕ := 5 * 1000000
def kNeverUs : ℕ := 2 ^ 64 - 1

/-- The earliest thing a prober waits for, or what was earlier still. -/
def Prober.deadline (deadline : ℕ) (p : Prober) : ℕ :=
  let deadline := match p.inFlight with
    | [] => deadline
    | oldest :: _ => min deadline oldest.deadlineUs
  let deadline := min deadline p.nextSendUs
  if !p.numeric && !p.resolving then min deadline p.nextResolveUs else deadline

namespace Monitor

def clientCheckIntervalUs (m : Monitor) : ℕ :=
  if m.options.clientTimeoutUs = 0 then kClientCheckIntervalUs
  else min kClientCheckIntervalUs (max (m.options.clientTimeoutUs / 2) 1000000)

/-- A widget refreshes its file periodically; one that has not is gone. -/
def expiredClients (m : Monitor) (realNow : ℕ) (mtime : Bytes → Option ℕ) : List Client :=
  m.clients.filter fun client => match mtime client.path with
    | none => false
    | some mtimeUs => mtimeUs < realNow && m.options.clientTimeoutUs < realNow - mtimeUs

/-- The files of the expired clients are removed, which only the flag remembers. -/
def dropExpiredClients (m : Monitor) (now realNow : ℕ) (mtime : Bytes → Option ℕ) : Monitor :=
  if m.options.clientTimeoutUs = 0 ∨ now - m.lastClientCheckUs < m.clientCheckIntervalUs then m
  else
    { m with
      lastClientCheckUs := now
      configDirty := m.configDirty || m.expiredClients realNow mtime ≠ [] }

def publishIntervalUs (m : Monitor) : ℕ := max m.options.publishIntervalUs m.minIntervalUs

/-- A health change is published at once, a new round-trip time in the next slot. -/
def publishDue (m : Monitor) (now : ℕ) : Bool :=
  m.stateDirty || m.dataDirty && m.publishIntervalUs ≤ now - m.lastPublishUs

/-- Both files are written, and whatever comes of that the flags are cleared. -/
def publish (m : Monitor) (now : ℕ) (force : Bool) : Monitor :=
  if !force && !m.publishDue now then m
  else
    { m with
      generation := m.generation + 1
      lastReadablePublishUs :=
        if m.stateDirty ∨ m.lastReadablePublishUs = 0 ∨
            kReadablePublishIntervalUs ≤ now - m.lastReadablePublishUs then now
        else m.lastReadablePublishUs
      lastPublishUs := now
      dataDirty := false
      stateDirty := false }

/-- The idle test. -/
def noteIdle (m : Monitor) (after : ℕ) : Monitor :=
  if m.probers = [] then
    let since := if m.idleSinceUs = 0 then after else m.idleSinceUs
    { m with
      idleSinceUs := since
      running := m.running && !(m.options.idleExitUs ≠ 0 && m.options.idleExitUs ≤ after - since) }
  else { m with idleSinceUs := 0 }

/-- Only the idle deadline can leave the 64 bits of a time: its option has no upper bound. -/
def nextDeadline (m : Monitor) : ℕ :=
  let deadline := m.probers.foldl Prober.deadline kNeverUs
  let deadline := if m.dataDirty || m.stateDirty then min deadline (m.lastPublishUs + m.publishIntervalUs)
    else deadline
  let deadline := if m.options.clientTimeoutUs ≠ 0 ∧ m.clients ≠ [] then
      min deadline (m.lastClientCheckUs + m.clientCheckIntervalUs)
    else deadline
  if m.options.idleExitUs ≠ 0 ∧ m.idleSinceUs ≠ 0 then
    min deadline ((m.idleSinceUs + m.options.idleExitUs) % 2 ^ 64)
  else deadline

end Monitor

/-- One return of `epoll_wait` and everything the trip reads from outside. -/
structure Wakeup where
  /-- The clock as `epoll_wait` returned, in `rebuildProbers`, before `tick` and before
  `publish`. -/
  after : ℕ
  reloadAt : ℕ
  now : ℕ
  publishAt : ℕ
  /-- SIGHUP, or an event on the clients directory. -/
  configChanged : Bool
  shutdown : Bool
  resolutions : List Resolution
  replies : List Datagram
  directory : Directory
  io : Io
  realNow : ℕ
  mtime : Bytes → Option ℕ

/-- The readings of the clock, in the order they are taken. -/
def Wakeup.readings (w : Wakeup) : List ℕ := [w.after, w.reloadAt, w.now, w.publishAt]

namespace Monitor
variable (numeric : Bytes → Option Endpoint)

/-- The loop over the ready descriptors. Those that only set a flag commute with the others. -/
def dispatch (w : Wakeup) (m : Monitor) : Monitor :=
  let m := { m with configDirty := m.configDirty || w.configChanged, running := m.running && !w.shutdown }
  m.handleResolutions w.after w.resolutions

/-- Up to `tick`: replies and, if anything asked for it, the configuration. -/
def attend (w : Wakeup) (m : Monitor) : Monitor :=
  let m := m.handleReplies w.after w.io w.replies
  if m.configDirty then m.reloadClients numeric w.reloadAt w.directory else m

/-- From `tick` on. -/
def serve (w : Wakeup) (m : Monitor) : Monitor :=
  let m := m.tick w.now w.io
  let m := m.dropExpiredClients w.after w.realNow w.mtime
  let m := m.noteIdle w.after
  m.publish w.publishAt false

/-- One trip through the loop. -/
def iterate (m : Monitor) (w : Wakeup) : Monitor :=
  let woken := m.dispatch w
  if woken.running then (woken.attend numeric w).serve w else woken

/-- `start`, and `run` up to its loop. -/
def start (m : Monitor) (reloadAt publishAt enteredAt : ℕ) (directory : Directory) : Monitor :=
  { (m.reloadClients numeric reloadAt directory).publish publishAt true with
    running := true, idleSinceUs := enteredAt }

end Monitor

/-- The handlers, each with what it reads from outside except the monotonic clock. -/
inductive Handler
  | reloadClients (directory : Directory)
  | tick (io : Io)
  | handleReplies (io : Io) (replies : List Datagram)
  | handleResolutions (results : List Resolution)
  | dropExpiredClients (after realNow : ℕ) (mtime : Bytes → Option ℕ)
  | noteIdle (after : ℕ)
  | publish (force : Bool)
  /-- A signal or an event on the clients directory: only flags change. -/
  | flag (configChanged shutdown : Bool)
  /-- `run` is entered. -/
  | enter

structure Event where
  now : ℕ
  handler : Handler

def Monitor.step (numeric : Bytes → Option Endpoint) (m : Monitor) (event : Event) : Monitor :=
  match event.handler with
  | .reloadClients directory => m.reloadClients numeric event.now directory
  | .tick io => m.tick event.now io
  | .handleReplies io replies => m.handleReplies event.now io replies
  | .handleResolutions results => m.handleResolutions event.now results
  | .dropExpiredClients after realNow mtime => m.dropExpiredClients after realNow mtime
  | .noteIdle after => m.noteIdle after
  | .publish force => m.publish event.now force
  | .flag configChanged shutdown =>
    { m with configDirty := m.configDirty || configChanged, running := m.running && !shutdown }
  | .enter => { m with running := true, idleSinceUs := event.now }

/-- The handlers in any order. -/
def handlers (numeric : Bytes → Option Endpoint) : Machine Monitor Event := ⟨Monitor.step numeric⟩

/-- The loop: once it has ended, nothing more happens. -/
def loop (numeric : Bytes → Option Endpoint) : Machine Monitor Wakeup :=
  ⟨fun m w => if m.running then m.iterate numeric w else m⟩

@[simp] theorem handlers_step (numeric : Bytes → Option Endpoint) (m : Monitor) (event : Event) :
    (handlers numeric).step m event = m.step numeric event := rfl

/-- The handlers a trip through the loop calls, in their order. -/
def Wakeup.events (m : Monitor) (w : Wakeup) : List Event :=
  let woken := [⟨w.after, .flag w.configChanged w.shutdown⟩, ⟨w.after, .handleResolutions w.resolutions⟩]
  if !m.running || w.shutdown then woken
  else woken ++ ⟨w.after, .handleReplies w.io w.replies⟩ ::
    ((if m.configDirty || w.configChanged then [⟨w.reloadAt, .reloadClients w.directory⟩] else []) ++
      [⟨w.now, .tick w.io⟩, ⟨w.now, .dropExpiredClients w.after w.realNow w.mtime⟩,
        ⟨w.now, .noteIdle w.after⟩, ⟨w.publishAt, .publish false⟩])

end NetworkHealth.Daemon
