import Mathlib.Data.List.Sort
import Mathlib.Data.Rat.Init
import Mathlib.Algebra.Order.Ring.Nat
import NetworkHealth.Library.Machine

/-! The widget's side of the monitoring backend. A timer polls the state file the daemon
publishes, a dead daemon is launched again, and the configuration is written whenever it
changes. Scripts handed to the shell are fire and forget and only kept in a log. -/
namespace NetworkHealth.Widget

/-- The `health` role of a row and the `state` of a published destination. -/
inductive Health
  | unknown
  | good
  | warn
  | bad
  | offline
  deriving DecidableEq, Repr

inductive Overall
  | idle
  | unknown
  | good
  | warn
  | bad
  deriving DecidableEq, Repr

/-- An entry of the widget's `destinations`. -/
structure Destination where
  id : String
  name : String
  address : String
  order : ℤ
  thresholdUs : ℤ
  sensitivity : ℤ
  enabled : Bool
  partTime : Bool
  deriving DecidableEq, Repr

/-- What `daemonConfig` serialises. Two configurations spell the same exactly when they are
the same, so the value stands for its spelling. -/
structure DaemonConfig where
  client : String
  intervalMs : ℤ
  timeoutMs : ℤ
  destinations : List Destination
  deriving DecidableEq, Repr

/-- A row of `destinationModel`. -/
structure Row where
  destinationId : String
  name : String
  address : String
  order : ℤ
  thresholdUs : ℤ
  sensitivity : ℤ
  enabled : Bool
  partTime : Bool
  health : Health
  resolved : String
  rttUs : ℤ
  haveRtt : Bool
  lossPercent : ℚ
  sent : ℤ
  received : ℤ
  message : String
  deriving DecidableEq, Repr

/-- One destination of a published client. -/
structure Live where
  id : String
  state : Health
  resolved : String
  haveRtt : Bool
  rttUs : ℤ
  lossPercent : ℚ
  sent : ℤ
  received : ℤ
  error : String
  deriving DecidableEq, Repr

/-- `engine.ipv4` and `engine.ipv6`; what is missing is false and empty. -/
structure Family where
  available : Bool
  error : String
  deriving DecidableEq, Repr

structure Document where
  generation : Option ℤ
  ipv4 : Family
  ipv6 : Family
  clients : List (String × List Live)
  deriving DecidableEq, Repr

inductive Payload
  | empty
  | malformed
  | parsed (document : Document)
  deriving DecidableEq, Repr

/-- `state.ini` as `QSettings` presents it: the number under `generation`, if it is a finite
one, and what comes of decoding `payload`. A missing file has generation -1. -/
structure StateFile where
  published : Option ℤ
  payload : Payload
  deriving DecidableEq, Repr

structure Counters where
  good : ℕ
  warn : ℕ
  bad : ℕ
  offline : ℕ
  unknown : ℕ
  enabled : ℕ
  deriving DecidableEq, Repr

/-- Calls that reach the shell, and calls of `launchDaemon` that its throttle swallowed. -/
inductive Command
  | writeConfig (config : DaemonConfig)
  | launchDaemon (started : Bool)
  | restartDaemon
  deriving DecidableEq, Repr

/-- The object's properties and its `priv` part. Times are milliseconds of `Date.now()`. -/
structure Backend where
  clientId : String
  intervalMs : ℤ
  timeoutMs : ℤ
  destinations : List Destination
  overall : Overall
  daemonRunning : Bool
  problem : String
  generation : ℤ
  lastUpdateMs : ℤ
  model : List Row
  counters : Counters
  /-- The configuration last written, none for the empty string. -/
  writtenConfig : Option DaemonConfig
  lastWriteMs : ℤ
  lastLaunchMs : ℤ
  missedPolls : ℕ
  staleTicks : ℕ
  log : List Command
  deriving DecidableEq, Repr

/-- Assigning a number to an `int` property keeps its residue as a signed 32-bit integer. -/
def toInt32 (x : ℤ) : ℤ := x.bmod (2 ^ 32)

def Counters.ofRows (rows : List Row) : Counters :=
  let shown := rows.filter (·.enabled)
  { good := shown.countP (·.health = .good)
    warn := shown.countP (·.health = .warn)
    bad := shown.countP (·.health = .bad)
    offline := shown.countP (·.health = .offline)
    unknown := shown.countP (·.health = .unknown)
    enabled := shown.length }

/-- Worst state wins, and part-time destinations that are off take no part at all. -/
def Counters.overall (c : Counters) : Overall :=
  if c.enabled = c.offline then .idle
  else if 0 < c.bad then .bad
  else if 0 < c.warn then .warn
  else if 0 < c.unknown then .unknown
  else .good

/-- The entry `byId` holds for an id: the last one published under it. -/
def byId (client : List Live) (id : String) : Option Live := client.reverse.find? (·.id = id)

/-- A row of `applyDocument`. A backend from before part-time hosts existed may still be
running after an upgrade; it reports them as bad. -/
def Row.apply (row : Row) : Option Live → Row
  | none => { row with health := .unknown, haveRtt := false }
  | some live =>
    { row with
      health := if live.state = .bad ∧ row.partTime then .offline else live.state
      resolved := live.resolved
      haveRtt := live.haveRtt
      rttUs := live.rttUs
      lossPercent := live.lossPercent
      sent := live.sent
      received := live.received
      message := live.error }

namespace Backend

/-- The property defaults of a new object. -/
def initial : Backend where
  clientId := ""
  intervalMs := 1000
  timeoutMs := 1000
  destinations := []
  overall := .idle
  daemonRunning := false
  problem := ""
  generation := -1
  lastUpdateMs := 0
  model := []
  counters := ⟨0, 0, 0, 0, 0, 0⟩
  writtenConfig := none
  lastWriteMs := 0
  lastLaunchMs := 0
  missedPolls := 0
  staleTicks := 0
  log := []

def enabledCount (b : Backend) : ℕ := b.counters.enabled

def daemonConfig (b : Backend) : DaemonConfig :=
  ⟨b.clientId, b.intervalMs, b.timeoutMs, b.destinations⟩

def writeConfig (b : Backend) (now : ℤ) : Backend :=
  if b.clientId = "" then b
  else { b with writtenConfig := some b.daemonConfig, lastWriteMs := now,
                log := b.log ++ [.writeConfig b.daemonConfig] }

/-- Safe to call repeatedly, but at most one script every fifteen seconds. -/
def launchDaemon (b : Backend) (now : ℤ) : Backend :=
  if now - b.lastLaunchMs < 15000 then { b with log := b.log ++ [.launchDaemon false] }
  else { b with lastLaunchMs := now, log := b.log ++ [.launchDaemon true] }

def restartDaemon (b : Backend) : Backend :=
  { b with lastLaunchMs := 0, writtenConfig := none, log := b.log ++ [.restartDaemon] }

def recount (b : Backend) : Backend :=
  let c := Counters.ofRows b.model
  { b with counters := c, overall := c.overall }

/-- The order of the rows, ties broken by the locale's order of names. -/
def rowOrder (localeCompare : String → String → Ordering) (x y : Destination) : Bool :=
  x.order < y.order || x.order = y.order && (localeCompare x.name y.name).isLE

/-- The row of a destination, carrying over whatever is already known under its id. -/
def rowOf (previous : List Row) (destination : Destination) : Row :=
  let carried := previous.reverse.find? (·.destinationId = destination.id)
  { destinationId := destination.id
    name := destination.name
    address := destination.address
    order := destination.order
    thresholdUs := destination.thresholdUs
    sensitivity := destination.sensitivity
    enabled := destination.enabled
    partTime := destination.partTime
    health := (carried.map (·.health)).getD .unknown
    resolved := (carried.map (·.resolved)).getD ""
    rttUs := (carried.map (·.rttUs)).getD 0
    haveRtt := (carried.map (·.haveRtt)).getD false
    lossPercent := (carried.map (·.lossPercent)).getD 0
    sent := (carried.map (·.sent)).getD 0
    received := (carried.map (·.received)).getD 0
    message := (carried.map (·.message)).getD "" }

def rebuildModel (localeCompare : String → String → Ordering) (b : Backend) : Backend :=
  let sorted := b.destinations.insertionSort fun x y => rowOrder localeCompare x y = true
  recount { b with model := (sorted.filter (·.enabled)).map (rowOf b.model) }

def clearLiveState (b : Backend) (message : String) : Backend :=
  recount { b with model := b.model.map fun row =>
    { row with health := .unknown, haveRtt := false, message := message } }

/-- What `problem` says about the engine. -/
def engineProblem (document : Document) : String :=
  if !document.ipv4.available && !document.ipv6.available then
    "The backend cannot open an ICMP socket: " ++
      (if document.ipv4.error ≠ "" then document.ipv4.error else document.ipv6.error)
  else ""

def applyDocument (b : Backend) (now : ℤ) (document : Document) : Backend :=
  let b := { b with generation := (document.generation.map toInt32).getD (-1),
                    lastUpdateMs := now, problem := engineProblem document }
  match document.clients.lookup b.clientId with
  | none =>
    -- The daemon is alive but has not seen our configuration yet.
    (if 5000 < now - b.lastWriteMs then b.writeConfig now else b).clearLiveState ""
  | some client =>
    let rows := b.model.map fun row => row.apply (byId client row.destinationId)
    let b := recount { b with model := rows }
    -- The daemon only knows what we last told it.
    if b.writtenConfig ≠ some b.daemonConfig ∧ 2000 < now - b.lastWriteMs then b.writeConfig now
    else b

/-- The counting half of `onPollFailed`: two misses in a row and the backend is dead. -/
def missPoll (b : Backend) : Backend :=
  let missed := min (b.missedPolls + 1) 1000
  { b with missedPolls := missed, staleTicks := 0, generation := -1,
           daemonRunning := if 2 ≤ missed then false else b.daemonRunning }

/-- The other half: say so, and launch it again if there is anything to show. -/
def reportDead (b : Backend) (now : ℤ) : Backend :=
  let b := clearLiveState { b with problem := "The monitoring backend is not running." } ""
  if b.model = [] then b
  else
    -- A freshly started daemon needs our configuration.
    { launchDaemon b now with lastWriteMs := 0, writtenConfig := none }

def onPollFailed (b : Backend) (now : ℤ) : Backend :=
  if b.missPoll.daemonRunning then b.missPoll else b.missPoll.reportDead now

def poll (b : Backend) (now : ℤ) (file : StateFile) : Backend :=
  if b.clientId = "" then b
  else match file.published with
    | none => b.onPollFailed now
    | some published =>
      if published < 0 then b.onPollFailed now
      else if published = b.generation then
        -- Nothing new was published.
        let b := { b with staleTicks := min (b.staleTicks + 1) 1000 }
        if 0 < b.enabledCount ∧ 5 < b.staleTicks then b.onPollFailed now else b
      else match file.payload with
        | .empty | .malformed => b.onPollFailed now
        | .parsed document =>
          applyDocument { b with missedPolls := 0, staleTicks := 0, daemonRunning := true }
            now document

/-- New values of the properties the configuration is made of: `onDaemonConfigChanged`. -/
def configure (localeCompare : String → String → Ordering) (b : Backend) (now : ℤ)
    (config : DaemonConfig) : Backend :=
  let next := { b with clientId := config.client, intervalMs := config.intervalMs,
                       timeoutMs := config.timeoutMs, destinations := config.destinations }
  if next.daemonConfig = b.daemonConfig then next
  else
    let next := next.rebuildModel localeCompare
    if some next.daemonConfig ≠ next.writtenConfig then next.writeConfig now else next

/-- `Component.onCompleted`. -/
def completed (localeCompare : String → String → Ordering) (b : Backend) (now : ℤ)
    (file : StateFile) : Backend :=
  ((b.rebuildModel localeCompare).writeConfig now).poll now file

end Backend

/-- What can happen to the object: its timers, its owner and its context menu. -/
inductive Input
  | completed (now : ℤ) (file : StateFile)
  | poll (now : ℤ) (file : StateFile)
  | heartbeat (now : ℤ)
  | configure (now : ℤ) (config : DaemonConfig)
  | restartDaemon
  deriving DecidableEq, Repr

def Backend.step (localeCompare : String → String → Ordering) (b : Backend) : Input → Backend
  | .completed now file => b.completed localeCompare now file
  | .poll now file => b.poll now file
  | .heartbeat now => b.writeConfig now
  | .configure now config => b.configure localeCompare now config
  | .restartDaemon => b.restartDaemon

/-- The object as a machine. -/
def backend (localeCompare : String → String → Ordering) : Machine Backend Input :=
  ⟨Backend.step localeCompare⟩

end NetworkHealth.Widget
