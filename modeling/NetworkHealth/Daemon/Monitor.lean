import NetworkHealth.Library.Traverse
import NetworkHealth.Daemon.Prober

/-! The daemon's state, and how one verdict reaches the destinations that share a prober. -/
namespace NetworkHealth.Daemon

structure Client where
  id : Bytes
  path : Bytes
  intervalUs : ℕ
  timeoutUs : ℕ
  destinations : List Destination
  deriving DecidableEq, Repr

structure IcmpSocket where
  isOpen : Bool
  isRaw : Bool
  /-- `m_error4` and `m_error6`: why it could not be opened. -/
  error : Bytes
  deriving DecidableEq, Repr

/-- The options as `main` leaves them. -/
structure Options where
  runtimeDir : Bytes
  publishIntervalUs : ℕ
  /-- 0 keeps clients for ever. -/
  clientTimeoutUs : ℕ
  /-- 0 disables. -/
  idleExitUs : ℕ
  maxDestinations : ℕ
  publishInterval_le : publishIntervalUs ≤ 10000000
  idleExit_lt : idleExitUs < 2 ^ 64
  deriving DecidableEq, Repr

/-- A lookup handed to the resolver. -/
structure Request where
  uid : ℕ
  host : Bytes
  deriving DecidableEq, Repr

/-- What the handlers write while they walk the probers. -/
structure Board where
  clients : List Client
  dataDirty : Bool
  stateDirty : Bool
  /-- Calls of the resolver's `request`, oldest first. -/
  lookups : List Request
  deriving DecidableEq, Repr

structure Monitor extends Board where
  options : Options
  socket4 : IcmpSocket
  socket6 : IcmpSocket
  probers : List Prober
  /-- Newest entry of a uid first. -/
  proberByUid : List (ℕ × ℕ)
  /-- The uids handed out so far and one more; a uid is its residue as an unsigned 32-bit
  integer. -/
  nextUid : ℕ
  /-- Fastest configured probe interval. -/
  minIntervalUs : ℕ
  cookie : ℕ
  running : Bool
  configDirty : Bool
  lastPublishUs : ℕ
  lastReadablePublishUs : ℕ
  generation : ℕ
  startedRealUs : ℕ
  lastClientCheckUs : ℕ
  idleSinceUs : ℕ
  deriving DecidableEq, Repr

def modifyDestination (clients : List Client) (s : Subscriber) (f : Destination → Destination) :
    List Client :=
  clients.modify s.client fun client =>
    { client with destinations := client.destinations.modify s.destination f }

namespace Board

def destination? (b : Board) (s : Subscriber) : Option Destination :=
  b.clients[s.client]?.bind (·.destinations[s.destination]?)

/-- The loop body of `applySample`. -/
def sampleAt (received : Bool) (rttUs realNow : ℕ) (b : Board) (s : Subscriber) : Board :=
  match b.destination? s with
  | none => b
  | some d =>
    { b with
      clients := modifyDestination b.clients s (·.sample received rttUs realNow)
      stateDirty := b.stateDirty || (d.sample received rttUs realNow).state ≠ d.state }

end Board

def applySample (b : Board) (p : Prober) (received : Bool) (rttUs now realNow : ℕ) : Board × Prober :=
  ({ p.subscribers.foldl (Board.sampleAt received rttUs realNow) b with dataDirty := true },
    p.count received rttUs now)

namespace Monitor

/-- A new object with its sockets open or not, before `start` loads anything. -/
def initial (options : Options) (socket4 socket6 : IcmpSocket) (cookie startedRealUs : ℕ) : Monitor where
  clients := []
  dataDirty := true
  stateDirty := true
  lookups := []
  options := options
  socket4 := socket4
  socket6 := socket6
  probers := []
  proberByUid := []
  nextUid := 1
  minIntervalUs := 0
  cookie := cookie
  running := false
  configDirty := false
  lastPublishUs := 0
  lastReadablePublishUs := 0
  generation := 0
  startedRealUs := startedRealUs
  lastClientCheckUs := 0
  idleSinceUs := 0

end Monitor
end NetworkHealth.Daemon
