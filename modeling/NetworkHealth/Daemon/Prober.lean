import NetworkHealth.Daemon.Health

/-! Probe streams. Destinations that share an address, interval and timeout share one, so
the same host is never pinged twice. Times are microseconds. -/
namespace NetworkHealth.Daemon

/-- Probes due within this window are sent from the same wakeup. -/
def kSendSlackUs : ℕ := 2000
def kMaxInFlight : ℕ := 8

inductive Family
  | unspec
  | inet
  | inet6
  deriving DecidableEq, Repr

/-- A socket address: `s_addr` or `sin6_addr`. -/
structure SockAddr where
  family : Family
  address : Bytes
  deriving DecidableEq, Repr

/-- A resolved ping target. -/
structure Endpoint where
  family : Family
  addr : SockAddr
  len : ℕ
  text : Bytes
  deriving DecidableEq, Repr

namespace Endpoint

def empty : Endpoint := ⟨.unspec, ⟨.unspec, []⟩, 0, []⟩

def valid (e : Endpoint) : Bool := e.family ≠ .unspec && 0 < e.len

/-- `matches`, which Lean keeps for itself. -/
def isFrom (e : Endpoint) (other : SockAddr) (otherLen : ℕ) : Bool :=
  if !e.valid || otherLen = 0 then false
  else if other.family ≠ e.addr.family then false
  else match e.addr.family with
    | .inet | .inet6 => e.addr.address = other.address
    | .unspec => false

end Endpoint

/-- A probe that has been sent and not yet answered or given up on. -/
structure InFlight where
  seq : ℕ
  sentUs : ℕ
  deadlineUs : ℕ
  deriving DecidableEq, Repr

structure Subscriber where
  client : ℕ
  destination : ℕ
  deriving DecidableEq, Repr

/-- What happens to a prober, for its history. -/
inductive ProberEvent
  | call (now : ℕ)
  | sent (seq : ℕ) (target : Endpoint) (now : ℕ)
  | refused (now : ℕ)
  | expired (seq now : ℕ)
  | answered (seq now : ℕ)
  | sample (received : Bool) (rttUs now : ℕ)
  deriving DecidableEq, Repr

structure Prober where
  host : Bytes
  intervalUs : ℕ
  timeoutUs : ℕ
  uid : ℕ
  endpoint : Endpoint
  numeric : Bool
  resolving : Bool
  lastError : Bytes
  nextResolveUs : ℕ
  resolveFailures : ℕ
  nextSendUs : ℕ
  sequence : ℕ
  /-- Oldest first. -/
  inFlight : List InFlight
  maxInFlight : ℕ
  sent : ℕ
  received : ℕ
  subscribers : List Subscriber
  /-- History, read by nothing in the program, newest first. -/
  history : List ProberEvent
  deriving DecidableEq, Repr

/-- Host text, interval and timeout, joined by a separator the host text may contain. -/
def proberKey (host : Bytes) (intervalUs timeoutUs : ℕ) : Bytes :=
  separatedKey 0x1f host (decimal intervalUs) (decimal timeoutUs)

/-- Enough in flight to keep sending at the configured interval while the slowest permitted
reply is still outstanding. -/
def neededInFlight (intervalUs timeoutUs : ℕ) : ℕ :=
  min (max ((timeoutUs + intervalUs - 1) / intervalUs) 1) kMaxInFlight

theorem sep_notMem_decimal (n : ℕ) : (0x1f : UInt8) ∉ decimal n := fun h =>
  absurd (toNat_of_mem_decimal h).1 (by decide)

/-- Two streams share a key only if they agree in all three parts, whatever the host text. -/
theorem proberKey_inj {host host' : Bytes} {i i' t t' : ℕ} :
    proberKey host i t = proberKey host' i' t' ↔ host = host' ∧ i = i' ∧ t = t' := by
  constructor
  · intro h
    obtain ⟨hhost, hi, ht⟩ := separatedKey_inj (sep_notMem_decimal i) (sep_notMem_decimal i')
      (sep_notMem_decimal t) (sep_notMem_decimal t') h
    exact ⟨hhost, decimal_injective hi, decimal_injective ht⟩
  · rintro ⟨rfl, rfl, rfl⟩
    rfl

theorem one_le_neededInFlight (i t : ℕ) : 1 ≤ neededInFlight i t := by
  simp [neededInFlight, kMaxInFlight]

theorem neededInFlight_le (i t : ℕ) : neededInFlight i t ≤ 8 := by
  simp [neededInFlight, kMaxInFlight]

namespace Prober

def key (p : Prober) : Bytes := proberKey p.host p.intervalUs p.timeoutUs

def log (p : Prober) (event : ProberEvent) : Prober := { p with history := event :: p.history }

/-- The prober's own part of `applySample`. -/
def count (p : Prober) (received : Bool) (rttUs now : ℕ) : Prober :=
  { p with
    sent := p.sent + 1
    received := if received then p.received + 1 else p.received
    history := .sample received rttUs now :: p.history }

/-- The probe a reply with this sequence number would complete. -/
def probe (p : Prober) (seq : ℕ) : Option InFlight := p.inFlight.find? (·.seq = seq)

end Prober
end NetworkHealth.Daemon
