import NetworkHealth.Daemon.ProberInvariant

/-! The state the widget reads. Numbers go through doubles; what a double makes of a number is
a parameter. -/
namespace NetworkHealth.Daemon
variable (double : ℚ → ℚ)

/-- One entry of `destinations`, with its prober. -/
def destinationJson (prober : Option Prober) (d : Destination) (verbose : Bool) : Json :=
  let resolved := prober.filter (·.endpoint.valid)
  let loss := if 0 < d.sent then double (double (100 * double (d.sent - d.received : ℕ)) / double d.sent) else 0
  let entry := (Json.object []).sets [
    (ascii "id", .string d.id),
    (ascii "state", .string (healthStateName (reportedState d.state d.partTime))),
    (ascii "resolved", .string ((resolved.map (·.endpoint.text)).getD [])),
    (ascii "have_rtt", .bool d.haveRtt),
    (ascii "rtt_us", .number (double d.rttUs)),
    (ascii "sent", .number (double d.sent)),
    (ascii "received", .number (double d.received)),
    (ascii "loss_percent", .number loss),
    (ascii "error", .string ((prober.map (·.lastError)).getD []))]
  if !verbose then entry
  else entry.sets [
    (ascii "name", .string d.name),
    (ascii "address", .string d.address),
    (ascii "family", .number ((resolved.map fun p => if p.endpoint.family = .inet6 then 6 else 4).getD 0)),
    (ascii "enabled", .bool d.enabled),
    (ascii "part_time", .bool d.partTime),
    (ascii "order", .number d.order),
    (ascii "threshold_us", .number (double d.thresholdUs)),
    (ascii "sensitivity", .number d.sensitivity),
    (ascii "candidate", .string (healthStateName (reportedState d.candidate d.partTime))),
    (ascii "candidate_streak", .number d.candidateStreak),
    (ascii "in_flight", .number (double ((prober.map (·.inFlight.length)).getD 0 : ℕ))),
    (ascii "last_reply_us", .number (double d.lastReplyRealUs)),
    (ascii "last_change_us", .number (double d.lastChangeRealUs))]

namespace Client

/-- How many enabled destinations are shown in a state. -/
def tally (client : Client) (state : HealthState) : ℕ :=
  client.destinations.countP fun d => d.enabled && reportedState d.state d.partTime = state

def enabledCount (client : Client) : ℕ := client.destinations.countP (·.enabled)

/-- Worst state wins. Part-time hosts that are off take no part at all. -/
def overall (client : Client) : Bytes :=
  if client.enabledCount = client.tally .offline then ascii "idle"
  else if 0 < client.tally .bad then ascii "bad"
  else if 0 < client.tally .warn then ascii "warn"
  else if client.tally .unknown = 0 then ascii "good"
  else ascii "unknown"

def counts (client : Client) : Json :=
  (Json.object []).sets [
    (ascii "enabled", .number (double client.enabledCount)),
    (ascii "good", .number (double (client.tally .good))),
    (ascii "warn", .number (double (client.tally .warn))),
    (ascii "bad", .number (double (client.tally .bad))),
    (ascii "offline", .number (double (client.tally .offline))),
    (ascii "unknown", .number (double (client.tally .unknown))),
    (ascii "total", .number (double client.destinations.length))]

end Client

/-- One member of `clients`. -/
def clientJson (probers : List Prober) (client : Client) (verbose : Bool) : Json :=
  let entry := (Json.object []).sets [
    (ascii "overall", .string client.overall),
    (ascii "counts", client.counts double)]
  let entry := if !verbose then entry
    else entry.sets [
      (ascii "interval_ms", .number (double (client.intervalUs / 1000 : ℕ))),
      (ascii "timeout_ms", .number (double (client.timeoutUs / 1000 : ℕ)))]
  entry.set (ascii "destinations") (client.destinations.foldl (fun items d =>
    items.push (destinationJson double (d.prober.bind (probers[·]?)) d verbose)) (.array []))

def IcmpSocket.json (socket : IcmpSocket) : Json :=
  (Json.object []).sets [
    (ascii "available", .bool socket.isOpen),
    (ascii "raw", .bool socket.isRaw),
    (ascii "error", .string socket.error)]

namespace Monitor

/-- With the process id and the wall clock. -/
def buildStateJson (m : Monitor) (pid realNow now : ℕ) (verbose : Bool) : Json :=
  let engine := (Json.object []).sets [(ascii "ipv4", m.socket4.json), (ascii "ipv6", m.socket6.json)]
  let clients := m.clients.foldl (fun clients client =>
    clients.set client.id (clientJson double m.probers client verbose)) (.object [])
  let document := (Json.object []).sets [
    (ascii "version", .number 1),
    (ascii "generation", .number (double m.generation)),
    (ascii "pid", .number (double pid)),
    (ascii "timestamp_us", .number (double realNow)),
    (ascii "probers", .number (double m.probers.length)),
    (ascii "engine", engine)]
  let document := if !verbose then document
    else document.sets [
      (ascii "started_us", .number (double m.startedRealUs)),
      (ascii "uptime_us", .number (double now))]
  document.set (ascii "clients") clients

/-- What the widget reads, with the generation and the timestamp blanked. -/
def payload (m : Monitor) (pid : ℕ) : Json :=
  (m.buildStateJson double pid 0 0 false).sets [(ascii "generation", .null), (ascii "timestamp_us", .null)]

/-- The generation and the timestamp are all that the payload leaves out. -/
theorem payload_eq (m : Monitor) (pid realNow now : ℕ) :
    (m.buildStateJson double pid realNow now false).sets
      [(ascii "generation", .null), (ascii "timestamp_us", .null)] = m.payload double pid := rfl

end Monitor
end NetworkHealth.Daemon
