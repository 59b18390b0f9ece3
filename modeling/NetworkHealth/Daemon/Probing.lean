import NetworkHealth.Daemon.Monitor

/-! Sending probes, giving up on them, and taking replies and lookup results. What the
kernel answers to a send and what the wall clock shows are parameters; both may depend on
anything the prober has been through. -/
namespace NetworkHealth.Daemon

def kResolveTtlUs : ℕ := 300 * 1000000
def kResolveBackoffBaseUs : ℕ := 5 * 1000000
def kResolveBackoffMaxUs : ℕ := 300 * 1000000

inductive SendResult
  | sent
  | unreachable (error : Bytes)
  | failed (error : Bytes)
  deriving DecidableEq, Repr

/-- The kernel's answer to the send a prober is about to make, and `nowRealtimeUs` when a
sample is applied to it. -/
structure Io where
  send : Prober → SendResult
  realtime : Prober → ℕ

/-- A datagram with the layout of our echo payload, and where it came from. -/
structure Datagram where
  cookie : ℕ
  uid : ℕ
  seq : ℕ
  sentUs : ℕ
  source : SockAddr
  sourceLen : ℕ
  deriving DecidableEq, Repr

/-- A completed lookup. -/
structure Resolution where
  uid : ℕ
  ok : Bool
  endpoint : Endpoint
  error : Bytes
  deriving DecidableEq, Repr

namespace Prober

/-- The next sequence number is taken. -/
def numbered (p : Prober) : Prober := { p with sequence := (p.sequence + 1) % 2 ^ 32 }

/-- The probe has been handed to the kernel. -/
def launched (p : Prober) (now : ℕ) : Prober :=
  { p with
    inFlight := p.inFlight ++ [⟨p.sequence, now, now + p.timeoutUs⟩]
    lastError := if p.lastError = ascii "unresolved address" then [] else p.lastError
    history := .sent p.sequence p.endpoint now :: p.history }

/-- Why nothing can be sent. -/
def blockedError (p : Prober) (socket : IcmpSocket) : Bytes :=
  if !p.endpoint.valid && p.lastError = [] then ascii "unresolved address"
  else if !socket.isOpen then socket.error
  else p.lastError

/-- The probe is not even sent. -/
def refuse (p : Prober) (error : Bytes) (now : ℕ) : Prober :=
  { p with lastError := error }.log (.refused now)

/-- The oldest probe is given up. -/
def giveUp (p : Prober) (oldest : InFlight) (rest : List InFlight) (now : ℕ) : Prober :=
  { p with inFlight := rest, lastError := ascii "timeout" }.log (.expired oldest.seq now)

/-- The probe with this sequence number is answered. -/
def answer (p : Prober) (seq now : ℕ) : Prober :=
  { p with inFlight := p.inFlight.eraseP (·.seq = seq), lastError := [] }.log (.answered seq now)

end Prober

def socketFor (socket4 socket6 : IcmpSocket) (p : Prober) : IcmpSocket :=
  if p.endpoint.family = .inet6 then socket6 else socket4

/-- A probe completed at once, with nothing put in flight. -/
def refuse (io : Io) (now : ℕ) (b : Board) (p : Prober) (error : Bytes) : Board × Prober :=
  let p := p.refuse error now
  applySample b p false 0 now (io.realtime p)

def sendProbe (socket4 socket6 : IcmpSocket) (io : Io) (now : ℕ) (b : Board) (p : Prober) :
    Board × Prober :=
  let p := p.log (.call now)
  let socket := socketFor socket4 socket6 p
  if !p.endpoint.valid || !socket.isOpen then refuse io now b p (p.blockedError socket)
  else match io.send p.numbered with
    | .sent => (b, p.numbered.launched now)
    | .unreachable error => refuse io now b p.numbered error
    | .failed error => refuse io now b p.numbered error

/-- The `while` loop of `tick`, over the probes in flight. -/
def expire (io : Io) (now : ℕ) (b : Board) (p : Prober) : List InFlight → Board × Prober
  | [] => (b, p)
  | oldest :: rest =>
    if oldest.deadlineUs ≤ now + kSendSlackUs then
      let p := p.giveUp oldest rest now
      let next := applySample b p false 0 now (io.realtime p)
      expire io now next.1 next.2 rest
    else (b, p)

/-- The lookup `tick` asks for. -/
def requestLookup (now : ℕ) (b : Board) (p : Prober) : Board × Prober :=
  if !p.numeric && !p.resolving && p.nextResolveUs ≤ now + kSendSlackUs then
    ({ b with lookups := b.lookups ++ [⟨p.uid, p.host⟩] }, { p with resolving := true })
  else (b, p)

/-- The next send. After a suspend or an overload it resynchronises instead of catching up. -/
def Prober.advance (p : Prober) (now : ℕ) : Prober :=
  { p with nextSendUs :=
      if p.nextSendUs + p.intervalUs ≤ now then now + p.intervalUs else p.nextSendUs + p.intervalUs }

def sendDue (socket4 socket6 : IcmpSocket) (io : Io) (now : ℕ) (b : Board) (p : Prober) :
    Board × Prober :=
  if p.inFlight.length < p.maxInFlight ∧ p.nextSendUs ≤ now + kSendSlackUs then
    let next := sendProbe socket4 socket6 io now b p
    (next.1, next.2.advance now)
  else (b, p)

def tickProber (socket4 socket6 : IcmpSocket) (io : Io) (now : ℕ) (b : Board) (p : Prober) :
    Board × Prober :=
  let expired := expire io now b p p.inFlight
  let asked := requestLookup now expired.1 expired.2
  sendDue socket4 socket6 io now asked.1 asked.2

/-- What a failed or successful lookup does to its prober. -/
def Prober.resolve (p : Prober) (now : ℕ) (result : Resolution) : Prober :=
  if result.ok then
    { p with
      resolving := false
      endpoint := result.endpoint
      resolveFailures := 0
      lastError := []
      nextResolveUs := now + kResolveTtlUs }
  else
    let failures := min (p.resolveFailures + 1) 16
    let backoff := min (kResolveBackoffBaseUs <<< min (failures - 1) 6) kResolveBackoffMaxUs
    { p with
      resolving := false
      resolveFailures := failures
      nextResolveUs := now + backoff
      lastError := ascii "DNS: " ++ result.error }

namespace Monitor

def tick (m : Monitor) (now : ℕ) (io : Io) : Monitor :=
  let next := mapAccum (tickProber m.socket4 m.socket6 io now) m.toBoard m.probers
  { m with toBoard := next.1, probers := next.2 }

/-- The prober a uid stands for, with its index. -/
def proberOf (m : Monitor) (uid : ℕ) : Option (ℕ × Prober) :=
  (m.proberByUid.lookup uid).bind fun i => m.probers[i]?.map (i, ·)

/-- The loop body of `handleReplies`, and before it the cookie test of `receive`. -/
def handleReply (now : ℕ) (io : Io) (m : Monitor) (reply : Datagram) : Monitor :=
  if reply.cookie ≠ m.cookie then m
  else match m.proberOf reply.uid with
  | none => m
  | some (i, p) =>
    -- A duplicate, or a reply that arrived after we gave up, has no probe.
    if (p.probe reply.seq).isNone then m
    else if !p.endpoint.isFrom reply.source reply.sourceLen then m
    else
      let p := p.answer reply.seq now
      let next := applySample m.toBoard p true (now - reply.sentUs) now (io.realtime p)
      { m with toBoard := next.1, probers := m.probers.set i next.2 }

def handleReplies (m : Monitor) (now : ℕ) (io : Io) (replies : List Datagram) : Monitor :=
  replies.foldl (handleReply now io) m

/-- The loop body of `handleResolutions`. -/
def handleResolution (now : ℕ) (m : Monitor) (result : Resolution) : Monitor :=
  match m.proberOf result.uid with
  | none => m
  | some (i, p) =>
    let changed := !result.ok || !p.endpoint.valid || p.endpoint.text ≠ result.endpoint.text
    { m with stateDirty := m.stateDirty || changed, probers := m.probers.set i (p.resolve now result) }

def handleResolutions (m : Monitor) (now : ℕ) (results : List Resolution) : Monitor :=
  results.foldl (handleResolution now) m

end Monitor
end NetworkHealth.Daemon
