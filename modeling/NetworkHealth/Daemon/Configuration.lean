import Mathlib.Data.List.Sort
import NetworkHealth.Daemon.Probing

/-! Client files and what becomes of the probers when they change. Reading the directory and
telling numeric addresses from names are parameters. -/
namespace NetworkHealth.Daemon

/-- A directory entry with what parsing its file gives, none if it cannot be read. -/
structure DirEntry where
  name : Bytes
  document : Option Json

/-- The clients directory at one moment; empty if it cannot be opened. -/
structure Directory where
  entries : List DirEntry
  nodup : (entries.map DirEntry.name).Nodup

/-- One entry of `destinations`, with its index. -/
def loadDestination (entry : Json) (i : ℕ) : Option Destination :=
  match entry with
  | .object _ =>
    let address := trimmed ((entry.field (ascii "address")).toString [])
    if address = [] then none
    else
      let id := (entry.field (ascii "id")).toString []
      let enabled := entry.field (ascii "enabled")
      some {
        id := if id = [] then ascii "d" ++ decimal i else id
        name := (entry.field (ascii "name")).toString address
        address := address
        order := toInt32 ((entry.field (ascii "order")).toInt i)
        thresholdUs := (clampValue ((entry.field (ascii "threshold_us")).toInt 1000) 1 60000000).toNat
        sensitivity := (clampValue ((entry.field (ascii "sensitivity")).toInt 3) 0 1000).toNat
        enabled := if enabled.isNull then true else enabled.toBool true
        partTime := (entry.field (ascii "part_time")).toBool false
        prober := none
        state := .unknown
        candidate := .unknown
        candidateStreak := 0
        haveRtt := false
        rttUs := 0
        sent := 0
        received := 0
        lastReplyRealUs := 0
        lastChangeRealUs := 0
        samples := [] }
  | _ => none

/-- `loadClientFile`, after its file has been read and parsed. -/
def loadClientFile (options : Options) (path id : Bytes) (document : Json) : Option Client :=
  match document with
  | .object _ => some {
      id := id
      path := path
      intervalUs := (clampValue ((document.field (ascii "interval_ms")).toInt 1000) 100 3600000).toNat * 1000
      timeoutUs := (clampValue ((document.field (ascii "timeout_ms")).toInt 3000) 50 60000).toNat * 1000
      destinations := ((document.field (ascii "destinations")).entries.filterMap fun (entry, i) =>
        loadDestination entry i).take options.maxDestinations }
  | _ => none

def loadEntry (options : Options) (entry : DirEntry) : Option Client :=
  if entry.name.head? = none ∨ entry.name.head? = some 0x2e ∨ !hasSuffix entry.name (ascii ".json") then none
  else entry.document.bind
    (loadClientFile options (options.runtimeDir ++ ascii "/clients/" ++ entry.name)
      (entry.name.take (entry.name.length - 5)))

/-- The clients a reload starts from. -/
def loadedClients (options : Options) (directory : Directory) : List Client :=
  (directory.entries.filterMap (loadEntry options)).insertionSort fun a b => a.id ≤ b.id

/-- A destination that survived the edit keeps its evaluated state. -/
def Destination.carryOver (d old : Destination) : Destination :=
  { d with
    state := old.state
    candidate := old.candidate
    candidateStreak := old.candidateStreak
    haveRtt := old.haveRtt
    rttUs := old.rttUs
    sent := old.sent
    received := old.received
    lastReplyRealUs := old.lastReplyRealUs
    lastChangeRealUs := old.lastChangeRealUs
    samples := old.samples }

def Client.carryOver (client : Client) (previous : List Client) : Client :=
  match previous.find? (·.id = client.id) with
  | none => client
  | some before =>
    { client with destinations := client.destinations.map fun d =>
        match before.destinations.find? fun old => old.id = d.id ∧ old.address = d.address with
        | none => d
        | some old => d.carryOver old }

/-- A prober for an address nobody probes yet. -/
def freshProber (numeric : Bytes → Option Endpoint) (now uid : ℕ) (host : Bytes)
    (intervalUs timeoutUs : ℕ) : Prober where
  host := host
  intervalUs := intervalUs
  timeoutUs := timeoutUs
  uid := uid
  endpoint := (numeric host).getD .empty
  numeric := (numeric host).isSome
  resolving := false
  lastError := if (numeric host).isSome then [] else ascii "resolving"
  nextResolveUs := if (numeric host).isSome then 0 else now
  resolveFailures := 0
  nextSendUs := now
  sequence := 0
  inFlight := []
  maxInFlight := 1
  sent := 0
  received := 0
  subscribers := []
  history := []

/-- The local variables of `rebuildProbers`. -/
structure Rebuild where
  /-- Indices into the previous probers. -/
  consumed : List ℕ
  probers : List Prober
  currentByKey : List (Bytes × ℕ)
  nextUid : ℕ

namespace Rebuild

/-- The previous prober for a key, unless it has been taken already. -/
def recycled (previous : List Prober) (st : Rebuild) (key : Bytes) : Option (ℕ × Prober) :=
  match (previous.zipIdx.map fun (p, i) => (p.key, i, p)).lookup key with
  | some (i, p) => if i ∈ st.consumed then none else some (i, p)
  | none => none

/-- Recycles or creates the prober for a key that has none yet. -/
def addProber (numeric : Bytes → Option Endpoint) (now : ℕ) (previous : List Prober) (st : Rebuild)
    (host : Bytes) (intervalUs timeoutUs : ℕ) : Rebuild :=
  let key := proberKey host intervalUs timeoutUs
  let currentByKey := st.currentByKey ++ [(key, st.probers.length)]
  match st.recycled previous key with
  | some (i, p) =>
    { st with consumed := i :: st.consumed, currentByKey := currentByKey,
              probers := st.probers ++ [{ p with subscribers := [] }] }
  | none =>
    { st with currentByKey := currentByKey, nextUid := st.nextUid + 1,
              probers := st.probers ++
                [freshProber numeric now (st.nextUid % 2 ^ 32) host intervalUs timeoutUs] }

/-- The loop body: one destination of one client. -/
def subscribe (numeric : Bytes → Option Endpoint) (now : ℕ) (previous : List Prober)
    (client : Client) (c : ℕ) (st : Rebuild) (slot : Destination × ℕ) : Rebuild × Destination :=
  if !slot.1.enabled then (st, { slot.1 with prober := none })
  else
    let key := proberKey slot.1.address client.intervalUs client.timeoutUs
    let st := if (st.currentByKey.lookup key).isSome then st
      else st.addProber numeric now previous slot.1.address client.intervalUs client.timeoutUs
    let i := (st.currentByKey.lookup key).getD 0
    ({ st with probers := st.probers.modify i fun p =>
        { p with subscribers := p.subscribers ++ [⟨c, slot.2⟩] } },
      { slot.1 with prober := some i })

/-- The inner loop. -/
def subscribeClient (numeric : Bytes → Option Endpoint) (now : ℕ) (previous : List Prober)
    (st : Rebuild) (slot : Client × ℕ) : Rebuild × Client :=
  let next := mapAccum (subscribe numeric now previous slot.1 slot.2) st slot.1.destinations.zipIdx
  (next.1, { slot.1 with destinations := next.2 })

end Rebuild

/-- The fastest interval, 0 if there is none. -/
def fastestInterval (probers : List Prober) : ℕ :=
  probers.foldl (fun fastest p =>
    if fastest = 0 ∨ p.intervalUs < fastest then p.intervalUs else fastest) 0

namespace Monitor

def rebuildProbers (numeric : Bytes → Option Endpoint) (now : ℕ) (m : Monitor) : Monitor :=
  let next := mapAccum (Rebuild.subscribeClient numeric now m.probers) ⟨[], [], [], m.nextUid⟩
    m.clients.zipIdx
  { m with
    clients := next.2
    probers := next.1.probers.map fun p =>
      { p with maxInFlight := neededInFlight p.intervalUs p.timeoutUs }
    proberByUid := (next.1.probers.zipIdx.map fun (p, i) => (p.uid, i)).reverse
    nextUid := next.1.nextUid
    minIntervalUs := fastestInterval next.1.probers }

def reloadClients (numeric : Bytes → Option Endpoint) (now : ℕ) (directory : Directory)
    (m : Monitor) : Monitor :=
  let loaded := (loadedClients m.options directory).map (·.carryOver m.clients)
  let next := rebuildProbers numeric now { m with configDirty := false, clients := loaded }
  { next with stateDirty := true }

end Monitor
end NetworkHealth.Daemon
