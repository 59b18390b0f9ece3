import NetworkHealth.Daemon.StateJson
import NetworkHealth.Daemon.LostVerdict

/-! Whether every change the widget could see is scheduled for publication. A handler that
changes what is shown has to raise a flag; a lookup that succeeds clears the last error of its
prober and raises one only if the address has changed. -/
namespace NetworkHealth.Daemon

/-- What the payload shows of a prober. -/
def Prober.shown (p : Prober) : Bytes × Bytes :=
  (if p.endpoint.valid then p.endpoint.text else [], p.lastError)

section Payload
variable (double : ℚ → ℚ) (pid : ℕ)

/-- A destination's entry, from what is shown of its prober. -/
def shownEntry (shown : Bytes × Bytes) (d : Destination) : Json :=
  let loss := if 0 < d.sent then double (double (100 * double (d.sent - d.received : ℕ)) / double d.sent) else 0
  (Json.object []).sets [
    (ascii "id", .string d.id),
    (ascii "state", .string (healthStateName (reportedState d.state d.partTime))),
    (ascii "resolved", .string shown.1),
    (ascii "have_rtt", .bool d.haveRtt),
    (ascii "rtt_us", .number (double d.rttUs)),
    (ascii "sent", .number (double d.sent)),
    (ascii "received", .number (double d.received)),
    (ascii "loss_percent", .number loss),
    (ascii "error", .string shown.2)]

theorem destinationJson_eq (prober : Option Prober) (d : Destination) :
    destinationJson double prober d false = shownEntry double ((prober.map Prober.shown).getD ([], [])) d := by
  have hresolved : ((prober.filter (·.endpoint.valid)).map (·.endpoint.text)).getD [] =
      ((prober.map Prober.shown).getD ([], [])).1 := by
    cases prober with
    | none => rfl
    | some p => cases hvalid : p.endpoint.valid <;> simp [hvalid, Prober.shown, Option.filter]
  have herror : (prober.map (·.lastError)).getD [] = ((prober.map Prober.shown).getD ([], [])).2 := by
    cases prober <;> rfl
  unfold destinationJson shownEntry
  dsimp only
  rw [hresolved, herror, if_pos (by rfl)]

theorem shownEntry_inj {shown shown' : Bytes × Bytes} {d : Destination}
    (h : shownEntry double shown d = shownEntry double shown' d) : shown = shown' := by
  have hresolved := congrArg (Json.field (ascii "resolved")) h
  have herror := congrArg (Json.field (ascii "error")) h
  exact Prod.ext (Json.string.inj hresolved) (Json.string.inj herror)

/-- The client's entry, from what is shown of the probers. -/
theorem clientJson_congr {probers probers' : List Prober}
    (h : probers'.map Prober.shown = probers.map Prober.shown) (client : Client) :
    clientJson double probers' client false = clientJson double probers client false := by
  have hprober : ∀ d : Destination, destinationJson double (d.prober.bind (probers'[·]?)) d false =
      destinationJson double (d.prober.bind (probers[·]?)) d false := by
    intro d
    rw [destinationJson_eq, destinationJson_eq]
    congr 2
    cases d.prober with
    | none => rfl
    | some i => simpa using congrArg (·[i]?) h
  unfold clientJson
  simp only [hprober]

theorem payload_congr {m m' : Monitor} (hclients : m'.clients = m.clients)
    (hsockets : m'.socket4 = m.socket4 ∧ m'.socket6 = m.socket6)
    (hshown : m'.probers.map Prober.shown = m.probers.map Prober.shown) :
    m'.payload double pid = m.payload double pid := by
  have hlength : m'.probers.length = m.probers.length := by
    simpa using congrArg List.length hshown
  unfold Monitor.payload Monitor.buildStateJson
  simp only [hclients, hsockets.1, hsockets.2, hlength, clientJson_congr double hshown]
  rfl

/-- Of clients with different ids, each is found under its own. -/
theorem field_foldl_set {clients : List Client} (hids : (clients.map Client.id).Nodup)
    (f : Client → Json) {client : Client} (hclient : client ∈ clients) (document : Json) :
    (clients.foldl (fun document client => document.set client.id (f client)) document).field client.id =
      f client := by
  have hother : ∀ (clients : List Client) (document : Json), client.id ∉ clients.map Client.id →
      (clients.foldl (fun document client => document.set client.id (f client)) document).field client.id =
        document.field client.id := by
    intro clients
    induction clients with
    | nil => exact fun _ _ => rfl
    | cons first rest ih =>
      intro document hnotMem
      simp only [List.map_cons, List.mem_cons, not_or] at hnotMem
      rw [List.foldl_cons, ih _ hnotMem.2, Json.field_set, if_neg hnotMem.1]
  induction clients generalizing document with
  | nil => exact absurd hclient List.not_mem_nil
  | cons first rest ih =>
    obtain ⟨hfirst, hrest⟩ := List.nodup_cons.mp hids
    rw [List.foldl_cons]
    obtain rfl | hmem := List.mem_cons.mp hclient
    · rw [hother _ _ hfirst, Json.field_set, if_pos rfl]
    · exact ih hrest hmem _

/-- Equal payloads of equal clients show the same of every prober that some destination has. -/
theorem shown_eq_of_payload_eq {m m' : Monitor} (hids : (m.clients.map Client.id).Nodup)
    (hclients : m'.clients = m.clients) (h : m'.payload double pid = m.payload double pid)
    {client : Client} (hclient : client ∈ m.clients) {d : Destination} (hd : d ∈ client.destinations)
    {i : ℕ} (hi : d.prober = some i) {p p' : Prober} (hp : m.probers[i]? = some p)
    (hp' : m'.probers[i]? = some p') : p'.shown = p.shown := by
  have hfield : ∀ m : Monitor, (m.payload double pid).field (ascii "clients") =
      m.clients.foldl (fun clients client => clients.set client.id (clientJson double m.probers client false))
        (.object []) := fun _ => rfl
  have hentry := congrArg (Json.field client.id ∘ Json.field (ascii "clients")) h
  simp only [Function.comp_apply, hfield, hclients] at hentry
  rw [field_foldl_set hids _ hclient, field_foldl_set hids _ hclient] at hentry
  have hdestinations : ∀ probers, (clientJson double probers client false).field (ascii "destinations") =
      .array (client.destinations.map fun d => destinationJson double (d.prober.bind (probers[·]?)) d false) := by
    intro probers
    unfold clientJson
    rw [Json.field_set, if_pos rfl, Json.foldl_push, List.nil_append]
  have hitems := congrArg (Json.field (ascii "destinations")) hentry
  rw [hdestinations, hdestinations] at hitems
  have hsame := List.map_inj_left.mp (Json.array.inj hitems) d hd
  simp only [hi, Option.bind_some, hp, hp', destinationJson_eq, Option.map_some, Option.getD_some] at hsame
  exact shownEntry_inj double hsame

end Payload

/-- The state is to be published. -/
def Board.Flagged (b : Board) : Prop := b.dataDirty = true ∨ b.stateDirty = true

instance (b : Board) : Decidable b.Flagged := inferInstanceAs (Decidable (_ ∨ _))

namespace Prober

/-- A tick hands a probe of this prober to the kernel. -/
def Launches (socket4 socket6 : IcmpSocket) (now : ℕ) (io : Io) (p : Prober) : Prop :=
  p.endpoint.valid = true ∧ (socketFor socket4 socket6 p).isOpen = true ∧ io.send (p.attempt now io) = .sent

/-- A tick applies a sample to this prober: a probe has waited, or one is due and is not sent. -/
def Samples (socket4 socket6 : IcmpSocket) (now : ℕ) (io : Io) (p : Prober) : Prop :=
  (∃ oldest ∈ p.inFlight.head?, oldest.deadlineUs ≤ now + kSendSlackUs) ∨
    p.SendsAt now ∧ ¬ p.Launches socket4 socket6 now io

end Prober

section Tick
variable (socket4 socket6 : IcmpSocket) (io : Io) (now : ℕ) (b : Board) {p : Prober}

theorem flagged_boardRule (subscribers : List Subscriber) : BoardRule subscribers Board.Flagged where
  sampled b s _ received rttUs realNow h := by
    unfold Board.sampleAt
    split
    · exact h
    · refine h.imp_right fun hstate => ?_
      simp [hstate]
  noted _ _ := Or.inl rfl
  asked _ _ h := h

theorem sendProbe_of_launches (h : p.endpoint.valid = true ∧ (socketFor socket4 socket6 p).isOpen = true ∧
    io.send (p.log (.call now)).numbered = .sent) :
    sendProbe socket4 socket6 io now b p = (b, (p.log (.call now)).numbered.launched now) := by
  have hclear : ¬ (!(p.log (.call now)).endpoint.valid ||
      !(socketFor socket4 socket6 (p.log (.call now))).isOpen) = true := by
    change ¬ (!p.endpoint.valid || !(socketFor socket4 socket6 p).isOpen) = true
    simp [h.1, h.2.1]
  unfold sendProbe
  dsimp only
  rw [if_neg hclear, h.2.2]

theorem flagged_sendProbe (h : ¬ (p.endpoint.valid = true ∧ (socketFor socket4 socket6 p).isOpen = true ∧
    io.send (p.log (.call now)).numbered = .sent)) :
    (sendProbe socket4 socket6 io now b p).1.Flagged := by
  unfold sendProbe
  dsimp only
  split
  · exact Or.inl rfl
  · next hclear =>
    change ¬ (!p.endpoint.valid || !(socketFor socket4 socket6 p).isOpen) = true at hclear
    simp only [Bool.or_eq_true, Bool.not_eq_true', not_or, Bool.not_eq_false] at hclear
    split
    · next hsent => exact absurd ⟨hclear.1, hclear.2, hsent⟩ h
    · exact Or.inl rfl
    · exact Or.inl rfl

/-- What a tick's send decides on is the prober as the tick found it. -/
theorem tickProber_eq (p : Prober) :
    ∃ asked : Board × Prober, asked = requestLookup now (expire io now b p p.inFlight).1
        (expire io now b p p.inFlight).2 ∧
      (p.SendsAt now → (tickProber socket4 socket6 io now b p).1 = (sendProbe socket4 socket6 io now asked.1 asked.2).1 ∧
        (tickProber socket4 socket6 io now b p).2 =
          (sendProbe socket4 socket6 io now asked.1 asked.2).2.advance now) ∧
      (¬ p.SendsAt now → tickProber socket4 socket6 io now b p = asked) ∧
      ((asked.2.endpoint.valid = true ∧ (socketFor socket4 socket6 asked.2).isOpen = true ∧
        io.send (asked.2.log (.call now)).numbered = .sent) ↔ p.Launches socket4 socket6 now io) := by
  obtain ⟨hendpoint, hqueue, hmax, hnext, hattempt⟩ := asked_fields io now b p
  refine ⟨_, rfl, ?_⟩
  unfold tickProber sendDue
  dsimp only
  generalize requestLookup now (expire io now b p p.inFlight).1 (expire io now b p p.inFlight).2 = asked at *
  rw [hattempt, hqueue, hmax, hnext, hendpoint, socketFor, hendpoint]
  refine ⟨fun hsends => ?_, fun hidle => ?_, Iff.rfl⟩
  · rw [if_pos (show _ ∧ _ from hsends)]
    exact ⟨rfl, rfl⟩
  · rw [if_neg (show ¬ (_ ∧ _) from hidle)]

/-- A tick that applies a sample raises a flag. -/
theorem flagged_tickProber (h : p.Samples socket4 socket6 now io) :
    (tickProber socket4 socket6 io now b p).1.Flagged := by
  obtain ⟨oldest, holdest, hdue⟩ | ⟨hsends, hunsent⟩ := h
  · apply (flagged_boardRule p.subscribers).tickProber_of_expire
    obtain ⟨rest, hqueue⟩ := List.head?_eq_some_iff.mp holdest
    rw [hqueue, expire, if_pos hdue]
    exact (flagged_boardRule ((p.giveUp oldest rest now).count false 0 now).subscribers).expire io now
      (Or.inl rfl) rest
  · obtain ⟨asked, -, htick, -, hlaunches⟩ := tickProber_eq socket4 socket6 io now b p
    rw [(htick hsends).1]
    exact flagged_sendProbe socket4 socket6 io now asked.1 (hlaunches.not.mpr hunsent)

theorem expire_of_not_due (h : ∀ oldest ∈ p.inFlight.head?, ¬ oldest.deadlineUs ≤ now + kSendSlackUs) :
    expire io now b p p.inFlight = (b, p) := by
  cases hqueue : p.inFlight with
  | nil => rfl
  | cons oldest rest => exact if_neg (h oldest (by rw [hqueue]; rfl))

/-- A tick that applies no sample touches the board for its lookups only, and shows its prober
as before, unless it takes back that its address is unresolved. -/
theorem shown_tickProber (h : ¬ p.Samples socket4 socket6 now io) :
    let after := tickProber socket4 socket6 io now b p
    after.1.clients = b.clients ∧ after.1.dataDirty = b.dataDirty ∧ after.1.stateDirty = b.stateDirty ∧
      after.2.shown = if p.SendsAt now ∧ p.lastError = ascii "unresolved address"
        then (p.shown.1, []) else p.shown := by
  simp only [Prober.Samples, not_or, not_exists, not_and, not_not] at h
  obtain ⟨asked, hasked, hsent, hidle, hlaunches⟩ := tickProber_eq socket4 socket6 io now b p
  rw [expire_of_not_due io now b h.1] at hasked
  have hboard : asked.1.clients = b.clients ∧ asked.1.dataDirty = b.dataDirty ∧
      asked.1.stateDirty = b.stateDirty ∧ asked.2.shown = p.shown ∧ asked.2.lastError = p.lastError := by
    rw [hasked]
    unfold requestLookup
    split_ifs <;> exact ⟨rfl, rfl, rfl, rfl, rfl⟩
  obtain ⟨hclients, hdata, hstate, hshown, herror⟩ := hboard
  by_cases hsends : p.SendsAt now
  · obtain ⟨hboard, hprober⟩ := hsent hsends
    rw [sendProbe_of_launches socket4 socket6 io now asked.1 (hlaunches.mpr (h.2 hsends))] at hboard hprober
    dsimp only
    rw [hboard, hprober]
    refine ⟨hclients, hdata, hstate, ?_⟩
    change (asked.2.shown.1, if asked.2.lastError = ascii "unresolved address" then []
      else asked.2.lastError) = _
    rw [← herror, ← hshown]
    by_cases hunresolved : asked.2.lastError = ascii "unresolved address"
    · rw [if_pos hunresolved, if_pos ⟨hsends, hunresolved⟩]
    · rw [if_neg hunresolved, if_neg fun hboth => hunresolved hboth.2]
      rfl
  · dsimp only
    rw [hidle hsends, if_neg fun hboth => hsends hboth.1]
    exact ⟨hclients, hdata, hstate, hshown⟩

end Tick

/-- A tick applies a sample, or has no error to take back. -/
def Quiet (m : Monitor) (now : ℕ) (io : Io) : Prop :=
  (∃ p ∈ m.probers, p.Samples m.socket4 m.socket6 now io) ∨
    ∀ p ∈ m.probers, ¬ (p.SendsAt now ∧ p.lastError = ascii "unresolved address")

theorem flagged_tick {m : Monitor} {p : Prober} (hp : p ∈ m.probers) (now : ℕ) (io : Io)
    (h : p.Samples m.socket4 m.socket6 now io) : (m.tick now io).Flagged :=
  mapAccum_reaches (f := tickProber m.socket4 m.socket6 io now) Board.Flagged
    (fun _ q _ hb => (flagged_boardRule q.subscribers).tickProber m.socket4 m.socket6 io now hb) hp
    (fun b => flagged_tickProber m.socket4 m.socket6 io now b h) m.toBoard

/-- A tick without samples: only lookups and what it shows of its probers. -/
theorem shown_tick {m : Monitor} {now : ℕ} {io : Io}
    (h : ∀ p ∈ m.probers, ¬ p.Samples m.socket4 m.socket6 now io) :
    ((m.tick now io).clients = m.clients ∧ ((m.tick now io).Flagged ↔ m.Flagged)) ∧
      ((m.tick now io).probers.map Prober.shown = m.probers.map Prober.shown ↔
        ∀ p ∈ m.probers, ¬ (p.SendsAt now ∧ p.lastError = ascii "unresolved address")) := by
  have hboard : (m.tick now io).clients = m.clients ∧ (m.tick now io).dataDirty = m.dataDirty ∧
      (m.tick now io).stateDirty = m.stateDirty := by
    refine mapAccum_keeps (fun b : Board => b.clients = m.clients ∧ b.dataDirty = m.dataDirty ∧
      b.stateDirty = m.stateDirty) m.probers (fun b p hp hb => ?_) ⟨rfl, rfl, rfl⟩
    obtain ⟨hclients, hdata, hstate, -⟩ := shown_tickProber m.socket4 m.socket6 io now b (h p hp)
    exact ⟨hclients.trans hb.1, hdata.trans hb.2.1, hstate.trans hb.2.2⟩
  have hprobers : (m.tick now io).probers.map Prober.shown = m.probers.map fun p =>
      if p.SendsAt now ∧ p.lastError = ascii "unresolved address" then (p.shown.1, []) else p.shown :=
    map_mapAccum_of_mem (fun b p hp => (shown_tickProber m.socket4 m.socket6 io now b (h p hp)).2.2.2) m.toBoard
  refine ⟨⟨hboard.1, ?_⟩, ?_⟩
  · unfold Board.Flagged
    rw [hboard.2.1, hboard.2.2]
  · rw [hprobers, List.map_inj_left]
    refine forall₂_congr fun p _ => ?_
    split_ifs with hclears
    · refine iff_of_false (fun he => ?_) (not_not.mpr hclears)
      have herror : [] = p.lastError := congrArg Prod.snd he
      rw [hclears.2] at herror
      cases herror
    · exact iff_of_true rfl hclears

section Resolutions

/-- A lookup result that raises no flag. -/
def Silent (m : Monitor) (result : Resolution) : Prop :=
  ∀ i p, m.proberOf result.uid = some (i, p) →
    result.ok = true ∧ p.endpoint.valid = true ∧ p.endpoint.text = result.endpoint.text

/-- A lookup result after which its prober is shown differently. -/
def Hidden (m : Monitor) (result : Resolution) : Prop :=
  ∃ i p, m.proberOf result.uid = some (i, p) ∧
    (p.lastError ≠ [] ∨ result.endpoint.valid = false ∧ result.endpoint.text ≠ [])

/-- The loop of `handleResolutions`. -/
def resolving (now : ℕ) : Machine Monitor Resolution := ⟨Monitor.handleResolution now⟩

/-- Each part is as it was or gone. -/
def Shrinks (before after : Bytes × Bytes) : Prop :=
  (after.1 = before.1 ∨ after.1 = []) ∧ (after.2 = before.2 ∨ after.2 = [])

theorem Shrinks.trans (a b c : Bytes × Bytes) (hab : Shrinks a b) (hbc : Shrinks b c) : Shrinks a c := by
  refine ⟨?_, ?_⟩
  · obtain h | h := hbc.1
    · rw [h]
      exact hab.1
    · exact Or.inr h
  · obtain h | h := hbc.2
    · rw [h]
      exact hab.2
    · exact Or.inr h

/-- What has gone does not come back. -/
theorem Shrinks.antisymm (a b : Bytes × Bytes) (hab : Shrinks a b) (hba : Shrinks b a) : b = a := by
  obtain ⟨h, h'⟩ := hab
  obtain ⟨k, k'⟩ := hba
  refine Prod.ext ?_ ?_
  · obtain h | h := h
    · exact h
    · obtain k | k := k
      · exact k.symm
      · rw [h, k]
  · obtain h | h := h'
    · exact h
    · obtain k | k := k'
      · exact k.symm
      · rw [h, k]

variable {m : Monitor} {now : ℕ} {result : Resolution}

theorem silent_iff {i : ℕ} {p : Prober} (hp : m.proberOf result.uid = some (i, p)) :
    Silent m result ↔ result.ok = true ∧ p.endpoint.valid = true ∧ p.endpoint.text = result.endpoint.text := by
  constructor
  · exact fun h => h i p hp
  · rintro h j q hq
    obtain ⟨-, rfl⟩ := Prod.mk.inj (Option.some.inj (hq.symm.trans hp))
    exact h

theorem stateDirty_handleResolution :
    (m.handleResolution now result).stateDirty = true ↔ m.stateDirty = true ∨ ¬ Silent m result := by
  unfold Monitor.handleResolution
  split
  · next hnone => simp [Silent, hnone]
  · next i p hp =>
    rw [silent_iff hp]
    simp only [Bool.or_eq_true, Bool.not_eq_true', decide_eq_true_eq, ne_eq]
    cases result.ok <;> cases p.endpoint.valid <;> simp

variable (now) in
/-- What a silent result shows: no error any more, and the address as it was. -/
theorem shown_resolve {i : ℕ} {p : Prober} (hp : m.proberOf result.uid = some (i, p))
    (hsilent : Silent m result) : (p.resolve now result).shown =
      (if result.endpoint.valid then p.shown.1 else [], []) := by
  obtain ⟨hok, hvalid, htext⟩ := (silent_iff hp).mp hsilent
  simp [Prober.shown, Prober.resolve, hok, hvalid, htext]

variable (now) in
/-- The probers as they are shown, before and after a silent result. -/
theorem shown_handleResolution (hsilent : Silent m result) :
    List.Forall₂ Shrinks (m.probers.map Prober.shown) ((m.handleResolution now result).probers.map Prober.shown) ∧
      ((m.handleResolution now result).probers.map Prober.shown = m.probers.map Prober.shown ↔ ¬ Hidden m result) := by
  have hrefl : ∀ shown : Bytes × Bytes, Shrinks shown shown := fun _ => ⟨Or.inl rfl, Or.inl rfl⟩
  unfold Monitor.handleResolution
  split
  · next hnone =>
    exact ⟨List.forall₂_same.mpr fun shown _ => hrefl shown,
      iff_of_true rfl fun ⟨i, p, hp, _⟩ => by simp [hnone] at hp⟩
  · next i p hp =>
    have hi := (Monitor.proberOf_eq_some.mp hp).2
    have hresolve := shown_resolve now hp hsilent
    obtain ⟨hok, hvalid, htext⟩ := (silent_iff hp).mp hsilent
    have hshown : p.shown = (result.endpoint.text, p.lastError) := by simp [Prober.shown, hvalid, htext]
    have hhidden : (p.resolve now result).shown = p.shown ↔ ¬ Hidden m result := by
      rw [hresolve, hshown, Prod.mk.injEq]
      constructor
      · rintro ⟨htext', herror⟩ ⟨j, q, hq, hchange⟩
        obtain ⟨-, rfl⟩ := Prod.mk.inj (Option.some.inj (hq.symm.trans hp))
        obtain hchange | ⟨hinvalid, hne⟩ := hchange
        · exact hchange herror.symm
        · rw [hinvalid] at htext'
          exact hne htext'.symm
      · intro h
        refine ⟨?_, ?_⟩
        · split_ifs with hvalid'
          · rfl
          · by_contra hne
            exact h ⟨i, p, hp, Or.inr ⟨by simpa using hvalid', fun he => hne he.symm⟩⟩
        · by_contra hne
          exact h ⟨i, p, hp, Or.inl fun he => hne he.symm⟩
    dsimp only
    rw [List.map_set, set_eq_self (by rw [List.getElem?_map, hi]; rfl), hhidden]
    refine ⟨forall₂_set hrefl (by rw [List.getElem?_map, hi]; rfl) ?_, Iff.rfl⟩
    rw [hresolve]
    refine ⟨?_, Or.inr rfl⟩
    split_ifs
    · exact Or.inl rfl
    · exact Or.inr rfl

/-- A batch of silent results shows the probers as before exactly if none of it hides a change. -/
theorem shown_handleResolutions (results : List Resolution)
    (hsilent : (resolving now).Admits Silent m results) :
    List.Forall₂ Shrinks (m.probers.map Prober.shown) ((m.handleResolutions now results).probers.map Prober.shown) ∧
      ((m.handleResolutions now results).probers.map Prober.shown = m.probers.map Prober.shown ↔
        ¬ (resolving now).Occurs Hidden m results) := by
  induction results generalizing m with
  | nil =>
    refine ⟨List.forall₂_same.mpr fun shown _ => ⟨Or.inl rfl, Or.inl rfl⟩, iff_of_true rfl ?_⟩
    rintro ⟨before, result, after, he, -⟩
    simp at he
  | cons result rest ih =>
    obtain ⟨hfirst, hfirst'⟩ := shown_handleResolution now hsilent.1
    obtain ⟨hrest, hrest'⟩ := ih hsilent.2
    rw [Machine.occurs_cons, not_or, ← hfirst', ← hrest']
    refine ⟨forall₂_trans Shrinks.trans hfirst hrest, fun hsame => ?_, ?_⟩
    · change ((m.handleResolution now result).handleResolutions now rest).probers.map Prober.shown = _ at hsame
      have hback : List.Forall₂ Shrinks ((m.handleResolution now result).probers.map Prober.shown)
          (m.probers.map Prober.shown) := hsame ▸ hrest
      have hmiddle := forall₂_antisymm Shrinks.antisymm hfirst hback
      exact ⟨hmiddle, hsame.trans hmiddle.symm⟩
    · exact fun h => h.2.trans h.1

theorem stateDirty_handleResolutions (results : List Resolution) :
    (m.handleResolutions now results).stateDirty = true ↔
      m.stateDirty = true ∨ ¬ (resolving now).Admits Silent m results := by
  induction results generalizing m with
  | nil => simp [Monitor.handleResolutions, Machine.Admits]
  | cons result rest ih =>
    change ((m.handleResolution now result).handleResolutions now rest).stateDirty = true ↔ _
    rw [ih, stateDirty_handleResolution]
    simp only [Machine.Admits, not_and_or, or_assoc]
    rfl

end Resolutions

section Step
variable (double : ℚ → ℚ) (pid : ℕ)

/-- Every prober is somebody's, so the payload tells all that is shown of the probers. -/
theorem payload_eq_iff {m m' : Monitor} (hwired : m.WellWired) (hids : (m.clients.map Client.id).Nodup)
    (hclients : m'.clients = m.clients) (hsockets : m'.socket4 = m.socket4 ∧ m'.socket6 = m.socket6)
    (hlength : m'.probers.length = m.probers.length) :
    m'.payload double pid = m.payload double pid ↔ m'.probers.map Prober.shown = m.probers.map Prober.shown := by
  refine ⟨fun h => List.ext_getElem (by simp [hlength]) fun i hi' hi => ?_,
    payload_congr double pid hclients hsockets⟩
  simp only [List.length_map] at hi hi'
  simp only [List.getElem_map]
  obtain ⟨wire, hwire, hprober⟩ := hwired.used i (by simpa using hi)
  obtain ⟨c, d, client, dest, hclient, hdest, rfl⟩ := exists_of_mem_wires hwire
  exact shown_eq_of_payload_eq double pid hids hclients h (List.mem_of_getElem? hclient)
    (List.mem_of_getElem? hdest) hprober (List.getElem?_eq_getElem hi) (List.getElem?_eq_getElem hi')

/-- The step does not change what is shown behind the flags' backs. -/
def KeepsUp (m : Monitor) (event : Event) : Prop :=
  match event.handler with
  | .tick io => m.Flagged ∨ Quiet m event.now io
  | .handleResolutions results => m.Flagged ∨ ¬ (resolving event.now).Admits Silent m results ∨
      ¬ (resolving event.now).Occurs Hidden m results
  | _ => True

theorem handleReplies_or (m : Monitor) (now : ℕ) (io : Io) (replies : List Datagram) :
    m.handleReplies now io replies = m ∨ (m.handleReplies now io replies).Flagged := by
  refine Machine.foldl_keeps (fun m' : Monitor => m' = m ∨ m'.Flagged) (fun m' reply h => ?_) (Or.inl rfl) replies
  obtain he | ⟨i, p, q, -, -, -, -, he⟩ := m'.handleReply_cases io now reply <;> rw [he]
  · exact h
  · exact Or.inr (Or.inl rfl)

theorem kept_handleResolutions (m : Monitor) (now : ℕ) (results : List Resolution) :
    (m.handleResolutions now results).dataDirty = m.dataDirty ∧
      (m.handleResolutions now results).probers.length = m.probers.length := by
  refine Machine.foldl_keeps (fun m' : Monitor => m'.dataDirty = m.dataDirty ∧
    m'.probers.length = m.probers.length) (fun m' result h => ?_) ⟨rfl, rfl⟩ results
  obtain he | ⟨i, p, dirty, -, he⟩ := m'.handleResolution_cases now result <;> rw [he]
  · exact h
  · exact ⟨h.1, by rw [List.length_set, h.2]⟩

/-- In a well-wired state a step that changes the payload leaves a flag set, exactly if it keeps
up. -/
theorem scheduled_iff (numeric : Bytes → Option Endpoint) {m : Monitor} (hwired : m.WellWired)
    (hids : (m.clients.map Client.id).Nodup) (event : Event) :
    ((m.step numeric event).payload double pid ≠ m.payload double pid → (m.step numeric event).Flagged) ↔
      KeepsUp m event := by
  obtain ⟨now, handler⟩ := event
  cases handler with
  | reloadClients directory => exact iff_of_true (fun _ => Or.inr rfl) trivial
  | tick io =>
    change (_ → (m.tick now io).Flagged) ↔ m.Flagged ∨ Quiet m now io
    by_cases hsamples : ∃ p ∈ m.probers, p.Samples m.socket4 m.socket6 now io
    · obtain ⟨p, hp, h⟩ := hsamples
      exact iff_of_true (fun _ => flagged_tick hp now io h) (Or.inr (Or.inl ⟨p, hp, h⟩))
    · obtain ⟨⟨hclients, hflagged⟩, hshown⟩ := shown_tick (by simpa using hsamples)
      have hpayload := payload_eq_iff double pid hwired hids hclients ⟨rfl, rfl⟩ (mapAccum_length ..)
      rw [hflagged, Quiet, or_iff_right hsamples, ← hshown, ← hpayload]
      change (¬ _ → _) ↔ _
      rw [← or_iff_not_imp_left, or_comm]
      rfl
  | handleReplies io replies =>
    refine iff_of_true (fun hchange => ?_) trivial
    obtain he | hflagged := handleReplies_or m now io replies
    · exact absurd (congrArg (Monitor.payload double · pid) he) hchange
    · exact hflagged
  | handleResolutions results =>
    change (_ → (m.handleResolutions now results).Flagged) ↔ m.Flagged ∨ _ ∨ _
    have hflagged : (m.handleResolutions now results).Flagged ↔
        m.Flagged ∨ ¬ (resolving now).Admits Silent m results := by
      unfold Board.Flagged
      rw [stateDirty_handleResolutions, (kept_handleResolutions m now results).1, or_assoc]
    by_cases hsilent : (resolving now).Admits Silent m results
    · have hsockets : (m.handleResolutions now results).socket4 = m.socket4 ∧
          (m.handleResolutions now results).socket6 = m.socket6 := by
        have hbare : (m.handleResolutions now results).bare = m.bare := Monitor.bare_handleResolutions ..
        have h4 := congrArg Monitor.socket4 hbare
        have h6 := congrArg Monitor.socket6 hbare
        exact ⟨h4, h6⟩
      have hpayload := payload_eq_iff double pid hwired hids (m.clients_handleResolutions now results)
        hsockets (kept_handleResolutions m now results).2
      rw [hflagged, or_iff_left (not_not.mpr hsilent), or_iff_right (not_not.mpr hsilent),
        ← (shown_handleResolutions results hsilent).2, ← hpayload]
      change (¬ _ → _) ↔ _
      rw [← or_iff_not_imp_left, or_comm]
      rfl
    · exact iff_of_true (fun _ => hflagged.mpr (Or.inr hsilent)) (Or.inr (Or.inl hsilent))
  | dropExpiredClients after realNow mtime =>
    refine iff_of_true (fun hchange => absurd ?_ hchange) trivial
    unfold Monitor.step Monitor.dropExpiredClients
    dsimp only
    split_ifs <;> rfl
  | noteIdle after =>
    refine iff_of_true (fun hchange => absurd ?_ hchange) trivial
    unfold Monitor.step Monitor.noteIdle
    dsimp only
    split_ifs <;> rfl
  | publish force =>
    refine iff_of_true (fun hchange => absurd ?_ hchange) trivial
    unfold Monitor.step Monitor.publish
    dsimp only
    split_ifs <;> rfl
  | flag configChanged shutdown => exact iff_of_true (fun hchange => absurd rfl hchange) trivial
  | enter => exact iff_of_true (fun hchange => absurd rfl hchange) trivial

/-- The payload of the last publication, with all writes succeeding. -/
def published (last : Option Json) (m : Monitor) (event : Event) : Option Json :=
  match event.handler with
  | .publish force => if force || m.publishDue event.now then some (m.payload double pid) else last
  | _ => last

/-- Flags go down in a publication only. -/
theorem flagged_step (numeric : Bytes → Option Endpoint) {m : Monitor} (h : m.Flagged) {event : Event}
    (hevent : ∀ force, event.handler ≠ .publish force) : (m.step numeric event).Flagged := by
  obtain ⟨now, handler⟩ := event
  cases handler with
  | reloadClients directory => exact Or.inr rfl
  | tick io =>
    exact mapAccum_keeps Board.Flagged m.probers (fun b p _ hb =>
      (flagged_boardRule p.subscribers).tickProber m.socket4 m.socket6 io now hb) h
  | handleReplies io replies =>
    obtain he | hflagged := handleReplies_or m now io replies
    · change (m.handleReplies now io replies).Flagged
      rwa [he]
    · exact hflagged
  | handleResolutions results =>
    change (m.handleResolutions now results).Flagged
    unfold Board.Flagged
    rw [stateDirty_handleResolutions, (kept_handleResolutions m now results).1]
    exact h.imp_right Or.inl
  | dropExpiredClients after realNow mtime =>
    change (m.dropExpiredClients after realNow mtime).toBoard.Flagged
    rwa [(Monitor.quiet_dropExpiredClients ..).1]
  | noteIdle after =>
    change (m.noteIdle after).toBoard.Flagged
    rwa [(Monitor.quiet_noteIdle ..).1]
  | publish force => exact absurd rfl (hevent force)
  | flag configChanged shutdown => exact h
  | enter => exact h

/-- In every reachable state a step that changes what the widget reads leaves a flag set exactly
if it keeps up; and along every run that keeps up, with no flag set what was published last is
what there is to read. -/
theorem changes_scheduled_iff (numeric : Bytes → Option Endpoint) (options : Options)
    (socket4 socket6 : IcmpSocket) (cookie startedRealUs : ℕ) (events : List Event) :
    let initial : Monitor := .initial options socket4 socket6 cookie startedRealUs
    let m := (handlers numeric).run initial events
    (∀ event, ((m.step numeric event).payload double pid ≠ m.payload double pid →
      (m.step numeric event).Flagged) ↔ KeepsUp m event) ∧
    ((handlers numeric).Admits KeepsUp initial events → ¬ m.Flagged →
      (((handlers numeric).observe (published double pid)).run (initial, none) events).2 =
        some (m.payload double pid)) := by
  intro initial m
  have hwired := Monitor.wellWired_run numeric options socket4 socket6 cookie startedRealUs
  have hids := nodup_ids_run numeric options socket4 socket6 cookie startedRealUs
  refine ⟨scheduled_iff double pid numeric (hwired events) (hids events), fun hadmits => ?_⟩
  have hrun := Machine.run_invariant (M := (handlers numeric).observe (published double pid))
    (fun s => s.1.WellWired ∧ (s.1.clients.map Client.id).Nodup ∧
      (¬ s.1.Flagged → s.2 = some (s.1.payload double pid))) (fun s event => KeepsUp s.1 event) ?_
    (s := (initial, none)) ⟨hwired [], hids [], fun h => absurd (Or.inl rfl) h⟩
    ((Machine.observe_admits _ _ _ _ _).mpr hadmits)
  · rw [Machine.observe_run_fst] at hrun
    exact hrun.2.2
  · rintro ⟨m, last⟩ event ⟨hw, hi, hlast⟩ hkeeps
    refine ⟨Monitor.wellWired_step numeric hw event, nodup_ids_step numeric hi event, fun hclear => ?_⟩
    obtain ⟨now, handler⟩ := event
    by_cases hpublish : ∃ force, handler = .publish force
    · obtain ⟨force, rfl⟩ := hpublish
      change (if force || m.publishDue now then some (m.payload double pid) else last) =
        some ((m.publish now force).payload double pid)
      change ¬ (m.publish now force).Flagged at hclear
      unfold Monitor.publish at hclear ⊢
      cases force <;> cases hdue : m.publishDue now <;> simp only [hdue] at hclear ⊢
      · exact hlast hclear
      · rfl
      · rfl
      · rfl
    · have hsame : (m.step numeric ⟨now, handler⟩).payload double pid = m.payload double pid := by
        by_contra hchange
        exact hclear ((scheduled_iff double pid numeric hw hi ⟨now, handler⟩).mpr hkeeps hchange)
      have hbefore : ¬ m.Flagged := fun h =>
        hclear (flagged_step numeric h fun force he => hpublish ⟨force, he⟩)
      change published double pid last m ⟨now, handler⟩ = some ((m.step numeric ⟨now, handler⟩).payload double pid)
      rw [hsame, ← hlast hbefore]
      unfold published
      split
      · next force he => exact absurd ⟨force, he⟩ hpublish
      · rfl

end Step

/-- A name whose lookup fails once and then finds the address it had: the error that was shown is
cleared, and no flag is raised until the next sample, an hour later. -/
theorem change_unscheduled :
    let directory : Directory := ⟨[⟨ascii "w.json", some (.object [(ascii "interval_ms", .number 3600000),
      (ascii "destinations", .array [.object [(ascii "address", .string (ascii "router"))]])])⟩], by decide⟩
    let router : Endpoint := ⟨.inet, ⟨.inet, [192, 0, 2, 1]⟩, 16, ascii "192.0.2.1"⟩
    let io : Io := ⟨fun _ => .sent, fun _ => 0⟩
    let events : List Event :=
      [⟨1000, .reloadClients directory⟩, ⟨1000, .tick io⟩, ⟨2000, .handleResolutions [⟨1, true, router, []⟩]⟩,
        ⟨2000, .publish false⟩, ⟨300002000, .tick io⟩,
        ⟨300003000, .handleResolutions [⟨1, false, .empty, ascii "Temporary failure"⟩]⟩,
        ⟨300003000, .publish false⟩, ⟨305003000, .tick io⟩]
    let m := (handlers fun _ => none).run
      (.initial ⟨[], 1000000, 0, 0, 50, by decide, by decide⟩ ⟨true, false, []⟩ ⟨true, false, []⟩ 5 0) events
    let after := m.handleResolutions 305004000 [⟨1, true, router, []⟩]
    m.probers.map Prober.shown = [(ascii "192.0.2.1", ascii "DNS: Temporary failure")] ∧
      after.probers.map Prober.shown = [(ascii "192.0.2.1", [])] ∧
      after.payload id 1 ≠ m.payload id 1 ∧ ¬ after.Flagged := by
  intro directory router io events m after
  have hwired : m.WellWired := Monitor.wellWired_run (fun _ => none)
    ⟨[], 1000000, 0, 0, 50, by decide, by decide⟩ ⟨true, false, []⟩ ⟨true, false, []⟩ 5 0 events
  have hids := nodup_ids_run (fun _ => none) ⟨[], 1000000, 0, 0, 50, by decide, by decide⟩
    ⟨true, false, []⟩ ⟨true, false, []⟩ 5 0 events
  have hbefore : m.probers.map Prober.shown = [(ascii "192.0.2.1", ascii "DNS: Temporary failure")] := by
    decide +kernel
  have hafter : after.probers.map Prober.shown = [(ascii "192.0.2.1", [])] := by decide +kernel
  refine ⟨hbefore, hafter, fun h => ?_, by decide +kernel⟩
  have hsame := (payload_eq_iff id 1 hwired hids (m.clients_handleResolutions ..) (by decide +kernel)
    (kept_handleResolutions ..).2).mp h
  rw [hbefore, hafter] at hsame
  exact absurd hsame (by decide)

end NetworkHealth.Daemon
