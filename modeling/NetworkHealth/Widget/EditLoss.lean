import NetworkHealth.Widget.Sharing

/-! A single writer and its own edits. An edit made while an earlier write of the same
widget is unconfirmed is taken for another widget's win and thrown away when that write
comes back. Edits made between confirmations are never lost, however long the writes take
and however often they are repeated. -/
namespace NetworkHealth.Widget
variable {P : Type*} [DecidableEq P]

/-- One widget whose writes land in the order in which they were issued, none lost. -/
def InOrder : Action Unit P → Prop
  | .edit _ _ => True
  | .sync _ _ => True
  | .land i => i = 0
  | _ => False

def NoEdit : Action Unit P → Prop
  | .edit _ _ => False
  | a => InOrder a

/-- The widget with the value of its last local edit on record. -/
def recorded (k : Setting P) : Machine (Net Unit P × P) (Action Unit P) :=
  (sharing k).observe fun last _ a => match a with
    | .edit _ json => json
    | _ => last

/-- Nothing in flight, nothing pending, and a sync would change nothing. -/
def Quiet (k : Setting P) (n : Net Unit P) : Prop :=
  n.inFlight = [] ∧ (n.stores ()).pendingRevision = 0 ∧ ∀ now, n.step k (.sync () now) = n

/-- No write of the widget is unconfirmed: nothing is pending, the widget holds the file's
revision, and what is still in flight only repeats the file. -/
def Confirmed (n : Net Unit P) : Prop :=
  (n.stores ()).pendingRevision = 0 ∧ (n.stores ()).syncedRevision = n.file.revision ∧
    ∀ write ∈ n.inFlight, write = n.file

/-- An edit that changes nothing, or one made while no write is unconfirmed and outside the
exception for an empty list held since start-up. -/
def EditKept (k : Setting P) (n : Net Unit P) (json : P) : Prop :=
  json = (n.stores ()).localJson ∨ Confirmed n ∧ (n.file.revision = 0 ∨
    ((n.stores ()).edit json).wouldWipeSharedList k n.file = false)

/-- In-order actions all of whose edits are kept. -/
def EditsKept (k : Setting P) (x : Net Unit P × P) : Action Unit P → Prop
  | .edit _ json => EditKept k x.1 json
  | a => InOrder a

theorem NoEdit.editsKept {k : Setting P} {x : Net Unit P × P} {a : Action Unit P} (h : NoEdit a) :
    EditsKept k x a := by
  cases a <;> first | exact h | exact h.elim

theorem recorded_last {k : Setting P} (x : Net Unit P × P) {json : P} {bs : List (Action Unit P)}
    (h : ∀ b ∈ bs, NoEdit b) : ((recorded k).run x (.edit () json :: bs)).2 = json := by
  rw [Machine.run_cons]
  refine Machine.run_invariant (fun y : Net Unit P × P => y.2 = json) (fun _ b => NoEdit b) ?_ rfl
    (Machine.admits_of_forall (fun b hb _ => h b hb) _)
  rintro y b hy hb
  cases b <;> first | exact hy | exact hb.elim

/-- Where a widget stands with its own writes: before any write of the present value has
landed, with repetitions of the file's value ahead of it in flight, or after. -/
inductive Tracked (k : Setting P) (file : Shared P) (s : Store P) (inFlight : List (Shared P)) : Prop
  | before (stale fresh : List (Shared P)) (hflight : inFlight = stale ++ fresh)
      (hstale : ∀ write ∈ stale, write = file)
      (hfresh : ∀ write ∈ fresh, write = ⟨s.syncedRevision + 1, s.localJson⟩)
      (hsynced : s.syncedRevision = file.revision)
      (hpend : s.pendingRevision = 0 ∨ s.pendingRevision = s.syncedRevision + 1 ∧ fresh ≠ [])
      (hedit : s.localJson = file.json ∧ fresh = [] ∨ s.localJson ≠ file.json ∧
        (file.revision = 0 ∨ s.wouldWipeSharedList k file = false))
  | landed (hfile : file = ⟨s.syncedRevision + 1, s.localJson⟩)
      (hflight : ∀ write ∈ inFlight, write = file)
      (hpend : s.pendingRevision = 0 ∨ s.pendingRevision = s.syncedRevision + 1)

/-- A running widget that holds its last edit. -/
structure Holding (k : Setting P) (x : Net Unit P × P) : Prop where
  active : (x.1.stores ()).active = true
  ready : (x.1.stores ()).ready = true
  last : (x.1.stores ()).localJson = x.2
  tracked : Tracked k x.1.file (x.1.stores ()) x.1.inFlight

variable {k : Setting P} {n : Net Unit P}

theorem Tracked.land (h : Tracked k n.file (n.stores ()) n.inFlight) :
    Tracked k (n.land 0).file (n.stores ()) (n.land 0).inFlight := by
  cases hn : n.inFlight with
  | nil =>
    have hland : n.land 0 = n := by simp [Net.land, hn]
    rw [hland]
    exact h
  | cons write rest =>
    have hland : n.land 0 = ⟨write, n.stores, rest⟩ := by simp [Net.land, hn]
    rw [hland]
    rw [hn] at h
    cases h with
    | before stale fresh hflight hstale hfresh hsynced hpend hedit =>
      match stale, hflight with
      | y :: stale, hflight =>
        obtain ⟨rfl, rfl⟩ := List.cons.inj hflight
        obtain rfl := hstale write (by simp)
        exact .before stale fresh rfl (fun y hy => hstale y (by simp [hy])) hfresh hsynced hpend hedit
      | [], hflight =>
        rw [List.nil_append] at hflight
        subst hflight
        have hnew := hfresh write (by simp)
        exact .landed hnew (fun y hy => (hfresh y (by simp [hy])).trans hnew.symm)
          (hpend.imp_right And.left)
    | landed hfile hflight hpend =>
      obtain rfl := hflight write (by simp)
      exact .landed hfile (fun y hy => hflight y (by simp [hy])) hpend

/-- A sync of a tracked widget never gives up the widget's own value. -/
theorem Tracked.sync {file : Shared P} {s : Store P} {inFlight : List (Shared P)}
    (h : Tracked k file s inFlight) (hactive : s.active = true) (hready : s.ready = true)
    (now : ℕ) :
    Tracked k file (s.sync k now file).1 (inFlight ++ (s.sync k now file).2.toList) ∧
      (s.sync k now file).1.localJson = s.localJson := by
  have hknows := s.decision_knows k now file
  unfold Store.sync
  cases h with
  | before stale fresh hflight hstale hfresh hsynced hpend hedit =>
    cases hd : s.decision k now file <;> rw [hd] at hknows
    case inactive => simp [Store.Knows, hactive, hready] at hknows
    case confirmed => simp only [Store.Knows] at hknows; omega
    case superseded => simp only [Store.Knows] at hknows; omega
    case expired =>
      exact ⟨.before stale fresh (by simpa using hflight) hstale hfresh hsynced (Or.inl rfl) hedit, rfl⟩
    case waiting =>
      exact ⟨.before stale fresh (by simpa using hflight) hstale hfresh hsynced hpend hedit, rfl⟩
    case agreed =>
      have hnone : fresh = [] := hedit.elim And.right fun hne => absurd hknows.2.symm hne.1
      subst hnone
      exact ⟨.before stale [] (by simpa using hflight) hstale (by simp) rfl (Or.inl hknows.1)
        (Or.inl ⟨hknows.2.symm, rfl⟩), rfl⟩
    case publish r =>
      obtain ⟨-, hjson, rfl, hguard⟩ := hknows
      refine ⟨.before stale (fresh ++ [⟨file.revision + 1, s.localJson⟩]) (by simp [hflight, Store.publish])
        hstale ?_ hsynced (Or.inr ⟨by simp [Store.publish, hsynced], by simp⟩)
        (Or.inr ⟨hjson.symm, hguard.imp_right And.right⟩), rfl⟩
      intro write hwrite
      rcases List.mem_append.mp hwrite with hold | hnew
      · exact hfresh write hold
      · rw [List.mem_singleton.mp hnew, ← hsynced]; rfl
    case adopt =>
      obtain ⟨-, hjson, hrev, hwipe⟩ := hknows
      rcases hedit with ⟨he, -⟩ | ⟨-, h0 | hguard⟩
      · exact absurd he.symm hjson
      · exact absurd h0 hrev
      · exact absurd (hguard.symm.trans (hwipe hsynced)) (by decide)
  | landed hfile hflight hpend =>
    have hjson : file.json = s.localJson := by rw [hfile]
    have hrev : file.revision = s.syncedRevision + 1 := by rw [hfile]
    cases hd : s.decision k now file <;> rw [hd] at hknows
    case inactive => simp [Store.Knows, hactive, hready] at hknows
    case confirmed =>
      exact ⟨.before inFlight [] (by simp) hflight (by simp) rfl (Or.inl rfl)
        (Or.inl ⟨hjson.symm, rfl⟩), rfl⟩
    case superseded => exact absurd hjson hknows.2.2
    case expired => simp only [Store.Knows] at hknows; omega
    case waiting => simp only [Store.Knows] at hknows; omega
    case agreed =>
      exact ⟨.before inFlight [] (by simp) hflight (by simp) rfl (Or.inl hknows.1)
        (Or.inl ⟨hjson.symm, rfl⟩), rfl⟩
    case publish r => exact absurd hjson hknows.2.1
    case adopt => exact absurd hjson hknows.2.1

theorem Holding.step {k : Setting P} {x : Net Unit P × P} {a : Action Unit P} (h : Holding k x)
    (ha : EditsKept k x a) : Holding k ((recorded k).step x a) := by
  obtain ⟨n, last⟩ := x
  obtain ⟨hactive, hready, hlast, htracked⟩ := h
  cases a with
  | edit w json =>
    refine ⟨by simpa [recorded, Machine.observe, Net.step, Store.edit] using hactive,
      by simpa [recorded, Machine.observe, Net.step, Store.edit] using hready, by
        simp [recorded, Machine.observe, Net.step, Store.edit], ?_⟩
    suffices hedit : Tracked k n.file ((n.stores ()).edit json) n.inFlight by
      simpa [recorded, Machine.observe, Net.step] using hedit
    rcases ha with rfl | ⟨⟨hpend, hsynced, hflight⟩, hguard⟩
    · exact htracked
    · refine .before n.inFlight [] (by simp) hflight (by simp) hsynced (Or.inl hpend) ?_
      by_cases he : json = n.file.json
      · exact Or.inl ⟨he, rfl⟩
      · exact Or.inr ⟨he, hguard⟩
  | sync w now =>
    obtain ⟨hnext, hjson⟩ := htracked.sync hactive hready now
    exact ⟨by simpa [recorded, Machine.observe, Net.step] using hactive,
      by simpa [recorded, Machine.observe, Net.step] using hready,
      by simpa [recorded, Machine.observe, Net.step, hjson] using hlast,
      by simpa [recorded, Machine.observe, Net.step] using hnext⟩
  | land i =>
    obtain rfl : i = 0 := ha
    exact ⟨by simpa [recorded, Machine.observe, Net.step] using hactive,
      by simpa [recorded, Machine.observe, Net.step] using hready,
      by simpa [recorded, Machine.observe, Net.step] using hlast,
      by simpa [recorded, Machine.observe, Net.step] using htracked.land⟩
  | lose i => exact ha.elim
  | load w => exact ha.elim
  | share w on => exact ha.elim
  | keep w => exact ha.elim

theorem Holding.run {x : Net Unit P × P} {as : List (Action Unit P)} (h : Holding k x)
    (has : (recorded k).Admits (EditsKept k) x as) : Holding k ((recorded k).run x as) :=
  Machine.run_invariant (Holding k) (EditsKept k) (fun _ _ => Holding.step) h has

theorem InStep.holding (k : Setting P) (h : InStep n) : Holding k (n, n.file.json) :=
  ⟨h.active (), h.ready (), h.json (), .before [] [] (by simpa using h.inFlight) (by simp) (by simp)
    (h.synced ()) (Or.inl (h.pending ())) (Or.inl ⟨h.json (), rfl⟩)⟩

/-- A quiet widget that holds its last edit has it in the file. -/
theorem Holding.shared {x : Net Unit P × P} (h : Holding k x) (hquiet : Quiet k x.1) :
    (x.1.stores ()).localJson = x.2 ∧ x.1.file.json = x.2 := by
  obtain ⟨hflight, hpend, hstill⟩ := hquiet
  refine ⟨h.last, ?_⟩
  rw [← h.last]
  cases h.tracked with
  | landed hfile => rw [hfile]
  | before stale fresh happ hstale hfresh hsynced _ hedit =>
    rcases hedit with ⟨he, -⟩ | ⟨hne, hguard⟩
    · exact he.symm
    · have hwrite : ((x.1.stores ()).sync k 0 x.1.file).2 = none := by
        have hsame := congrArg Net.inFlight (hstill 0)
        simpa [Net.step] using hsame
      have hknows := (x.1.stores ()).decision_knows k 0 x.1.file
      rw [Store.sync_write_eq_none] at hwrite
      cases hd : (x.1.stores ()).decision k 0 x.1.file <;> rw [hd] at hknows hwrite
      case inactive => simp [Store.Knows, h.active, h.ready] at hknows
      case publish => exact absurd hwrite (by simp [Decision.isPublish])
      case agreed => exact hknows.2
      case adopt =>
        rcases hguard with h0 | hguard
        · exact absurd h0 hknows.2.2.1
        · exact absurd (hguard.symm.trans (hknows.2.2.2 hsynced)) (by decide)
      all_goals exact absurd hpend hknows.1

/-- Landing repetitions of the file's value takes them out of flight and changes nothing else. -/
theorem run_landings (k : Setting P) (n : Net Unit P) (stale rest : List (Shared P))
    (hflight : n.inFlight = stale ++ rest) (h : ∀ write ∈ stale, write = n.file) :
    (sharing k).run n (List.replicate stale.length (.land 0)) = { n with inFlight := rest } := by
  obtain ⟨file, stores, inFlight⟩ := n
  obtain rfl : inFlight = stale ++ rest := hflight
  induction stale with
  | nil => rfl
  | cons write stale ih =>
    obtain rfl : write = file := h write (by simp)
    exact ih fun y hy => h y (by simp [hy])

/-- A settled widget whose flight only repeats the file comes to rest as it is. -/
theorem quiet_of_settled (k : Setting P) (hactive : (n.stores ()).active = true)
    (hready : (n.stores ()).ready = true) (hsettled : Settled n.file (n.stores ())) :
    Quiet k { n with inFlight := [] } :=
  ⟨rfl, hsettled.pending, fun now =>
    Net.sync_eq_self (hsettled.sync k now hactive hready)⟩

/-- A widget that edits while its last value is in the file unconfirmed takes that value back. -/
theorem takesShared_of_landed {e : P} {s : Store P} {file : Shared P} (json : P)
    (hactive : s.active = true) (hready : s.ready = true)
    (hfile : file = ⟨s.syncedRevision + 1, s.localJson⟩)
    (hpend : s.pendingRevision = 0 ∨ s.pendingRevision = s.syncedRevision + 1) :
    ((s.edit json).decision (.verbatim e) 0 file).takesShared = true := by
  have hknows := (s.edit json).decision_knows (.verbatim e) 0 file
  have hrev : file.revision = s.syncedRevision + 1 := by rw [hfile]
  cases hd : (s.edit json).decision (.verbatim e) 0 file <;> rw [hd] at hknows <;>
    simp only [Store.Knows, Store.edit] at hknows
  case inactive => simp [hactive, hready] at hknows
  case publish => omega
  case expired => omega
  case waiting => omega
  all_goals rfl

/-- One sync that takes the file's payload, then every landing ahead, brings the widget to rest
with that payload. -/
theorem rest_of_takesShared {e : P} {n : Net Unit P} (hactive : (n.stores ()).active = true)
    (hready : (n.stores ()).ready = true) (hflight : ∀ write ∈ n.inFlight, write = n.file)
    (htakes : ((n.stores ()).decision (.verbatim e) 0 n.file).takesShared = true) :
    ∃ bs, (∀ b ∈ bs, NoEdit b) ∧ Quiet (.verbatim e) ((sharing (.verbatim e)).run n bs) ∧
      (((sharing (.verbatim e)).run n bs).stores ()).localJson = n.file.json := by
  have hsettled := settled_of_takesShared htakes
  have hnone := (Store.sync_of_takesShared htakes).2.2
  have hrun : (sharing (.verbatim e)).run n
        (.sync () 0 :: List.replicate n.inFlight.length (.land 0)) =
      { n.sync (.verbatim e) () 0 with inFlight := [] } :=
    run_landings _ _ n.inFlight [] (by simp [Net.step, hnone]) hflight
  refine ⟨.sync () 0 :: List.replicate n.inFlight.length (.land 0), ?_, ?_, ?_⟩
  · simp [NoEdit, InOrder, List.mem_replicate]
  · rw [hrun]
    exact quiet_of_settled _ (by simpa using hactive) (by simpa using hready)
      (by simpa using hsettled)
  · rw [hrun]
    simpa using hsettled.json

/-- Emptying a list held since start-up, in step with a file that is not empty, takes the
file's list back. -/
theorem takesShared_of_wipe {e json : P} {s : Store P} {file : Shared P}
    (hactive : s.active = true) (hready : s.ready = true) (hpend : s.pendingRevision = 0)
    (hrev : file.revision ≠ 0)
    (hguard : (s.edit json).wouldWipeSharedList (.verbatim e) file = true) :
    ((s.edit json).decision (.verbatim e) 0 file).takesShared = true := by
  have hknows := (s.edit json).decision_knows (.verbatim e) 0 file
  cases hd : (s.edit json).decision (.verbatim e) 0 file <;> rw [hd] at hknows
  case inactive =>
    simp only [Store.Knows, Store.edit] at hknows
    simp [hactive, hready] at hknows
  case publish =>
    rcases hknows.2.2.2 with h0 | ⟨-, hfree⟩
    · exact absurd h0 hrev
    · exact absurd (hfree.symm.trans hguard) (by decide)
  case expired => exact absurd hpend hknows.1
  case waiting => exact absurd hpend hknows.1
  all_goals rfl

/-- An edit that is not kept can come to rest with another value in its place. -/
theorem edit_lost {e json : P} {n : Net Unit P} {last : P} (h : Holding (.verbatim e) (n, last))
    (hlost : ¬ EditKept (.verbatim e) n json) :
    ∃ bs, (∀ b ∈ bs, NoEdit b) ∧
      Quiet (.verbatim e) ((sharing (.verbatim e)).run (n.modify () (·.edit json)) bs) ∧
      (((sharing (.verbatim e)).run (n.modify () (·.edit json)) bs).stores ()).localJson ≠ json := by
  obtain ⟨hactive, hready, -, htracked⟩ := h
  simp only [EditKept, not_or, not_and, Bool.not_eq_false] at hlost
  obtain ⟨hjson, hlost⟩ := hlost
  set n' := n.modify () (·.edit json) with hn'
  have hstore : n'.stores () = (n.stores ()).edit json := Net.modify_stores_self _ _ _
  -- Landings alone leave the store as the edit left it.
  suffices hland : ∃ cs m, (∀ c ∈ cs, NoEdit c) ∧ (sharing (.verbatim e)).run n' cs = m ∧
      m.stores = n'.stores ∧ (∀ write ∈ m.inFlight, write = m.file) ∧ m.file.json ≠ json ∧
      (((n.stores ()).edit json).decision (.verbatim e) 0 m.file).takesShared = true by
    obtain ⟨cs, m, hcs, hrun, hstores, hflight, hne, htakes⟩ := hland
    have hm : m.stores () = (n.stores ()).edit json := by rw [hstores, hstore]
    obtain ⟨bs, hbs, hquiet, hlocal⟩ := rest_of_takesShared (e := e) (n := m)
      (by rw [hm]; exact hactive) (by rw [hm]; exact hready) hflight (by rw [hm]; exact htakes)
    refine ⟨cs ++ bs, ?_, ?_⟩
    · intro b hb
      exact (List.mem_append.mp hb).elim (hcs b) (hbs b)
    · rw [Machine.run_append, hrun]
      exact ⟨hquiet, hlocal.trans_ne hne⟩
  cases htracked with
  | landed hfile hflight hpend =>
    refine ⟨[], n', by simp, rfl, rfl, hflight, ?_,
      takesShared_of_landed json hactive hready hfile hpend⟩
    change n.file.json ≠ json
    rw [hfile]
    exact Ne.symm hjson
  | before stale fresh hflight hstale hfresh hsynced hpend hedit =>
    cases fresh with
    | nil =>
      have hpend0 : (n.stores ()).pendingRevision = 0 := by simpa using hpend
      rw [List.append_nil] at hflight
      obtain ⟨hrev, hguard⟩ := hlost ⟨hpend0, hsynced, by rw [hflight]; exact hstale⟩
      obtain ⟨hempty, hfull, -⟩ := Store.wouldWipeSharedList_eq_true.mp hguard
      exact ⟨[], n', by simp, rfl, rfl, by rw [hn', Net.modify_inFlight, hflight]; exact hstale,
        fun he => hfull (he.trans hempty), takesShared_of_wipe hactive hready hpend0 hrev hguard⟩
    | cons write rest =>
      -- The value before the edit lands first, while the widget still waits for it.
      have hwrite := hfresh write (by simp)
      refine ⟨List.replicate stale.length (.land 0) ++ [.land 0], ⟨write, n'.stores, rest⟩, ?_, ?_, rfl,
        fun y hy => (hfresh y (by simp [hy])).trans hwrite.symm, ?_,
        takesShared_of_landed json hactive hready hwrite (hpend.imp_right And.left)⟩
      · simp [NoEdit, InOrder, List.mem_replicate, or_imp, forall_and]
      · rw [Machine.run_append, run_landings _ n' stale (write :: rest) hflight hstale]
        rfl
      · rw [hwrite]
        exact Ne.symm hjson

/-- While only kept edits are made, a widget at rest shares its last edit. Of a widget that takes
payloads exactly as spelled, the kept edits are all the edits that survive every continuation. -/
theorem single_writer_keeps_edits (k : Setting P) {n : Net Unit P} (as : List (Action Unit P))
    (hn : InStep n) (has : (recorded k).Admits (EditsKept k) (n, n.file.json) as) :
    let x := (recorded k).run (n, n.file.json) as
    (Quiet k x.1 → (x.1.stores ()).localJson = x.2 ∧ x.1.file.json = x.2) ∧
    ∀ e, k = .verbatim e → ∀ json,
      (∀ bs, (∀ b ∈ bs, NoEdit b) →
        let m := (sharing k).run x.1 (.edit () json :: bs)
        Quiet k m → (m.stores ()).localJson = json ∧ m.file.json = json) ↔ EditKept k x.1 json := by
  intro x
  have hx : Holding k x := (hn.holding k).run has
  refine ⟨hx.shared, ?_⟩
  rintro e rfl json
  constructor
  · intro hkept
    by_contra hlost
    obtain ⟨bs, hbs, hquiet, hne⟩ := edit_lost hx hlost
    exact hne (hkept bs hbs hquiet).1
  · intro hkept bs hbs m hquiet
    have hafter : Holding (.verbatim e) ((recorded (.verbatim e)).run x (.edit () json :: bs)) :=
      hx.run ⟨hkept, Machine.admits_of_forall (fun b hb y => (hbs b hb).editsKept) _⟩
    have hm : ((recorded (.verbatim e)).run x (.edit () json :: bs)).1 = m :=
      Machine.observe_run_fst ..
    have hlast : ((recorded (.verbatim e)).run x (.edit () json :: bs)).2 = json :=
      recorded_last _ hbs
    have hshared := hafter.shared (hm ▸ hquiet)
    rwa [hm, hlast] at hshared

/-- One edit, published, landed and confirmed. -/
theorem single_writer_keeps_edits_run :
    let n : Net Unit String := ⟨⟨3, "[]"⟩, fun _ => ⟨true, true, "[]", 3, 0, 0, "[]"⟩, []⟩
    let x := (recorded (.verbatim "[]")).run (n, n.file.json)
      [.edit () "[a]", .sync () 0, .land 0, .sync () 2000]
    Quiet (.verbatim "[]") x.1 ∧ x.2 = "[a]" ∧ (x.1.stores ()).localJson = x.2 ∧ x.1.file.json = x.2 := by
  intro n x
  have hsettled : Settled x.1.file (x.1.stores ()) := ⟨by decide, by decide, by decide, by decide⟩
  have hquiet : Quiet (.verbatim "[]") x.1 :=
    ⟨by decide, by decide, fun now => Net.sync_eq_self (hsettled.sync _ now (by decide) (by decide))⟩
  refine ⟨hquiet, by decide, ?_⟩
  exact (single_writer_keeps_edits (.verbatim "[]") [.edit () "[a]", .sync () 0, .land 0, .sync () 2000]
    ⟨fun _ => rfl, fun _ => rfl, fun _ => rfl, fun _ => rfl, fun _ => rfl, rfl⟩
    ⟨Or.inr ⟨⟨rfl, rfl, by simp [n]⟩, Or.inr (by decide)⟩, trivial, rfl, trivial, trivial⟩).1 hquiet

/-- The second edit is made while the write of the first is in flight, and the first comes
back over it as though another widget had won. -/
theorem single_writer_loses_edit :
    let n : Net Unit String := ⟨⟨3, "[]"⟩, fun _ => ⟨true, true, "[]", 3, 0, 0, "[]"⟩, []⟩
    let as : List (Action Unit String) :=
      [.edit () "[a]", .sync () 0, .edit () "[a,b]", .land 0, .sync () 2000]
    let x := (recorded (.verbatim "[]")).run (n, n.file.json) as
    InStep n ∧ (∀ a ∈ as, InOrder a) ∧ Quiet (.verbatim "[]") x.1 ∧
      x.2 = "[a,b]" ∧ (x.1.stores ()).localJson = "[a]" ∧ x.1.file.json = "[a]" := by
  intro n as x
  have hsettled : Settled x.1.file (x.1.stores ()) := ⟨by decide, by decide, by decide, by decide⟩
  refine ⟨⟨fun _ => rfl, fun _ => rfl, fun _ => rfl, fun _ => rfl, fun _ => rfl, rfl⟩, ?_,
    ⟨by decide, by decide, fun now => Net.sync_eq_self (hsettled.sync _ now (by decide) (by decide))⟩,
    by decide, by decide, by decide⟩
  simp [as, InOrder]

end NetworkHealth.Widget
