import NetworkHealth.Widget.Convergence
import NetworkHealth.Widget.Plasmoid

/-! Widgets with their configurations. A store is handed the spelling of what its widget is configured
to, and what it adopts becomes the configuration; among widgets whose configurations are canonical this
is sharing of the spellings themselves. -/
namespace NetworkHealth.Widget
variable {ι κ P : Type*}

/-- What a widget binds to its store. -/
structure Owner (κ P : Type*) where
  emptyJson : P
  /-- `onAdopt`. -/
  take : P → κ → κ
  /-- The binding of `localJson`, which keeps what it holds where it throws. -/
  spell : κ → P → P

/-- Any number of widgets, each with its configuration. -/
structure Instances (ι κ P : Type*) where
  file : Shared P
  configurations : ι → κ
  stores : ι → Store P
  inFlight : List (Shared P)

/-- The stores alone. -/
def Instances.net (n : Instances ι κ P) : Net ι P := ⟨n.file, n.stores, n.inFlight⟩

namespace Owner
variable (o : Owner κ P)

/-- The store's setting in a widget so configured, whose store now holds `held`. -/
def setting (configuration : κ) (held : P) : Setting P where
  emptyJson := o.emptyJson
  adopted json := o.spell (o.take json configuration) held

/-- What the store does is to be seen from the configurations: one that may be held is spelled alike by
every widget that takes it. -/
structure Canonical (Proper : κ → Prop) : Prop where
  held : ∀ c, Proper c → ∀ held held', o.spell c held = o.spell c held'
  take : ∀ c c' held, Proper c → Proper c' → Proper (o.take (o.spell c held) c')
  spell_take : ∀ c c' held held', Proper c → Proper c' → o.spell (o.take (o.spell c held) c') held' = o.spell c held

/-- A spelling of what may be held. -/
def Spelled (Proper : κ → Prop) (json : P) : Prop := ∃ c held, Proper c ∧ json = o.spell c held

/-- The stores hold what the widgets are configured to, and what is shared comes from a widget. -/
structure Bound (Proper : κ → Prop) (n : Instances ι κ P) : Prop where
  proper : ∀ w, Proper (n.configurations w)
  json : ∀ w held, (n.stores w).localJson = o.spell (n.configurations w) held
  file : n.file.revision ≠ 0 → o.Spelled Proper n.file.json
  inFlight : ∀ write ∈ n.inFlight, o.Spelled Proper write.json

end Owner

namespace Instances
variable (o : Owner κ P) (n : Instances ι κ P)

/-- A step of the stores alone. -/
def within (m : Net ι P) : Instances ι κ P := ⟨m.file, n.configurations, m.stores, m.inFlight⟩

variable [DecidableEq ι]

/-- The user changes the configuration of a widget. -/
def edit (w : ι) (configuration : κ) : Instances ι κ P :=
  { n with
    configurations := Function.update n.configurations w configuration
    stores := Function.update n.stores w
      ((n.stores w).edit (o.spell configuration (n.stores w).localJson)) }

variable [DecidableEq P]

def sync (w : ι) (now : ℕ) : Instances ι κ P :=
  let s := n.stores w
  let k := o.setting (n.configurations w) s.localJson
  let next := s.sync k now n.file
  { file := n.file
    configurations := Function.update n.configurations w
      (if (s.decision k now n.file).adopts then o.take n.file.json (n.configurations w) else n.configurations w)
    stores := Function.update n.stores w next.1
    inFlight := n.inFlight ++ next.2.toList }

def step : Action ι κ → Instances ι κ P
  | .edit w configuration => n.edit o w configuration
  | .sync w now => n.sync o w now
  | .land i => n.within (n.net.land i)
  | .lose i => { n with inFlight := n.inFlight.eraseIdx i }
  | .load w => n.within (n.net.modify w (·.load))
  | .share w on => n.within (n.net.modify w (·.share on))
  | .keep w => n.within (n.net.modify w (·.keep n.file))

end Instances

/-- What an edit is to the stores. -/
def Action.spelled (o : Owner κ P) : Action ι κ → Action ι P
  | .edit w configuration => .edit w (o.spell configuration o.emptyJson)
  | .sync w now => .sync w now
  | .land i => .land i
  | .lose i => .lose i
  | .load w => .load w
  | .share w on => .share w on
  | .keep w => .keep w

/-- Only proper configurations are ever chosen. -/
def Action.Proper (Proper : κ → Prop) : Action ι κ → Prop
  | .edit _ configuration => Proper configuration
  | _ => True

/-- The widgets with their configurations as a machine. -/
def instances [DecidableEq ι] [DecidableEq P] (o : Owner κ P) : Machine (Instances ι κ P) (Action ι κ) :=
  ⟨fun n a => n.step o a⟩

section Refinement
variable [DecidableEq P] {o : Owner κ P} {Proper : κ → Prop}

/-- A sync asks for the adopted spelling only where it adopts. -/
theorem Store.sync_congr {k k' : Setting P} {now : ℕ} {shared : Shared P} {s : Store P}
    (hempty : k.emptyJson = k'.emptyJson)
    (hadopted : (s.decision k now shared).adopts = true → k.adopted shared.json = k'.adopted shared.json) :
    s.decision k now shared = s.decision k' now shared ∧ s.sync k now shared = s.sync k' now shared := by
  have hdecision : s.decision k now shared = s.decision k' now shared := by
    unfold decision wouldWipeSharedList
    rw [hempty]
  refine ⟨hdecision, ?_⟩
  unfold sync
  rw [← hdecision]
  cases hd : s.decision k now shared <;> rw [hd] at hadopted
  case superseded => rw [hadopted rfl]
  case adopt => rw [hadopted rfl]

/-- What is adopted has been published. -/
theorem Store.revision_of_adopts {k : Setting P} {now : ℕ} {shared : Shared P} {s : Store P}
    (h : (s.decision k now shared).adopts = true) : shared.revision ≠ 0 := by
  have hknows := s.decision_knows k now shared
  cases hd : s.decision k now shared <;> rw [hd] at h hknows <;> simp [Decision.adopts] at h
  case superseded =>
    obtain ⟨hpending, hle, -⟩ := hknows
    omega
  case adopt => exact hknows.2.2.1

variable [DecidableEq ι] {n : Instances ι κ P}

namespace Owner

omit [DecidableEq ι] in
/-- Where the configurations are canonical, an adopting widget holds what it has adopted. -/
theorem Bound.adopted (h : o.Bound Proper n) (hcanonical : o.Canonical Proper) {w : ι} {now : ℕ} {k : Setting P}
    (hadopts : ((n.stores w).decision k now n.file).adopts = true) :
    Proper (o.take n.file.json (n.configurations w)) ∧
      ∀ held, o.spell (o.take n.file.json (n.configurations w)) held = n.file.json := by
  obtain ⟨c, held, hc, hjson⟩ := h.file (Store.revision_of_adopts hadopts)
  rw [hjson]
  exact ⟨hcanonical.take c _ held hc (h.proper w), fun held' => hcanonical.spell_take c _ held held' hc (h.proper w)⟩

theorem Bound.sync (h : o.Bound Proper n) (hcanonical : o.Canonical Proper) (w : ι) (now : ℕ) :
    o.Bound Proper (n.sync o w now) ∧
      (n.sync o w now).net = n.net.sync (.verbatim o.emptyJson) w now := by
  let k := o.setting (n.configurations w) (n.stores w).localJson
  have hadopted : ∀ k : Setting P, ((n.stores w).decision k now n.file).adopts = true →
      Proper (o.take n.file.json (n.configurations w)) ∧
        ∀ held, o.spell (o.take n.file.json (n.configurations w)) held = n.file.json :=
    fun k hadopts => h.adopted hcanonical hadopts
  obtain ⟨hdecision, hsync⟩ : (n.stores w).decision k now n.file =
      (n.stores w).decision (.verbatim o.emptyJson) now n.file ∧
        (n.stores w).sync k now n.file = (n.stores w).sync (.verbatim o.emptyJson) now n.file :=
    Store.sync_congr rfl fun hadopts => (hadopted k hadopts).2 _
  have hjson := Store.sync_localJson (.verbatim o.emptyJson) now n.file (n.stores w)
  constructor
  · unfold Instances.sync
    dsimp only
    rw [hsync, hdecision]
    refine ⟨fun v => ?_, fun v held => ?_, h.file, fun write hwrite => ?_⟩
    · dsimp only
      rcases eq_or_ne v w with rfl | hv
      · rw [Function.update_self]
        split_ifs with hadopts
        · exact (hadopted _ hadopts).1
        · exact h.proper v
      · rw [Function.update_of_ne hv]
        exact h.proper v
    · dsimp only
      rcases eq_or_ne v w with rfl | hv
      · rw [Function.update_self, Function.update_self, hjson]
        split_ifs with hadopts
        · exact ((hadopted _ hadopts).2 held).symm
        · exact h.json v held
      · rw [Function.update_of_ne hv, Function.update_of_ne hv]
        exact h.json v held
    · obtain hwrite | hwrite := List.mem_append.mp hwrite
      · exact h.inFlight write hwrite
      · rw [Store.write_revision (Option.mem_toList.mp hwrite)]
        exact ⟨n.configurations w, _, h.proper w, h.json w (n.stores w).localJson⟩
  · unfold Instances.sync Instances.net Net.sync
    dsimp only
    rw [hsync]

omit [DecidableEq ι] [DecidableEq P] in
/-- What lands comes from a widget. -/
theorem Bound.land (h : o.Bound Proper n) (i : ℕ) : o.Bound Proper (n.within (n.net.land i)) := by
  unfold Net.land
  cases hwrite : n.net.inFlight[i]? with
  | none => exact h
  | some write =>
    exact ⟨h.proper, h.json, fun _ => h.inFlight write (List.mem_of_getElem? hwrite),
      fun other hother => h.inFlight other (List.mem_of_mem_eraseIdx hother)⟩

omit [DecidableEq P] in
/-- Steps that leave what a store holds as it is. -/
theorem Bound.modify (h : o.Bound Proper n) (w : ι) {f : Store P → Store P}
    (hf : (f (n.stores w)).localJson = (n.stores w).localJson) : o.Bound Proper (n.within (n.net.modify w f)) := by
  refine ⟨h.proper, fun v held => ?_, h.file, h.inFlight⟩
  rcases eq_or_ne v w with rfl | hv
  · change ((n.net.modify v f).stores v).localJson = _
    rw [Net.modify_stores_self]
    exact hf.trans (h.json v held)
  · change ((n.net.modify w f).stores v).localJson = _
    rw [Net.modify_stores_of_ne _ _ hv]
    exact h.json v held

omit [DecidableEq P] in
theorem Bound.edit (h : o.Bound Proper n) (hcanonical : o.Canonical Proper) (w : ι) {c : κ} (hc : Proper c) :
    o.Bound Proper (n.edit o w c) := by
  refine ⟨fun v => ?_, fun v held => ?_, h.file, h.inFlight⟩
  · change Proper (Function.update n.configurations w c v)
    rcases eq_or_ne v w with rfl | hv
    · rwa [Function.update_self]
    · rw [Function.update_of_ne hv]
      exact h.proper v
  · unfold Instances.edit
    dsimp only
    rcases eq_or_ne v w with rfl | hv
    · rw [Function.update_self, Function.update_self]
      exact hcanonical.held c hc _ held
    · rw [Function.update_of_ne hv, Function.update_of_ne hv]
      exact h.json v held

/-- A step of the widgets is a step of their stores, on spellings taken as they are. -/
theorem Bound.step (h : o.Bound Proper n) (hcanonical : o.Canonical Proper) {a : Action ι κ} (ha : a.Proper Proper) :
    o.Bound Proper (n.step o a) ∧ (n.step o a).net = n.net.step (.verbatim o.emptyJson) (a.spelled o) := by
  cases a with
  | edit w c =>
    refine ⟨h.edit hcanonical w ha, ?_⟩
    change _ = n.net.step _ (.edit w (o.spell c o.emptyJson))
    rw [hcanonical.held c ha o.emptyJson (n.stores w).localJson]
    rfl
  | sync w now => exact h.sync hcanonical w now
  | land i => exact ⟨h.land i, rfl⟩
  | lose i =>
    exact ⟨⟨h.proper, h.json, h.file, fun write hwrite => h.inFlight write (List.mem_of_mem_eraseIdx hwrite)⟩, rfl⟩
  | load w =>
    refine ⟨h.modify w ?_, rfl⟩
    unfold Store.load
    split_ifs <;> rfl
  | share w on => exact ⟨h.modify w rfl, rfl⟩
  | keep w => exact ⟨h.modify w rfl, rfl⟩

/-- Every run of the widgets is a run of their stores, on spellings taken as they are. -/
theorem Bound.run (h : o.Bound Proper n) (hcanonical : o.Canonical Proper) {as : List (Action ι κ)}
    (has : ∀ a ∈ as, a.Proper Proper) : o.Bound Proper ((instances o).run n as) ∧
      ((instances o).run n as).net = (sharing (.verbatim o.emptyJson)).run n.net (as.map (Action.spelled o)) :=
  Machine.run_refines Instances.net (Action.spelled o) (o.Bound Proper) (fun _ a => a.Proper Proper)
    (fun _ _ hn ha => hn.step hcanonical ha) h (Machine.admits_of_forall (fun a ha _ => has a ha) n)

end Owner
end Refinement

section Rounds
variable [DecidableEq ι] [DecidableEq P] {o : Owner κ P} {Proper : κ → Prop} {n : Instances ι κ P} {now : ℕ}

/-- Four rounds settle every store. -/
theorem settled_of_schedule (e : P) {m : Net ι P} (hm : Resting m) (hsince : ∀ w, (m.stores w).pendingSince ≤ now)
    {rounds : List (List (ι × ℕ))} (hrounds : Schedule now rounds) (hlen : 4 ≤ rounds.length) :
    let m' := (sharing (.verbatim e)).run m (scheduleActions rounds)
    Resting m' ∧ ∀ w, Settled m'.file (m'.stores w) := by
  match rounds, hlen with
  | r₁ :: r₂ :: r₃ :: r₄ :: rest, _ =>
    obtain ⟨honce, heveryone, hlater, hapart⟩ := hrounds
    simp only [List.pairwise_cons, List.mem_cons, forall_eq_or_imp] at hapart honce heveryone hlater
    obtain ⟨h₁, h₂, h₃, -⟩ := hapart
    have hfirst : ∀ w, Within r₁ m.file (m.stores w) 4 := fun w turn hturn => (hsince w).trans (hlater.1 turn hturn)
    obtain ⟨hm₁, hw₁⟩ := whole_round_within e r₂ hm honce.1 heveryone.1 h₁.1 hfirst
    obtain ⟨hm₂, hw₂⟩ := whole_round_within e r₃ hm₁ honce.2.1 heveryone.2.1 h₂.1 hw₁
    obtain ⟨hm₃, hw₃⟩ := whole_round_within e r₄ hm₂ honce.2.2.1 heveryone.2.2.1 h₃.1 hw₂
    have hsettled := round_settles e hm₃ fun w => by rw [if_pos (heveryone.2.2.2.1 w)]; exact hw₃ w
    have hm₄ := hm₃.turns (.verbatim e) r₄
    simp only [scheduleActions, List.flatMap_cons, Machine.run_append]
    rw [← scheduleActions, scheduleActions_eq_roundActions, settled_run _ hm₄ hsettled]
    exact ⟨hm₄, hsettled⟩

omit [DecidableEq ι] [DecidableEq P] in
theorem Action.clock_spelled (a : Action ι κ) : (a.spelled o).clock = a.clock := by
  cases a <;> rfl

omit [DecidableEq ι] in
/-- A store that agrees with the file adopts nothing. -/
theorem Settled.adopts {k : Setting P} {file : Shared P} {s : Store P} (h : Settled file s) (t : ℕ) :
    (s.decision k t file).adopts = false := by
  have hknows := s.decision_knows k t file
  cases hd : s.decision k t file <;> rw [hd] at hknows
  case superseded => exact absurd h.json.symm hknows.2.2
  case adopt => exact absurd h.json.symm hknows.2.1
  all_goals rfl

/-- A settled widget does nothing. -/
theorem Instances.step_of_settled {w : ι} (hactive : (n.stores w).active = true) (hready : (n.stores w).ready = true)
    (h : Settled n.file (n.stores w)) (t : ℕ) : n.step o (.sync w t) = n := by
  change n.sync o w t = n
  unfold Instances.sync
  dsimp only
  rw [h.sync _ t hactive hready, h.adopts t, if_neg Bool.false_ne_true, Function.update_eq_self,
    Function.update_eq_self, Option.toList_none, List.append_nil]

/-- Once nobody changes a configuration any more, four rounds bring them all to one spelling. -/
theorem Owner.Bound.converges (h : o.Bound Proper n) (hcanonical : o.Canonical Proper) (hfresh : n.net.Fresh)
    {as : List (Action ι κ)} (has : ∀ a ∈ as, a.Proper Proper) (hclock : ∀ a ∈ as, a.clock ≤ now)
    (hresting : Resting ((instances o).run n as).net) {rounds : List (List (ι × ℕ))} (hrounds : Schedule now rounds)
    (hlen : 4 ≤ rounds.length) :
    let m := (instances o).run ((instances o).run n as) (scheduleActions rounds)
    o.Bound Proper m ∧ (∀ w held, o.spell (m.configurations w) held = m.file.json) ∧
      ∀ w t, m.step o (.sync w t) = m := by
  intro m
  obtain ⟨hbound, hnet⟩ := h.run hcanonical has
  have hquiet : ∀ a ∈ (scheduleActions rounds : List (Action ι κ)), a.Proper Proper := by
    intro a ha
    obtain ⟨round, -, hround⟩ := List.mem_flatMap.mp ha
    obtain ⟨turn, -, hturn⟩ := List.mem_flatMap.mp hround
    simp only [turnActions, List.mem_cons, List.not_mem_nil, or_false] at hturn
    rcases hturn with rfl | rfl <;> trivial
  have hspelled : (scheduleActions rounds : List (Action ι κ)).map (Action.spelled o) = scheduleActions rounds := by
    simp only [scheduleActions, roundActions, List.map_flatMap]
    rfl
  obtain ⟨hlast, hlastNet⟩ := hbound.run hcanonical hquiet
  rw [hspelled] at hlastNet
  have hsince : ∀ w, (((instances o).run n as).net.stores w).pendingSince ≤ now := by
    rw [hnet]
    refine pendingSince_le_clock _ hfresh fun a ha => ?_
    obtain ⟨b, hb, rfl⟩ := List.mem_map.mp ha
    rw [Action.clock_spelled]
    exact hclock b hb
  obtain ⟨hrest, hsettled⟩ := settled_of_schedule o.emptyJson hresting hsince hrounds hlen
  rw [← hlastNet] at hrest hsettled
  refine ⟨hlast, fun w held => (hlast.json w held).symm.trans (hsettled w).json, fun w t => ?_⟩
  exact Instances.step_of_settled (hrest.active w) (hrest.ready w) (hsettled w) t

end Rounds

end NetworkHealth.Widget
