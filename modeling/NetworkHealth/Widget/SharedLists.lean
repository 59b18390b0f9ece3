import NetworkHealth.Widget.Canonical
import NetworkHealth.Widget.Configured

/-! The lists of destinations of any number of widgets. Each is configured to a text of its own, of which
the store sees the canonical spelling; what it adopts becomes the text. -/
namespace NetworkHealth.Widget
variable (collate : CodeUnits → CodeUnits → Ordering)

/-- `sharedStore`. -/
def destinationsOwner : Owner CodeUnits CodeUnits where
  emptyJson := units "[]"
  take json _ := json
  spell text held := (canonicalDestinations collate (destinationList text)).getD held

/-- One widget alone. -/
def Plasmoid.alone (p : Plasmoid) : Instances Unit CodeUnits CodeUnits :=
  ⟨p.file, fun _ => p.destinations, fun _ => p.store, p.inFlight⟩

/-- What one widget does is what it does among others. -/
theorem Plasmoid.alone_sync (now : ℕ) (p : Plasmoid) :
    (p.sync collate now).alone = p.alone.sync (destinationsOwner collate) () now := by
  have hupdate : ∀ {α : Type} (f : Unit → α) (v : α), Function.update f () v = fun _ => v := by
    intro α f v
    funext x
    exact Function.update_self x v f
  unfold Instances.sync
  dsimp only
  rw [hupdate, hupdate]
  rfl

/-- A list whose entries are of their types. -/
structure ProperList (text : CodeUnits) : Prop where
  wellTyped : ∀ entry ∈ destinationList text, WellTyped entry
  length : (destinationList text).length ≤ rowLimit

variable {collate}

theorem Normalised.Finite.wellTyped_toValue {d : Normalised} (h : d.Finite) : WellTyped d.toValue := by
  obtain ⟨id, name, address, order, thresholdUs, sensitivity, enabled, partTime⟩ := d
  obtain ⟨⟨x, rfl⟩, ⟨y, rfl⟩, ⟨z, rfl⟩⟩ := h
  constructor
  case shape => exact Or.inr ⟨_, rfl⟩
  case texts =>
    simp only [List.forall_mem_cons, List.not_mem_nil, false_imp_iff, implies_true, and_true]
    cases partTime <;>
      exact ⟨fun value hvalue => ⟨id, (Option.some.inj hvalue).symm⟩,
        fun value hvalue => ⟨name, (Option.some.inj hvalue).symm⟩,
        fun value hvalue => ⟨address, (Option.some.inj hvalue).symm⟩⟩
  case numbers =>
    simp only [List.forall_mem_cons, List.not_mem_nil, false_imp_iff, implies_true, and_true]
    cases partTime <;>
      exact ⟨fun value hvalue => ⟨x, (Option.some.inj hvalue).symm⟩,
        fun value hvalue => ⟨y, (Option.some.inj hvalue).symm⟩,
        fun value hvalue => ⟨z, (Option.some.inj hvalue).symm⟩⟩
  case flags =>
    simp only [List.forall_mem_cons, List.not_mem_nil, false_imp_iff, implies_true, and_true]
    cases partTime
    · exact ⟨fun value hvalue => ⟨enabled, (Option.some.inj hvalue).symm⟩, fun value hvalue => by cases hvalue⟩
    · exact ⟨fun value hvalue => ⟨enabled, (Option.some.inj hvalue).symm⟩,
        fun value hvalue => ⟨true, (Option.some.inj hvalue).symm⟩⟩

/-- Such a list has a canonical spelling, which is such a list again and its own canonical spelling. -/
theorem ProperList.exists_spelling (collate : CodeUnits → CodeUnits → Ordering) [Std.TransCmp collate]
    {text : CodeUnits} (h : ProperList text) :
    ∃ spelled, canonicalDestinations collate (destinationList text) = some spelled ∧ ProperList spelled ∧
      canonicalDestinations collate (destinationList spelled) = some spelled := by
  obtain ⟨ds, hds, hfinite⟩ := exists_normalised h.wellTyped h.length
  have hspelled : canonicalDestinations collate (destinationList text) = some (JsonValue.array
      ((ds.insertionSort (Normalised.notAfter collate)).map Normalised.toValue)).stringify := by
    rw [canonicalDestinations, hds, Option.map_some]
  refine ⟨_, hspelled, ⟨?_, ?_⟩, canonicalDestinations_of_sorted hfinite rfl⟩
  · intro entry hentry
    rw [destinationList_stringify, List.map_map] at hentry
    obtain ⟨d, hd, rfl⟩ := List.mem_map.mp hentry
    have hd' := hfinite d ((List.mem_insertionSort _).mp hd)
    rw [Function.comp_apply, hd'.plain_toValue]
    exact hd'.wellTyped_toValue
  · rw [length_of_canonicalDestinations collate hspelled]
    exact h.length

theorem canonical_destinationsOwner [Std.TransCmp collate] : (destinationsOwner collate).Canonical ProperList where
  held text h held held' := by
    obtain ⟨spelled, hspelled, -⟩ := h.exists_spelling collate
    simp only [destinationsOwner, hspelled, Option.getD_some]
  take text _ held h _ := by
    obtain ⟨spelled, hspelled, hproper, -⟩ := h.exists_spelling collate
    simpa only [destinationsOwner, hspelled, Option.getD_some] using hproper
  spell_take text _ held held' h _ := by
    obtain ⟨spelled, hspelled, -, hsame⟩ := h.exists_spelling collate
    simp only [destinationsOwner, hspelled, hsame, Option.getD_some]

/-- Any number of widgets that share their lists: whatever happens, their stores share the canonical spellings
as they are; and once nobody changes a list any more, four rounds bring every list to the shared
spelling, after which nothing happens any more. -/
theorem destinations_shared {ι : Type*} [DecidableEq ι] [Std.TransCmp collate] {n : Instances ι CodeUnits CodeUnits}
    (hn : (destinationsOwner collate).Bound ProperList n) {as : List (Action ι CodeUnits)}
    (has : ∀ a ∈ as, a.Proper ProperList) :
    let m := (instances (destinationsOwner collate)).run n as
    m.net = (sharing (.verbatim (units "[]"))).run n.net (as.map (Action.spelled (destinationsOwner collate))) ∧
      (∀ w, canonicalDestinations collate (destinationList (m.configurations w)) = some (m.stores w).localJson) ∧
      ∀ (now : ℕ) (rounds : List (List (ι × ℕ))), n.net.Fresh → (∀ a ∈ as, a.clock ≤ now) → Resting m.net →
        Schedule now rounds → 4 ≤ rounds.length →
        let m' := (instances (destinationsOwner collate)).run m (scheduleActions rounds)
        (∀ w, canonicalDestinations collate (destinationList (m'.configurations w)) = some m'.file.json) ∧
          ∀ w t, m'.step (destinationsOwner collate) (.sync w t) = m' := by
  intro m
  have hspells : ∀ {text json : CodeUnits}, ProperList text →
      (∀ held, (destinationsOwner collate).spell text held = json) →
      canonicalDestinations collate (destinationList text) = some json := by
    intro text json htext hjson
    obtain ⟨spelled, hspelled, -⟩ := htext.exists_spelling collate
    have hsame := hjson []
    simp only [destinationsOwner, hspelled, Option.getD_some] at hsame
    rw [hspelled, hsame]
  obtain ⟨hbound, hnet⟩ := hn.run canonical_destinationsOwner has
  refine ⟨hnet, fun w => hspells (hbound.proper w) fun held => (hbound.json w held).symm,
    fun now rounds hfresh hclock hresting hrounds hlen => ?_⟩
  obtain ⟨hlast, hspelled, hquiet⟩ := hn.converges canonical_destinationsOwner hfresh has hclock hresting hrounds hlen
  exact ⟨fun w => hspells (hlast.proper w) (hspelled w), hquiet⟩

/-- Two widgets, one with a list of one entry that says nothing but its address and one with the empty list. -/
theorem destinations_shared_run :
    let entry : Value := .object [(units "address", .string (units "h"))]
    let own : Bool → CodeUnits := fun w => (JsonValue.array (if w then [entry] else [])).stringify
    let n : Instances Bool CodeUnits CodeUnits := ⟨⟨0, units "[]"⟩, own,
      fun w => ⟨true, true, (destinationsOwner compare).spell (own w) [], 0, 0, 0, units "[]"⟩, []⟩
    let rounds := [[(false, 0), (true, 0)], [(true, 5001), (false, 5002)], [(true, 11000), (false, 11000)],
      [(false, 17000), (true, 17000)]]
    let m := (instances (destinationsOwner compare)).run n (scheduleActions rounds)
    ∀ w, canonicalDestinations compare (destinationList (m.configurations w)) = some m.file.json := by
  intro entry own n rounds m
  have hfield : ∀ key ∈ ["id", "name", "order", "thresholdUs", "sensitivity", "enabled", "partTime"],
      entry.field (units key) = none := by
    intro key hkey
    simp only [List.mem_cons, List.not_mem_nil, or_false] at hkey
    rcases hkey with rfl | rfl | rfl | rfl | rfl | rfl | rfl <;> rfl
  have haddress : entry.field (units "address") = some (.string (units "h")) := rfl
  have hentry : WellTyped entry := by
    refine ⟨Or.inr ⟨_, rfl⟩, ?_, ?_, ?_⟩ <;> simp [hfield, haddress]
  have hown : ∀ w, ProperList (own w) := by
    intro w
    have hlist : destinationList (own w) = if w then [entry] else [] := by
      cases w <;> exact destinationList_stringify _
    refine ⟨fun e he => ?_, ?_⟩
    · rw [hlist] at he
      split_ifs at he
      · rwa [List.mem_singleton.mp he]
      · cases he
    · rw [hlist]
      cases w <;> decide
  have hbound : (destinationsOwner compare).Bound ProperList n :=
    ⟨hown, fun w held => canonical_destinationsOwner.held (own w) (hown w) [] held, fun h => absurd rfl h,
      by simp [n]⟩
  have hnone : ∀ a ∈ ([] : List (Action Bool CodeUnits)), a.Proper ProperList := by simp
  obtain ⟨-, -, hconverges⟩ := destinations_shared hbound hnone
  rw [Machine.run_nil] at hconverges
  have hfresh : n.net.Fresh := ⟨fun _ => rfl, fun _ => rfl, rfl⟩
  have hresting : Resting n.net := ⟨rfl, fun _ => rfl, fun _ => rfl⟩
  have hrounds : Schedule 0 rounds := ⟨by decide, by decide, by decide, by decide⟩
  exact (hconverges 0 rounds hfresh (by simp) hresting hrounds (by decide)).1

end NetworkHealth.Widget
