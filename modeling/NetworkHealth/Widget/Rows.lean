import NetworkHealth.Widget.Backend

/-! The rows of the model and the destinations they show. What a row takes from its destination
only a new configuration changes; what it shows of the daemon changes with every poll. -/
namespace NetworkHealth.Widget
variable (localeCompare : String → String → Ordering)

/-- The part of a row that is configured. -/
def Row.entry (row : Row) : Destination :=
  ⟨row.destinationId, row.name, row.address, row.order, row.thresholdUs, row.sensitivity, row.enabled, row.partTime⟩

@[simp] theorem Row.entry_apply (row : Row) (live : Option Live) : (row.apply live).entry = row.entry := by
  cases live <;> rfl

namespace Backend

/-- The destinations that get a row, in the order of the rows. -/
def listedDestinations (b : Backend) : List Destination :=
  (b.destinations.insertionSort fun x y => rowOrder localeCompare x y = true).filter (·.enabled)

/-- The rows come from the destinations. -/
def RowsListed (b : Backend) : Prop := b.model.map Row.entry = b.listedDestinations localeCompare

instance (b : Backend) : Decidable (b.RowsListed localeCompare) := inferInstanceAs (Decidable (_ = _))

/-- What `RowsListed` is about. -/
def listing (b : Backend) : List Destination × List Destination := (b.model.map Row.entry, b.destinations)

theorem rowsListed_congr {b b' : Backend} (h : b'.listing = b.listing) :
    b'.RowsListed localeCompare ↔ b.RowsListed localeCompare := by
  obtain ⟨hmodel, hdestinations⟩ := Prod.mk.inj h
  unfold RowsListed listedDestinations
  rw [hmodel, hdestinations]

@[simp] theorem listing_writeConfig (b : Backend) (now : ℤ) : (b.writeConfig now).listing = b.listing := by
  unfold writeConfig
  split <;> rfl

@[simp] theorem listing_launchDaemon (b : Backend) (now : ℤ) : (b.launchDaemon now).listing = b.listing := by
  unfold launchDaemon
  split <;> rfl

theorem listing_clearLiveState (b : Backend) (message : String) :
    (b.clearLiveState message).listing = b.listing := by
  refine congrArg (·, b.destinations) ?_
  change (b.model.map fun row => _).map Row.entry = _
  rw [List.map_map]
  rfl

theorem listing_applyDocument (b : Backend) (now : ℤ) (document : Document) :
    (b.applyDocument now document).listing = b.listing := by
  unfold applyDocument
  dsimp only
  split
  · rw [listing_clearLiveState]
    split
    · exact listing_writeConfig _ now
    · rfl
  · next client _ =>
    have hrows : (b.model.map fun row => row.apply (byId client row.destinationId)).map Row.entry =
        b.model.map Row.entry := by
      rw [List.map_map]
      exact List.map_congr_left fun row _ => row.entry_apply _
    split
    · rw [listing_writeConfig]
      exact congrArg (·, b.destinations) hrows
    · exact congrArg (·, b.destinations) hrows

theorem listing_onPollFailed (b : Backend) (now : ℤ) : (b.onPollFailed now).listing = b.listing := by
  unfold onPollFailed
  split
  · rfl
  · unfold reportDead
    dsimp only
    split
    · exact listing_clearLiveState _ ""
    · exact (listing_launchDaemon _ now).trans (listing_clearLiveState _ "")

theorem listing_poll (b : Backend) (now : ℤ) (file : StateFile) : (b.poll now file).listing = b.listing := by
  unfold poll
  split
  · rfl
  · split
    · exact listing_onPollFailed b now
    · split_ifs
      · exact listing_onPollFailed b now
      · dsimp only
        split_ifs
        · exact listing_onPollFailed _ now
        · rfl
      · split
        · exact listing_onPollFailed b now
        · exact listing_onPollFailed b now
        · exact listing_applyDocument _ now _

theorem rowsListed_rebuildModel (b : Backend) : (b.rebuildModel localeCompare).RowsListed localeCompare := by
  change ((b.listedDestinations localeCompare).map (rowOf b.model)).map Row.entry = b.listedDestinations localeCompare
  rw [List.map_map]
  exact List.map_id _

theorem rowsListed_step {b : Backend} (h : b.RowsListed localeCompare) (input : Input) :
    (b.step localeCompare input).RowsListed localeCompare := by
  cases input with
  | completed now file =>
    rw [step, completed, rowsListed_congr _ (listing_poll ..), rowsListed_congr _ (listing_writeConfig ..)]
    exact rowsListed_rebuildModel localeCompare b
  | poll now file =>
    rw [step, rowsListed_congr _ (listing_poll ..)]
    exact h
  | heartbeat now =>
    rw [step, rowsListed_congr _ (listing_writeConfig ..)]
    exact h
  | configure now config =>
    rw [step, configure]
    dsimp only
    split_ifs with hsame hwrite
    · have hdestinations : config.destinations = b.destinations := congrArg DaemonConfig.destinations hsame
      unfold RowsListed listedDestinations
      dsimp only
      rw [hdestinations]
      exact h
    · rw [rowsListed_congr _ (listing_writeConfig ..)]
      exact rowsListed_rebuildModel localeCompare _
    · exact rowsListed_rebuildModel localeCompare _
  | restartDaemon => exact h

/-- Whatever happens to the object, its rows come from its destinations. -/
theorem rowsListed_run (inputs : List Input) :
    ((backend localeCompare).run initial inputs).RowsListed localeCompare :=
  Machine.run_keeps (fun b : Backend => b.RowsListed localeCompare)
    (fun _ input h => rowsListed_step localeCompare h input) (s := initial) rfl inputs

theorem perm_listedDestinations (b : Backend) :
    (b.listedDestinations localeCompare).Perm (b.destinations.filter (·.enabled)) :=
  (List.perm_insertionSort _ b.destinations).filter _

end Backend
end NetworkHealth.Widget
