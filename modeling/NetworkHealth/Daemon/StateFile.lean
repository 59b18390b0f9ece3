import NetworkHealth.Daemon.Published

/-! What becomes of a change when `state.ini` cannot be written. A write replaces the file as a
whole or leaves it as it was; `publish` looks at the outcome only to log it. -/
namespace NetworkHealth.Daemon

/-- The event writes `state.ini`. -/
def Monitor.writesState (m : Monitor) (event : Event) : Bool :=
  match event.handler with
  | .publish force => force || m.publishDue event.now
  | _ => false

/-- The file, and whether something has changed since it was last written. -/
structure StateFile where
  contents : Option Json
  owed : Bool

section StateFile
variable (double : ℚ → ℚ) (pid : ℕ) (numeric : Bytes → Option Endpoint)

/-- One event, and whether the write succeeds if it is one. -/
def StateFile.see (f : StateFile) (m : Monitor) (p : Event × Bool) : StateFile :=
  if m.writesState p.1 then
    if p.2 then ⟨some (m.payload double pid), false⟩ else f
  else { f with owed := f.owed || decide (m.step numeric p.1).Flagged }

/-- The handlers in any order, and the file. -/
def stateFile : Machine (Monitor × StateFile) (Event × Bool) :=
  (⟨fun m p => m.step numeric p.1⟩ : Machine Monitor (Event × Bool)).observe (StateFile.see double pid numeric)

/-- A change that has not reached the file is scheduled to: a flag is set, the loop wakes up for the
next slot, and a publication then that can be written has the change in it. -/
def Scheduled (s : Monitor × StateFile) : Prop :=
  s.2.owed = true → s.1.Flagged ∧ s.1.nextDeadline ≤ s.1.lastPublishUs + s.1.publishIntervalUs ∧
    ∀ now, s.1.lastPublishUs + s.1.publishIntervalUs ≤ now →
      ((stateFile double pid numeric).step s (⟨now, .publish false⟩, true)).2 = ⟨some (s.1.payload double pid), false⟩

/-- Not a write that fails while a flag is set. -/
def Spares (s : Monitor × StateFile) (p : Event × Bool) : Prop :=
  s.1.writesState p.1 = true → s.1.Flagged → p.2 = true

variable {double pid numeric} {m : Monitor} {s : Monitor × StateFile}

theorem nextDeadline_le_of_flagged (h : m.Flagged) : m.nextDeadline ≤ m.lastPublishUs + m.publishIntervalUs := by
  have hdirty : (m.dataDirty || m.stateDirty) = true := by simpa [Board.Flagged] using h
  unfold Monitor.nextDeadline
  simp only [hdirty, if_true]
  split_ifs <;> omega

theorem publishDue_of_flagged (h : m.Flagged) {now : ℕ} (hnow : m.lastPublishUs + m.publishIntervalUs ≤ now) :
    m.publishDue now = true := by
  have hslot : m.publishIntervalUs ≤ now - m.lastPublishUs := by omega
  rcases h with hdata | hstate
  · simp [Monitor.publishDue, hdata, hslot]
  · simp [Monitor.publishDue, hstate]

/-- What is flagged is scheduled. -/
theorem scheduled_iff_flagged : Scheduled double pid numeric s ↔ (s.2.owed = true → s.1.Flagged) := by
  refine ⟨fun h howed => (h howed).1, fun h howed =>
    ⟨h howed, nextDeadline_le_of_flagged (h howed), fun now hnow => ?_⟩⟩
  have hwrites : s.1.writesState ⟨now, .publish false⟩ = true := publishDue_of_flagged (h howed) hnow
  change StateFile.see double pid numeric s.2 s.1 (⟨now, .publish false⟩, true) = _
  rw [StateFile.see, if_pos hwrites, if_pos rfl]

/-- A publication clears both flags whatever comes of it. -/
theorem not_flagged_of_writesState {event : Event} (h : m.writesState event = true) :
    ¬ (m.step numeric event).Flagged := by
  obtain ⟨now, handler⟩ := event
  cases handler <;> simp only [Monitor.writesState, Bool.false_eq_true] at h
  case publish force =>
    have hwrites : (!force && !m.publishDue now) = false := by
      rw [← Bool.not_or, h]
      rfl
    change ¬ (m.publish now force).Flagged
    simp [Monitor.publish, hwrites, Board.Flagged]

theorem flagged_of_not_writesState {event : Event} (h : m.writesState event = false) (hflagged : m.Flagged) :
    (m.step numeric event).Flagged := by
  by_cases hpublish : ∃ force, event.handler = .publish force
  · obtain ⟨force, hforce⟩ := hpublish
    simp only [Monitor.writesState, hforce, Bool.or_eq_false_iff] at h
    have hsame : m.step numeric event = m := by
      simp [Monitor.step, hforce, Monitor.publish, h]
    rwa [hsame]
  · exact flagged_step numeric hflagged fun force hforce => hpublish ⟨force, hforce⟩

/-- Nothing is flagged that has not changed since the file was written. -/
def FlaggedIsOwed (s : Monitor × StateFile) : Prop := s.1.Flagged → s.2.owed = true

theorem flaggedIsOwed_step (s : Monitor × StateFile) (p : Event × Bool) :
    FlaggedIsOwed ((stateFile double pid numeric).step s p) := by
  intro hflagged
  change (StateFile.see double pid numeric s.2 s.1 p).owed = true
  have hwrites : ¬ s.1.writesState p.1 = true := fun hwrites => not_flagged_of_writesState hwrites hflagged
  rw [StateFile.see, if_neg hwrites]
  exact Bool.or_eq_true_iff.mpr (Or.inr (decide_eq_true hflagged))

/-- A step loses a change exactly if it is a write that fails while a flag is set. -/
theorem scheduled_step_iff (h : FlaggedIsOwed s) (hscheduled : Scheduled double pid numeric s) (p : Event × Bool) :
    Scheduled double pid numeric ((stateFile double pid numeric).step s p) ↔ Spares s p := by
  rw [scheduled_iff_flagged] at hscheduled ⊢
  change ((StateFile.see double pid numeric s.2 s.1 p).owed = true → (s.1.step numeric p.1).Flagged) ↔ _
  cases hwrites : s.1.writesState p.1 with
  | false =>
    refine iff_of_true (fun howed => ?_) (by simp [Spares, hwrites])
    simp only [StateFile.see, hwrites, Bool.false_eq_true, if_false, Bool.or_eq_true, decide_eq_true_eq] at howed
    exact howed.elim (fun hold => flagged_of_not_writesState hwrites (hscheduled hold)) id
  | true =>
    have hcleared : ¬ (s.1.step numeric p.1).Flagged := not_flagged_of_writesState hwrites
    simp only [StateFile.see, hwrites, if_true, hcleared, imp_false, Spares, true_implies]
    cases hok : p.2 with
    | true => simp
    | false =>
      simp only [Bool.false_eq_true, if_false, imp_false]
      exact ⟨fun hnot hflagged => hnot (h hflagged), fun hnot howed => hnot (hscheduled howed)⟩

/-- Along a run, every change that has not reached `state.ini` is scheduled to exactly if no write
of it fails while a flag is set. -/
theorem failed_write_keeps_change_iff (double : ℚ → ℚ) (pid : ℕ) (numeric : Bytes → Option Endpoint)
    (options : Options) (socket4 socket6 : IcmpSocket) (cookie startedRealUs : ℕ) (steps : List (Event × Bool)) :
    let initial : Monitor × StateFile := (.initial options socket4 socket6 cookie startedRealUs, ⟨none, true⟩)
    (∀ taken, taken <+: steps → Scheduled double pid numeric ((stateFile double pid numeric).run initial taken)) ↔
      (stateFile double pid numeric).Admits Spares initial steps := by
  intro initial
  have hflagged : initial.1.Flagged := Or.inl rfl
  exact Machine.forall_prefix_iff_admits FlaggedIsOwed (fun s p _ => flaggedIsOwed_step s p)
    (fun s p h hscheduled => scheduled_step_iff h hscheduled p) (fun _ => rfl)
    (scheduled_iff_flagged.mpr fun _ => hflagged) steps

/-- The first file is written; the directory of the clients is read again, which raises a flag; and
the write that follows fails. The change is forgotten, and nothing is left to wake up for. -/
theorem failed_write_forgets_change :
    let options : Options := ⟨[], 250000, 0, 0, 128, by decide, by decide⟩
    let initial : Monitor := .initial options ⟨true, false, []⟩ ⟨true, false, []⟩ 7 0
    let run := (stateFile id 1 fun _ => none).run (initial, ⟨none, true⟩)
    let first : List (Event × Bool) :=
      [(⟨1000, .publish true⟩, true), (⟨2000, .reloadClients ⟨[], List.nodup_nil⟩⟩, true)]
    let failed := first ++ [(⟨3000, .publish false⟩, false)]
    (run first).1.stateDirty = true ∧ ¬ (run failed).1.Flagged ∧ (run failed).2.owed = true ∧
      (run failed).1.nextDeadline = kNeverUs := by
  decide +kernel

end StateFile

end NetworkHealth.Daemon
