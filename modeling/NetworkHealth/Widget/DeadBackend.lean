import NetworkHealth.Widget.Backend

/-! A daemon that was killed and left its last state file behind. Five stale polls make the
sixth fail, but a failed poll forgets the generation, so the poll after it reads the dead
file once more and starts over: one miss is never followed by a second. -/
namespace NetworkHealth.Widget

/-- The part of the object that decides whether a backend is there. -/
structure Pulse where
  clientId : String
  daemonRunning : Bool
  generation : ℤ
  missedPolls : ℕ
  deriving DecidableEq, Repr

/-- A first miss has forgotten the generation, and so has every backend found dead. -/
structure Pulse.Sound (p : Pulse) : Prop where
  missed : 0 < p.missedPolls → p.generation = -1
  dead : p.daemonRunning = false → p.generation = -1

/-- What `onPollFailed` does to it. -/
def Pulse.failed (p : Pulse) : Pulse :=
  { p with daemonRunning := if 2 ≤ min (p.missedPolls + 1) 1000 then false else p.daemonRunning
           generation := -1
           missedPolls := min (p.missedPolls + 1) 1000 }

theorem Pulse.Sound.failed {p : Pulse} : p.failed.Sound := ⟨fun _ => rfl, fun _ => rfl⟩

/-- A published file with a generation and a payload that parses. -/
structure WellFormed (file : StateFile) (generation : ℤ) (document : Document) : Prop where
  published : file.published = some generation
  nonneg : 0 ≤ generation
  payload : file.payload = .parsed document

/-- The backend is known to be dead and `launchDaemon` has been called. -/
def Noticed (b : Backend) : Prop :=
  b.daemonRunning = false ∧ ∃ started, Command.launchDaemon started ∈ b.log

instance (b : Backend) : Decidable (Noticed b) :=
  decidable_of_iff (b.daemonRunning = false ∧
      (Command.launchDaemon true ∈ b.log ∨ Command.launchDaemon false ∈ b.log)) <| by
    simp [Noticed, or_comm]

/-- Consecutive polls that all read the same file. -/
def polls (file : StateFile) (times : List ℤ) : List Input := times.map (.poll · file)

namespace Backend
variable {localeCompare : String → String → Ordering}

def pulse (b : Backend) : Pulse := ⟨b.clientId, b.daemonRunning, b.generation, b.missedPolls⟩

@[simp] theorem pulse_rebuildModel (b : Backend) :
    (b.rebuildModel localeCompare).pulse = b.pulse := rfl

@[simp] theorem pulse_clearLiveState (b : Backend) (message : String) :
    (b.clearLiveState message).pulse = b.pulse := rfl

@[simp] theorem pulse_writeConfig (b : Backend) (now : ℤ) :
    (b.writeConfig now).pulse = b.pulse := by
  unfold writeConfig; split <;> rfl

@[simp] theorem pulse_launchDaemon (b : Backend) (now : ℤ) :
    (b.launchDaemon now).pulse = b.pulse := by
  unfold launchDaemon; split <;> rfl

theorem pulse_applyDocument (b : Backend) (now : ℤ) (document : Document) :
    (b.applyDocument now document).pulse =
      { b.pulse with generation := (document.generation.map toInt32).getD (-1) } := by
  unfold applyDocument
  dsimp only
  split
  · rw [pulse_clearLiveState]
    split
    · rw [pulse_writeConfig]
      rfl
    · rfl
  · split
    · rw [pulse_writeConfig]
      rfl
    · rfl

@[simp] theorem pulse_reportDead (b : Backend) (now : ℤ) : (b.reportDead now).pulse = b.pulse := by
  unfold reportDead
  dsimp only
  split
  · rfl
  · exact pulse_launchDaemon _ now

theorem pulse_onPollFailed (b : Backend) (now : ℤ) :
    (b.onPollFailed now).pulse = b.pulse.failed := by
  unfold onPollFailed
  split
  · rfl
  · rw [pulse_reportDead]
    rfl

/-- What a poll can do, the file being any. -/
theorem pulse_poll (b : Backend) (now : ℤ) (file : StateFile) :
    (b.poll now file).pulse = b.pulse ∨ (b.poll now file).pulse = b.pulse.failed ∨
      ∃ generation, (b.poll now file).pulse = ⟨b.clientId, true, generation, 0⟩ := by
  unfold poll
  split
  · exact Or.inl rfl
  · split
    · exact Or.inr (Or.inl (pulse_onPollFailed b now))
    · split_ifs
      · exact Or.inr (Or.inl (pulse_onPollFailed b now))
      · dsimp only
        split_ifs
        · exact Or.inr (Or.inl (pulse_onPollFailed _ now))
        · exact Or.inl rfl
      · split
        · exact Or.inr (Or.inl (pulse_onPollFailed b now))
        · exact Or.inr (Or.inl (pulse_onPollFailed b now))
        · exact Or.inr (Or.inr ⟨_, pulse_applyDocument _ now _⟩)

theorem clientId_poll (b : Backend) (now : ℤ) (file : StateFile) :
    (b.poll now file).clientId = b.clientId := by
  change (b.poll now file).pulse.clientId = _
  rcases b.pulse_poll now file with h | h | ⟨generation, h⟩ <;> rw [h] <;> rfl

theorem pulse_configure (b : Backend) (now : ℤ) (config : DaemonConfig) :
    (b.configure localeCompare now config).pulse = { b.pulse with clientId := config.client } := by
  unfold configure
  dsimp only
  split
  · rfl
  · split
    · rw [pulse_writeConfig]
      rfl
    · rfl

theorem sound_poll {b : Backend} (h : b.pulse.Sound) (now : ℤ) (file : StateFile) :
    (b.poll now file).pulse.Sound := by
  rcases b.pulse_poll now file with hp | hp | ⟨generation, hp⟩ <;> rw [hp]
  · exact h
  · exact Pulse.Sound.failed
  · exact ⟨fun h => absurd h (by simp), fun h => absurd h (by simp)⟩

theorem sound_step {b : Backend} (h : b.pulse.Sound) (input : Input) :
    (b.step localeCompare input).pulse.Sound := by
  cases input with
  | completed now file =>
    refine sound_poll ?_ now file
    rwa [pulse_writeConfig, pulse_rebuildModel]
  | poll now file => exact sound_poll h now file
  | heartbeat now => rwa [step, pulse_writeConfig]
  | configure now config =>
    rw [step, pulse_configure]
    exact ⟨h.missed, h.dead⟩
  | restartDaemon => exact h

theorem sound_run (inputs : List Input) :
    ((backend localeCompare).run initial inputs).pulse.Sound :=
  Machine.run_keeps (fun b : Backend => b.pulse.Sound) (fun _ input h => sound_step h input)
    ⟨fun _ => rfl, fun _ => rfl⟩ inputs

/-- Reading a well-formed file, new or stale, never leaves the backend known to be dead: a
stale file fails at most once before its generation is forgotten. -/
theorem running_of_poll {b : Backend} (h : b.pulse.Sound) (hid : b.clientId ≠ "") {file : StateFile}
    {generation : ℤ} {document : Document} (hfile : WellFormed file generation document) (now : ℤ) :
    (b.poll now file).daemonRunning = true := by
  unfold poll
  simp only [hid, if_false, hfile.published, hfile.payload, Int.not_lt.mpr hfile.nonneg]
  by_cases hstale : generation = b.generation
  · have hread : b.pulse.generation ≠ -1 := by
      have hnonneg := hfile.nonneg
      change b.generation ≠ -1
      omega
    have hrunning : b.daemonRunning = true := by
      by_contra hdead
      exact hread (h.dead (by simpa [pulse] using hdead))
    have hmissed : b.missedPolls = 0 := by
      by_contra hmiss
      exact hread (h.missed (Nat.pos_of_ne_zero hmiss))
    rw [if_pos hstale]
    split
    · change (onPollFailed _ now).pulse.daemonRunning = true
      rw [pulse_onPollFailed]
      simp [Pulse.failed, pulse, hmissed, hrunning]
    · exact hrunning
  · rw [if_neg hstale]
    change (applyDocument _ now document).pulse.daemonRunning = true
    rw [pulse_applyDocument]
    rfl

theorem running_of_polls {b : Backend} (h : b.pulse.Sound) (hid : b.clientId ≠ "") {file : StateFile}
    {generation : ℤ} {document : Document} (hfile : WellFormed file generation document)
    (times : List ℤ) (htimes : times ≠ []) :
    ((backend localeCompare).run b (polls file times)).daemonRunning = true := by
  induction times generalizing b with
  | nil => exact absurd rfl htimes
  | cons now times ih =>
    cases times with
    | nil => exact running_of_poll h hid hfile now
    | cons next times =>
      exact ih (sound_poll h now file) ((clientId_poll b now file).trans_ne hid) (by simp)

end Backend

/-- A backend that only ever finds the same well-formed file is never recorded as dead from the
first of these polls on, however many follow. So twenty of them bring no notice of its death
that was not there before the first. -/
theorem dead_backend_noticed_iff (localeCompare : String → String → Ordering) (inputs : List Input)
    {file : StateFile} {generation : ℤ} {document : Document}
    (hid : ((backend localeCompare).run .initial inputs).clientId ≠ "")
    (hfile : WellFormed file generation document) (times : List ℤ) :
    let b := (backend localeCompare).run .initial inputs
    let after := fun k => (backend localeCompare).run b (polls file (times.take k))
    ((∃ k ≤ 20, Noticed (after k)) ↔ Noticed b) ∧
      ∀ k, 1 ≤ k → 1 ≤ times.length → (after k).daemonRunning = true := by
  intro b after
  have hrunning : ∀ k, times.take k ≠ [] → (after k).daemonRunning = true := fun k hk =>
    Backend.running_of_polls (Backend.sound_run inputs) hid hfile _ hk
  refine ⟨⟨?_, fun h => ⟨0, by simp, h⟩⟩, fun k hk hlen => hrunning k ?_⟩
  · rintro ⟨k, -, hnoticed⟩
    by_cases hk : times.take k = []
    · have hafter : after k = b := by simp only [after, hk]; rfl
      rwa [hafter] at hnoticed
    · exact absurd ((hrunning k hk).symm.trans hnoticed.1) (by decide)
  · rw [← List.length_pos_iff, List.length_take]
    omega

/-- A widget whose file is missing when it starts, and then comes back as a dead daemon's. -/
theorem dead_backend_noticed_iff_run :
    let file : StateFile := ⟨some 7, .parsed ⟨some 7, ⟨true, ""⟩, ⟨true, ""⟩, [("w1", [])]⟩⟩
    let inputs : List Input := [.configure 0 ⟨"w1", 1000, 1000, [⟨"d1", "Router", "192.0.2.1", 0, 50000, 2, true, false⟩]⟩,
      .completed 20000 ⟨some (-1), .empty⟩, .poll 21000 ⟨some (-1), .empty⟩]
    let b := (backend compare).run .initial inputs
    let after := fun k => (backend compare).run b (polls file ([22000, 23000, 24000].take k))
    ((∃ k ≤ 20, Noticed (after k)) ↔ Noticed b) ∧
      ∀ k, 1 ≤ k → 1 ≤ 3 → (after k).daemonRunning = true :=
  dead_backend_noticed_iff compare
    [.configure 0 ⟨"w1", 1000, 1000, [⟨"d1", "Router", "192.0.2.1", 0, 50000, 2, true, false⟩]⟩,
      .completed 20000 ⟨some (-1), .empty⟩, .poll 21000 ⟨some (-1), .empty⟩]
    (by decide) ⟨rfl, by decide, rfl⟩ [22000, 23000, 24000]

/-- A daemon that has published once and is killed: twenty more polls of its file, a second
apart, and the widget still shows a running backend. -/
theorem dead_backend_unnoticed :
    let file : StateFile := ⟨some 7, .parsed ⟨some 7, ⟨true, ""⟩, ⟨true, ""⟩,
      [("w1", [⟨"d1", .good, "192.0.2.1", true, 900, 0, 12, 12, ""⟩])]⟩⟩
    let b := (backend compare).run .initial
      [.configure 0 ⟨"w1", 1000, 1000, [⟨"d1", "Router", "192.0.2.1", 0, 50000, 2, true, false⟩]⟩,
        .completed 20000 file]
    b.clientId ≠ "" ∧ 0 < b.enabledCount ∧ WellFormed file 7 ⟨some 7, ⟨true, ""⟩, ⟨true, ""⟩,
        [("w1", [⟨"d1", .good, "192.0.2.1", true, 900, 0, 12, 12, ""⟩])]⟩ ∧
      ∀ k ≤ 20, ¬ Noticed ((backend compare).run b
        (polls file ((List.range k).map fun i => 21000 + 1000 * (i : ℤ)))) :=
  ⟨by decide, by decide, ⟨rfl, by decide, rfl⟩, by decide +kernel⟩

end NetworkHealth.Widget
