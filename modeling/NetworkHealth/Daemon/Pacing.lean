import Mathlib.Algebra.Order.Field.Rat
import Mathlib.Tactic.Linarith
import NetworkHealth.Daemon.Conservation

/-! How close together the sends to one host can be. A send takes the next one to the due time
after it, early by no more than the slack, and a due time that has fallen behind is moved on
past the present instead of being made up for. -/
namespace NetworkHealth.Daemon

/-- When `sendProbe` was called. -/
def ProberEvent.callTime : ProberEvent → Option ℕ
  | call now => some now
  | _ => none

/-- The times of all calls of `sendProbe` for the prober, latest first. -/
def Prober.latestSends (p : Prober) : List ℕ := p.history.filterMap ProberEvent.callTime

/-- The times of all its sends, in their order. -/
def Prober.sendTimes (p : Prober) : List ℕ := p.latestSends.reverse

/-- Times, latest first, that are an interval apart up to the slack. -/
def Spaced (intervalUs slackUs : ℕ) (times : List ℕ) : Prop :=
  ∀ i j a b, i < j → times[i]? = some b → times[j]? = some a → a + (j - i - 1) * intervalUs < b + slackUs

/-- The sends of a prober are spaced, and so is the one that comes next. -/
structure Paced (p : Prober) : Prop where
  interval : 0 < p.intervalUs
  ahead : ∀ i a, p.latestSends[i]? = some a → a + i * p.intervalUs < p.nextSendUs
  spaced : Spaced p.intervalUs kSendSlackUs p.latestSends

theorem Spaced.cons {intervalUs slackUs due now : ℕ} {times : List ℕ} (h : Spaced intervalUs slackUs times)
    (hahead : ∀ i a, times[i]? = some a → a + i * intervalUs < due) (hdue : due ≤ now + slackUs) :
    Spaced intervalUs slackUs (now :: times) := by
  intro i j a b hij hb ha
  cases j with
  | zero => omega
  | succ j =>
    cases i with
    | zero =>
      obtain rfl : now = b := by simpa using hb
      have hlate := hahead j a (by simpa using ha)
      simpa using hlate.trans_le hdue
    | succ i =>
      have hrest := h i j a b (by omega) (by simpa using hb) (by simpa using ha)
      rwa [show j + 1 - (i + 1) - 1 = j - i - 1 by omega]

/-- Some entry has as many entries that satisfy `p` up to it as there are. -/
theorem exists_last_of_countP {p : ℕ → Bool} {times : List ℕ} (h : 1 ≤ times.countP p) :
    ∃ j b, times[j]? = some b ∧ p b = true ∧ times.countP p ≤ j + 1 := by
  induction times with
  | nil => simp at h
  | cons first rest ih =>
    by_cases hrest : 1 ≤ rest.countP p
    · obtain ⟨j, b, hb, hp, hle⟩ := ih hrest
      refine ⟨j + 1, b, by simpa using hb, hp, ?_⟩
      rw [List.countP_cons]
      split_ifs <;> omega
    · have hfirst : p first = true := by
        rw [List.countP_cons] at h
        split_ifs at h with hp
        · exact hp
        · omega
      refine ⟨0, first, rfl, hfirst, ?_⟩
      rw [List.countP_cons, if_pos hfirst]
      omega

/-- Among two or more entries that satisfy `p`, a first and a last one. -/
theorem exists_ends_of_countP {p : ℕ → Bool} {times : List ℕ} (h : 2 ≤ times.countP p) :
    ∃ i j a b, i < j ∧ times[i]? = some b ∧ times[j]? = some a ∧ p b = true ∧ p a = true ∧
      times.countP p ≤ j - i + 1 := by
  induction times with
  | nil => simp at h
  | cons first rest ih =>
    by_cases hfirst : p first = true
    · rw [List.countP_cons, if_pos hfirst] at h
      have hone : 1 ≤ rest.countP p := by omega
      obtain ⟨j, a, ha, hp, hle⟩ := exists_last_of_countP hone
      refine ⟨0, j + 1, a, first, by omega, rfl, by simpa using ha, hfirst, hp, ?_⟩
      rw [List.countP_cons, if_pos hfirst]
      omega
    · rw [List.countP_cons, if_neg hfirst] at h ⊢
      obtain ⟨i, j, a, b, hij, hb, ha, hpb, hpa, hle⟩ := ih h
      exact ⟨i + 1, j + 1, a, b, by omega, by simpa using hb, by simpa using ha, hpb, hpa, by omega⟩

/-- Spaced times leave room for few of them in a window. -/
theorem Spaced.countP_window {intervalUs slackUs : ℕ} {times : List ℕ} (h : Spaced intervalUs slackUs times)
    (hpos : 0 < intervalUs) (start width : ℕ) :
    (times.countP fun a => start ≤ a ∧ a ≤ start + width) * intervalUs < width + slackUs + 2 * intervalUs := by
  set count := times.countP fun a => start ≤ a ∧ a ≤ start + width with hcount
  by_cases htwo : 2 ≤ count
  · obtain ⟨i, j, a, b, hij, hb, ha, hpb, hpa, hle⟩ := exists_ends_of_countP (hcount ▸ htwo)
    have happart := h i j a b hij hb ha
    simp only [decide_eq_true_eq] at hpb hpa
    have hmul : count * intervalUs ≤ (j - i - 1 + 2) * intervalUs := Nat.mul_le_mul_right _ (by omega)
    rw [Nat.add_mul] at hmul
    omega
  · have hmul : count * intervalUs ≤ 1 * intervalUs := Nat.mul_le_mul_right _ (by omega)
    omega

namespace Prober
variable (p : Prober)

@[simp] theorem latestSends_advance (now : ℕ) : (p.advance now).latestSends = p.latestSends := rfl

/-- A send is the latest one, whatever becomes of it. -/
theorem latestSends_of_sendOutcome {now : ℕ} {p p' : Prober} (h : p.SendOutcome now p') :
    p'.latestSends = now :: p.latestSends := by
  cases h <;> rfl

theorem latestSends_resolve (now : ℕ) (result : Resolution) :
    (p.resolve now result).latestSends = p.latestSends ∧ (p.resolve now result).nextSendUs = p.nextSendUs := by
  unfold resolve
  split_ifs <;> exact ⟨rfl, rfl⟩

end Prober

theorem Paced.sent {now : ℕ} {p p' : Prober} (h : Paced p) (hdue : p.nextSendUs ≤ now + kSendSlackUs)
    (houtcome : p.SendOutcome now p') : Paced (p'.advance now) := by
  obtain ⟨hinterval, -, -⟩ := fields_of_stream (stream_of_sendOutcome houtcome)
  have hnext : p'.nextSendUs = p.nextSendUs := by cases houtcome <;> rfl
  have hsends : (p'.advance now).latestSends = now :: p.latestSends :=
    (p'.latestSends_advance now).trans (Prober.latestSends_of_sendOutcome houtcome)
  have hkept : (p'.advance now).intervalUs = p.intervalUs := hinterval
  have hahead : p.nextSendUs + p.intervalUs ≤ (p'.advance now).nextSendUs ∧ now < (p'.advance now).nextSendUs := by
    have hpos := h.interval
    simp only [Prober.advance, hnext, hinterval]
    split_ifs <;> omega
  refine ⟨hkept ▸ h.interval, ?_, ?_⟩
  · rw [hsends, hkept]
    intro i a ha
    cases i with
    | zero =>
      obtain rfl : now = a := by simpa using ha
      simpa using hahead.2
    | succ i =>
      have hbefore := h.ahead i a (by simpa using ha)
      rw [Nat.succ_mul]
      omega
  · rw [hsends, hkept]
    exact h.spaced.cons h.ahead hdue

theorem paced_rule : ProberRule fun _ p => Paced p where
  later _ _ _ _ h := h
  fresh _ _ _ _ _ _ hclamped := by
    have hge := hclamped.interval_ge
    exact ⟨by simp only [freshProber]; omega, by simp [freshProber, Prober.latestSends],
      by simp [Spaced, freshProber, Prober.latestSends]⟩
  rewired _ _ _ h := ⟨h.interval, h.ahead, h.spaced⟩
  gaveUp _ _ _ _ h _ _ := ⟨h.interval, h.ahead, h.spaced⟩
  asked _ _ h := ⟨h.interval, h.ahead, h.spaced⟩
  sent _ _ _ h _ _ hdue houtcome := h.sent hdue houtcome
  answered _ _ _ _ _ h _ := ⟨h.interval, h.ahead, h.spaced⟩
  resolved now p result h := by
    obtain ⟨hsends, hnext⟩ := p.latestSends_resolve now result
    have hinterval : (p.resolve now result).intervalUs = p.intervalUs := (fields_of_stream (by simp)).1
    refine ⟨hinterval ▸ h.interval, ?_, ?_⟩
    · rw [hsends, hnext, hinterval]
      exact h.ahead
    · rw [hsends, hinterval]
      exact h.spaced

/-- The i-th and the j-th send, counted from the first one. -/
theorem Paced.sendTimes {p : Prober} (h : Paced p) {i j a b : ℕ} (hij : i < j)
    (ha : p.sendTimes[i]? = some a) (hb : p.sendTimes[j]? = some b) :
    a + (j - i - 1) * p.intervalUs < b + kSendSlackUs := by
  unfold Prober.sendTimes at ha hb
  have hi : i < p.latestSends.length := by simpa using (List.getElem?_eq_some_iff.mp ha).1
  have hj : j < p.latestSends.length := by simpa using (List.getElem?_eq_some_iff.mp hb).1
  rw [List.getElem?_reverse hi] at ha
  rw [List.getElem?_reverse hj] at hb
  have happart := h.spaced _ _ a b (by omega) hb ha
  rwa [show p.latestSends.length - 1 - i - (p.latestSends.length - 1 - j) - 1 = j - i - 1 by omega] at happart

/-- In every run of the handlers, at any times, and for every prober: the j-th send comes more
than j - i - 1 intervals less the slack after the i-th, and no window holds more sends than its
width allows. -/
theorem no_host_flooded (numeric : Bytes → Option Endpoint) (options : Options)
    (socket4 socket6 : IcmpSocket) (cookie startedRealUs : ℕ) (events : List Event) :
    ∀ p ∈ ((handlers numeric).run (.initial options socket4 socket6 cookie startedRealUs) events).probers,
      (∀ i j a b : ℕ, i < j → p.sendTimes[i]? = some a → p.sendTimes[j]? = some b →
        ((j : ℤ) - i - 1) * p.intervalUs - 2000 < (b : ℤ) - a) ∧
      ∀ start width : ℕ, ((p.sendTimes.countP fun a => start ≤ a ∧ a ≤ start + width : ℕ) : ℚ) <
        (width + 2000) / p.intervalUs + 2 := by
  intro p hp
  have hpaced := paced_rule.always numeric options socket4 socket6 cookie startedRealUs events p hp
  refine ⟨fun i j a b hij ha hb => ?_, fun start width => ?_⟩
  · have happart := hpaced.sendTimes hij ha hb
    simp only [kSendSlackUs] at happart
    obtain ⟨gap, rfl⟩ : ∃ gap, j = i + 1 + gap := ⟨j - i - 1, by omega⟩
    rw [show i + 1 + gap - i - 1 = gap by omega] at happart
    push_cast
    rw [show (i : ℤ) + 1 + gap - i - 1 = gap by omega]
    have hcast : (a : ℤ) + gap * p.intervalUs < b + 2000 := by exact_mod_cast happart
    omega
  · have hcount := hpaced.spaced.countP_window hpaced.interval start width
    have hreverse : p.sendTimes.countP (fun a => start ≤ a ∧ a ≤ start + width) =
        p.latestSends.countP fun a => start ≤ a ∧ a ≤ start + width :=
      (List.reverse_perm _).countP_eq _
    have hpos : (0 : ℚ) < p.intervalUs := by exact_mod_cast hpaced.interval
    rw [hreverse, ← sub_lt_iff_lt_add, lt_div_iff₀ hpos]
    have hcast : (((p.latestSends.countP fun a => start ≤ a ∧ a ≤ start + width : ℕ) : ℚ)) * p.intervalUs <
        width + 2000 + 2 * p.intervalUs := by exact_mod_cast hcount
    linarith

/-- A host probed every 100 ms whose daemon is suspended for a minute: the send that waited is
made once, and the next one an interval later. -/
theorem no_host_flooded_suspend :
    let host : Endpoint := ⟨.inet, ⟨.inet, [192, 0, 2, 1]⟩, 16, ascii "192.0.2.1"⟩
    let directory : Directory := ⟨[⟨ascii "w.json", some (.object [(ascii "interval_ms", .number 100),
      (ascii "destinations", .array [.object [(ascii "address", .string (ascii "192.0.2.1"))]])])⟩],
      by decide⟩
    let io : Io := ⟨fun _ => .sent, fun _ => 0⟩
    let m := (handlers fun _ => some host).run
      (.initial ⟨[], 1000000, 0, 0, 50, by decide, by decide⟩ ⟨true, false, []⟩ ⟨true, false, []⟩ 5 0)
      [⟨1000, .reloadClients directory⟩, ⟨1000, .tick io⟩, ⟨60000000, .tick io⟩, ⟨60001000, .tick io⟩,
        ⟨60098000, .tick io⟩]
    m.probers ≠ [] ∧ ∀ p ∈ m.probers, p.sendTimes = [1000, 60000000, 60098000] ∧
      (((2 : ℕ) : ℤ) - (0 : ℕ) - 1) * p.intervalUs - 2000 < ((60098000 : ℕ) : ℤ) - (1000 : ℕ) ∧
      ((p.sendTimes.countP fun a => 60000000 ≤ a ∧ a ≤ 60000000 + 98000 : ℕ) : ℚ) <
        ((98000 : ℕ) + 2000) / p.intervalUs + 2 := by
  intro host directory io m
  have hsends : ∀ p ∈ m.probers, p.sendTimes = [1000, 60000000, 60098000] := by decide +kernel
  refine ⟨by decide +kernel, fun p hp => ?_⟩
  obtain ⟨happart, hwindow⟩ := no_host_flooded (fun _ => some host)
    ⟨[], 1000000, 0, 0, 50, by decide, by decide⟩ ⟨true, false, []⟩ ⟨true, false, []⟩ 5 0 _ p hp
  exact ⟨hsends p hp, happart 0 2 1000 60098000 (by decide) (by rw [hsends p hp]; rfl)
    (by rw [hsends p hp]; rfl), hwindow 60000000 98000⟩

end NetworkHealth.Daemon
