import Mathlib.Data.Rat.Floor
import Mathlib.Data.List.Forall2
import Mathlib.Tactic.Linarith
import NetworkHealth.Daemon.Configuration

/-! The numbers of a client file: rounded, converted to `long long`, clamped and scaled. The
conversion comes before the clamp, and a number may leave its range. -/
namespace NetworkHealth.Daemon

/-- The nearest integer, and of two that are equally near the one further from zero. -/
def roundHalfAway (x : ℚ) : ℤ := if x < 0 then -(-x + 1 / 2).floor else (x + 1 / 2).floor

/-- What `toInt` converts, without its fraction. -/
def truncated (x : ℚ) : ℤ := if x < 0 then -(-(x - 1 / 2)).floor else (x + 1 / 2).floor

/-- The conversion is defined: the integer is a `long long`. -/
def ConversionInRange (x : ℚ) : Prop := -(2 ^ 63) ≤ truncated x ∧ truncated x < 2 ^ 63

/-- A number in a field is converted in range, and what is stored comes from it by rounding and
then clamping. -/
def Kept (field : Json) (low high : ℤ) (stored : ℤ → Prop) : Prop :=
  ∀ x, field = .number x → ConversionInRange x ∧ stored (clampValue (roundHalfAway x) low high)

/-- A number in a field is one that a `long long` holds once it is rounded. -/
def Fits (field : Json) : Prop :=
  ∀ x, field = .number x → -(2 ^ 63) - 1 / 2 < x ∧ x < 2 ^ 63 - 1 / 2

/-- An object whose address has something in it. -/
def isUsable (entry : Json) : Bool :=
  match entry with
  | .object _ => trimmed ((entry.field (ascii "address")).toString []) ≠ []
  | _ => false

/-- The entries that become destinations. -/
def loadedEntries (options : Options) (document : Json) : List (Json × ℕ) :=
  ((document.field (ascii "destinations")).entries.filter fun p => isUsable p.1).take options.maxDestinations

/-- A client has the numbers of its file. -/
structure NumbersKept (options : Options) (document : Json) (client : Client) : Prop where
  interval : Kept (document.field (ascii "interval_ms")) 100 3600000 fun ms => client.intervalUs = ms * 1000
  timeout : Kept (document.field (ascii "timeout_ms")) 50 60000 fun ms => client.timeoutUs = ms * 1000
  destinations : List.Forall₂ (fun (p : Json × ℕ) (d : Destination) =>
      Kept (p.1.field (ascii "threshold_us")) 1 60000000 (fun us => d.thresholdUs = us) ∧
      Kept (p.1.field (ascii "sensitivity")) 0 1000 (fun n => d.sensitivity = n))
    (loadedEntries options document) client.destinations

/-- Every number that is read for a client fits. -/
structure NumbersFit (options : Options) (document : Json) : Prop where
  interval : Fits (document.field (ascii "interval_ms"))
  timeout : Fits (document.field (ascii "timeout_ms"))
  destinations : ∀ p ∈ loadedEntries options document,
    Fits (p.1.field (ascii "threshold_us")) ∧ Fits (p.1.field (ascii "sensitivity"))

theorem floor_bounds (x : ℚ) : (x.floor : ℚ) ≤ x ∧ x < x.floor + 1 :=
  ⟨Int.floor_le x, Int.lt_floor_add_one x⟩

theorem truncated_eq (x : ℚ) : truncated x = roundHalfAway x := by
  unfold truncated roundHalfAway
  rw [neg_sub', sub_neg_eq_add]

/-- Rounding is to a nearest integer. -/
theorem abs_sub_roundHalfAway_le (x : ℚ) : |x - roundHalfAway x| ≤ 1 / 2 := by
  unfold roundHalfAway
  rw [abs_le]
  split_ifs with hneg
  · obtain ⟨hle, hlt⟩ := floor_bounds (-x + 1 / 2)
    push_cast
    constructor <;> linarith
  · obtain ⟨hle, hlt⟩ := floor_bounds (x + 1 / 2)
    constructor <;> linarith

/-- Where two integers are equally near, it goes away from zero. -/
theorem abs_le_roundHalfAway {x : ℚ} (htie : |x - roundHalfAway x| = 1 / 2) : |x| ≤ |(roundHalfAway x : ℚ)| := by
  unfold roundHalfAway at htie ⊢
  split_ifs at htie ⊢ with hneg
  · obtain ⟨hle, hlt⟩ := floor_bounds (-x + 1 / 2)
    push_cast at htie ⊢
    rw [abs_neg, abs_of_neg hneg]
    rcases abs_cases (x - -((-x + 1 / 2).floor : ℚ)) with ⟨hcase, -⟩ | ⟨hcase, -⟩
    · exact (by linarith : -x ≤ ((-x + 1 / 2).floor : ℚ)).trans (le_abs_self _)
    · linarith
  · obtain ⟨hle, hlt⟩ := floor_bounds (x + 1 / 2)
    rw [abs_of_nonneg (not_lt.mp hneg)]
    rcases abs_cases (x - ((x + 1 / 2).floor : ℚ)) with ⟨hcase, -⟩ | ⟨hcase, -⟩
    · linarith
    · exact (by linarith : x ≤ ((x + 1 / 2).floor : ℚ)).trans (le_abs_self _)

/-- The range of the conversion, as a range of numbers. -/
theorem conversionInRange_iff (x : ℚ) : ConversionInRange x ↔ -(2 ^ 63) - 1 / 2 < x ∧ x < 2 ^ 63 - 1 / 2 := by
  unfold ConversionInRange truncated
  split_ifs with hneg
  · have hlower : (-(x - 1 / 2)).floor < 2 ^ 63 + 1 ↔ -(2 ^ 63) - 1 / 2 < x := by
      rw [Rat.floor_lt_iff]
      push_cast
      constructor <;> intro h <;> linarith
    have hnonneg : 0 ≤ (-(x - 1 / 2)).floor := Rat.le_floor_iff.mpr (by push_cast; linarith)
    rw [← hlower]
    constructor
    · intro h
      exact ⟨by omega, by linarith⟩
    · intro h
      omega
  · have hupper : (x + 1 / 2).floor < 2 ^ 63 ↔ x < 2 ^ 63 - 1 / 2 := by
      rw [Rat.floor_lt_iff]
      push_cast
      constructor <;> intro h <;> linarith
    have hnonneg : 0 ≤ (x + 1 / 2).floor := Rat.le_floor_iff.mpr (by push_cast; linarith)
    rw [← hupper]
    constructor
    · intro h
      exact ⟨by linarith, h.2⟩
    · intro h
      omega

instance (x : ℚ) : Decidable (ConversionInRange x) := inferInstanceAs (Decidable (_ ∧ _))

/-- Where the conversion is defined, `toInt` rounds; elsewhere it gives what the hardware delivers. -/
theorem toInt_number (x : ℚ) (default : ℤ) :
    (Json.number x).toInt default = if ConversionInRange x then roundHalfAway x else -(2 ^ 63) := by
  have hargument : toLongLong (if x < 0 then x - 1 / 2 else x + 1 / 2) =
      if ConversionInRange x then truncated x else -(2 ^ 63) := by
    unfold ConversionInRange truncated toLongLong
    by_cases hneg : x < 0
    · simp only [if_pos hneg, if_pos (by linarith : x - 1 / 2 < 0)]
    · simp only [if_neg hneg, if_neg (by linarith : ¬ x + 1 / 2 < 0)]
  rw [Json.toInt, hargument, truncated_eq]

/-- A number too large for the conversion is stored as the least value, not as the greatest. -/
theorem clampValue_toInt_of_large {x : ℚ} (h : 2 ^ 63 - 1 / 2 ≤ x) (default : ℤ) {low : ℤ} (hlow : 0 ≤ low)
    (high : ℤ) : clampValue ((Json.number x).toInt default) low high = low := by
  have hrange : ¬ ConversionInRange x := fun hin => absurd ((conversionInRange_iff x).mp hin).2 (not_lt.mpr h)
  rw [toInt_number, if_neg hrange, clampValue, if_pos (by omega)]

/-- What is clamped is the number of a field, rounded, exactly if the number fits. -/
theorem kept_iff {field : Json} {low high : ℤ} {stored : ℤ → Prop} {default : ℤ}
    (h : stored (clampValue (field.toInt default) low high)) : Kept field low high stored ↔ Fits field := by
  constructor
  · intro hkept x hx
    exact (conversionInRange_iff x).mp (hkept x hx).1
  · rintro hfits x rfl
    have hrange := (conversionInRange_iff x).mpr (hfits x rfl)
    rw [toInt_number, if_pos hrange] at h
    exact ⟨hrange, h⟩

theorem isUsable_eq (entry : Json) (i : ℕ) : isUsable entry = (loadDestination entry i).isSome := by
  cases entry with
  | object members =>
    simp only [isUsable, loadDestination]
    split_ifs with haddress <;> simp [haddress]
  | null | bool _ | number _ | infinite | string _ | array _ => rfl

/-- The destinations of a client, each with the entry it comes from. -/
theorem forall₂_loadedEntries (options : Options) (document : Json) :
    List.Forall₂ (fun p d => loadDestination p.1 p.2 = some d) (loadedEntries options document)
      (((document.field (ascii "destinations")).entries.filterMap fun (entry, i) =>
        loadDestination entry i).take options.maxDestinations) := by
  have husable : (fun p : Json × ℕ => isUsable p.1) = fun p => (loadDestination p.1 p.2).isSome := by
    funext p
    exact isUsable_eq p.1 p.2
  rw [loadedEntries, husable]
  exact List.forall₂_take options.maxDestinations (forall₂_filterMap (fun p : Json × ℕ => loadDestination p.1 p.2) _)

/-- What an entry's numbers become in its destination. -/
theorem stored_of_loadDestination {entry : Json} {i : ℕ} {d : Destination} (h : loadDestination entry i = some d) :
    (d.thresholdUs : ℤ) = clampValue ((entry.field (ascii "threshold_us")).toInt 1000) 1 60000000 ∧
      (d.sensitivity : ℤ) = clampValue ((entry.field (ascii "sensitivity")).toInt 3) 0 1000 := by
  cases entry <;> simp only [loadDestination, reduceCtorEq] at h
  next members =>
    split at h
    · cases h
    · obtain rfl := Option.some.inj h
      have hthreshold := le_clampValue (((Json.object members).field (ascii "threshold_us")).toInt 1000)
        (by decide : (1 : ℤ) ≤ 60000000)
      have hsensitivity := le_clampValue (((Json.object members).field (ascii "sensitivity")).toInt 3)
        (by decide : (0 : ℤ) ≤ 1000)
      constructor <;> dsimp only <;> omega

/-- What a document's numbers become in its client. -/
theorem stored_of_loadClientFile {options : Options} {path id : Bytes} {document : Json} {client : Client}
    (h : loadClientFile options path id document = some client) :
    (client.intervalUs : ℤ) = clampValue ((document.field (ascii "interval_ms")).toInt 1000) 100 3600000 * 1000 ∧
    (client.timeoutUs : ℤ) = clampValue ((document.field (ascii "timeout_ms")).toInt 3000) 50 60000 * 1000 ∧
    List.Forall₂ (fun p d => loadDestination p.1 p.2 = some d) (loadedEntries options document)
      client.destinations := by
  cases document <;> simp only [loadClientFile, reduceCtorEq, Option.some.injEq] at h
  next members =>
    subst h
    have hinterval := le_clampValue (((Json.object members).field (ascii "interval_ms")).toInt 1000)
      (by decide : (100 : ℤ) ≤ 3600000)
    have htimeout := le_clampValue (((Json.object members).field (ascii "timeout_ms")).toInt 3000)
      (by decide : (50 : ℤ) ≤ 60000)
    refine ⟨?_, ?_, forall₂_loadedEntries options _⟩
    · push_cast
      omega
    · push_cast
      omega

/-- The client of an object has the numbers of its file, rounded and clamped by conversions that
are defined, if and only if all the numbers that are read for it fit. -/
theorem client_numbers_iff (options : Options) (path id : Bytes) (members : List (Bytes × Json)) :
    ∃ client, loadClientFile options path id (.object members) = some client ∧
      (NumbersKept options (.object members) client ↔ NumbersFit options (.object members)) := by
  obtain ⟨client, hclient⟩ : ∃ client, loadClientFile options path id (.object members) = some client := ⟨_, rfl⟩
  obtain ⟨hinterval, htimeout, hentries⟩ := stored_of_loadClientFile hclient
  have hnumbers : ∀ (p : Json × ℕ) (d : Destination), loadDestination p.1 p.2 = some d →
      (Kept (p.1.field (ascii "threshold_us")) 1 60000000 (fun us => (d.thresholdUs : ℤ) = us) ∧
        Kept (p.1.field (ascii "sensitivity")) 0 1000 (fun n => (d.sensitivity : ℤ) = n) ↔
      Fits (p.1.field (ascii "threshold_us")) ∧ Fits (p.1.field (ascii "sensitivity"))) := by
    intro p d h
    obtain ⟨hthreshold, hsensitivity⟩ := stored_of_loadDestination h
    exact and_congr (kept_iff hthreshold) (kept_iff hsensitivity)
  have hdestinations := forall₂_iff_forall hentries hnumbers
  refine ⟨client, hclient, fun h => ?_, fun h => ?_⟩
  · exact ⟨(kept_iff hinterval).mp h.interval, (kept_iff htimeout).mp h.timeout, hdestinations.mp h.destinations⟩
  · exact ⟨(kept_iff hinterval).mpr h.interval, (kept_iff htimeout).mpr h.timeout,
      hdestinations.mpr h.destinations⟩

/-- Ten billion billion milliseconds become the shortest interval. -/
theorem huge_interval_mangled :
    let options : Options := ⟨[], 250000, 0, 0, 128, by decide, by decide⟩
    let document : Json := .object [(ascii "interval_ms", .number (10 ^ 19))]
    ∃ client, loadClientFile options [] (ascii "router") document = some client ∧
      client.intervalUs = 100 * 1000 ∧ clampValue (roundHalfAway (10 ^ 19)) 100 3600000 = 3600000 ∧
      ¬ NumbersKept options document client := by
  intro options document
  obtain ⟨client, hclient⟩ : ∃ client, loadClientFile options [] (ascii "router") document = some client := ⟨_, rfl⟩
  have hfield : document.field (ascii "interval_ms") = .number (10 ^ 19) := rfl
  have hstored := (stored_of_loadClientFile hclient).1
  rw [hfield, clampValue_toInt_of_large (by norm_num) _ (by decide)] at hstored
  refine ⟨client, hclient, by omega, by decide +kernel, fun hkept => ?_⟩
  have hfits := (conversionInRange_iff _).mp (hkept.interval (10 ^ 19) hfield).1
  norm_num at hfits

end NetworkHealth.Daemon
