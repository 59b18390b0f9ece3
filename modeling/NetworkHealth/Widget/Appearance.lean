import NetworkHealth.Library.CNumber
import NetworkHealth.Widget.Configured
import NetworkHealth.Widget.ImportExport

/-! The appearance that every widget agrees on. Widgets compare one spelling of their settings, and a
widget that adopts a spelling sets its own properties one by one. -/
namespace NetworkHealth.Widget

/-- A colour as the configuration keeps it. -/
structure Colour where
  alpha : UInt8
  red : UInt8
  green : UInt8
  blue : UInt8
  deriving DecidableEq, Repr

namespace Colour

def byteText (b : UInt8) : CodeUnits := [hexDigit (b.toNat / 16), hexDigit (b.toNat % 16)]

/-- `String(colour)`: the alpha channel is only spelled where there is something to see through. -/
def text (c : Colour) : CodeUnits :=
  unit '#' :: ((if c.alpha = 255 then [] else byteText c.alpha) ++ (byteText c.red ++ (byteText c.green ++ byteText c.blue)))

def solid (c : Colour) : Colour := { c with alpha := 255 }

end Colour

/-- An `Int` entry of the configuration with its bounds. -/
structure IntEntry where
  low : ℤ
  high : ℤ
  int_low : -2 ^ 31 ≤ low
  int_high : high < 2 ^ 31

def ledSizeEntry : IntEntry := ⟨-2 ^ 31, 2 ^ 31 - 1, by decide, by decide⟩
def contentOpacityEntry : IntEntry := ⟨20, 100, by decide, by decide⟩
def backgroundOpacityEntry : IntEntry := ⟨0, 100, by decide, by decide⟩

/-- The appearance part of `Plasmoid.configuration`. -/
structure Appearance where
  ledSize : ℤ
  showNames : Bool
  showLatency : Bool
  contentOpacity : ℤ
  backgroundOpacity : ℤ
  colorGood : Colour
  colorWarn : Colour
  colorBad : Colour
  colorOffline : Colour
  colorIdle : Colour
  hideWhenHealthy : Bool
  deriving DecidableEq, Repr

/-- `toLowerCase` of a text of a colour, which is ASCII. -/
def toLowerCase (text : CodeUnits) : CodeUnits :=
  text.map fun c => if unit 'A' ≤ c ∧ c ≤ unit 'Z' then c + 32 else c

/-- "#aarrggbb" and "#RRGGBB" both settle to "#rrggbb". -/
def normaliseColor (value : CodeUnits) : CodeUnits :=
  let text := if value.length = 9 && value.head? = some (unit '#') && value.tail.all (fun c => (hexValue c).isSome) then
    unit '#' :: value.drop 3 else value
  toLowerCase text

def canonicalAppearance (settings : Appearance) : CodeUnits :=
  (JsonValue.object [
    (units "ledSize", .number (mathRound (Binary64.nearest settings.ledSize))),
    (units "showNames", .bool settings.showNames),
    (units "showLatency", .bool settings.showLatency),
    (units "contentOpacity", .number (mathRound (Binary64.nearest settings.contentOpacity))),
    (units "backgroundOpacity", .number (mathRound (Binary64.nearest settings.backgroundOpacity))),
    (units "colorGood", .string (normaliseColor settings.colorGood.text)),
    (units "colorWarn", .string (normaliseColor settings.colorWarn.text)),
    (units "colorBad", .string (normaliseColor settings.colorBad.text)),
    (units "colorOffline", .string (normaliseColor settings.colorOffline.text)),
    (units "colorIdle", .string (normaliseColor settings.colorIdle.text)),
    (units "hideWhenHealthy", .bool settings.hideWhenHealthy)]).stringify

/-- What the configuration makes of a value that is assigned to one of its properties. -/
structure PropertyMap where
  int : IntEntry → Value → ℤ
  bool : Value → Bool
  colour : Value → Colour

/-- A value of the property's type is kept. -/
structure PropertyMap.Exact (k : PropertyMap) : Prop where
  int : ∀ entry (n : ℤ), entry.low ≤ n → n ≤ entry.high → k.int entry (.number (Binary64.nearest n)) = n
  bool : ∀ b, k.bool (.bool b) = b
  colour : ∀ c : Colour, k.colour (.string c.solid.text) = c.solid

/-- `if (value !== undefined) property = value`. -/
def assigned {α : Type} (old : α) (convert : Value → α) : Option Value → α
  | none => old
  | some value => convert value

def applyAppearance (k : PropertyMap) (text : CodeUnits) (configuration : Appearance) : Appearance :=
  match JsonValue.parse text with
  | none => configuration
  | some shared =>
    match shared with
    | .null | .bool _ | .number _ | .string _ => configuration
    | .array _ | .object _ => {
        ledSize := assigned configuration.ledSize (k.int ledSizeEntry) (shared.field (units "ledSize"))
        showNames := assigned configuration.showNames k.bool (shared.field (units "showNames"))
        showLatency := assigned configuration.showLatency k.bool (shared.field (units "showLatency"))
        contentOpacity := assigned configuration.contentOpacity (k.int contentOpacityEntry)
          (shared.field (units "contentOpacity"))
        backgroundOpacity := assigned configuration.backgroundOpacity (k.int backgroundOpacityEntry)
          (shared.field (units "backgroundOpacity"))
        colorGood := assigned configuration.colorGood k.colour (shared.field (units "colorGood"))
        colorWarn := assigned configuration.colorWarn k.colour (shared.field (units "colorWarn"))
        colorBad := assigned configuration.colorBad k.colour (shared.field (units "colorBad"))
        colorOffline := assigned configuration.colorOffline k.colour (shared.field (units "colorOffline"))
        colorIdle := assigned configuration.colorIdle k.colour (shared.field (units "colorIdle"))
        hideWhenHealthy := assigned configuration.hideWhenHealthy k.bool (shared.field (units "hideWhenHealthy")) }

/-- `sharedAppearanceStore`. -/
def appearanceOwner (k : PropertyMap) : Owner Appearance CodeUnits where
  emptyJson := units "{}"
  take json configuration := applyAppearance k json configuration
  spell configuration _ := canonicalAppearance configuration

namespace Colour

theorem hexValue_hexDigit {n : ℕ} (h : n < 16) : hexValue (hexDigit n) = some n := by
  have hall : ∀ n : Fin 16, hexValue (hexDigit n.val) = some n.val := by decide
  exact hall ⟨n, h⟩

theorem toLowerCase_byteText (b : UInt8) : toLowerCase (byteText b) = byteText b := by
  have hdigit : ∀ n : Fin 16, ¬ (unit 'A' ≤ hexDigit n.val ∧ hexDigit n.val ≤ unit 'Z') := by decide
  have hlt : b.toNat < 256 := b.toNat_lt
  have hhigh := hdigit ⟨b.toNat / 16, by omega⟩
  have hlow := hdigit ⟨b.toNat % 16, by omega⟩
  simp only [byteText, toLowerCase, List.map_cons, List.map_nil, if_neg hhigh, if_neg hlow]

theorem hex_byteText (b : UInt8) : (byteText b).all (fun c => (hexValue c).isSome) = true := by
  have hlt : b.toNat < 256 := b.toNat_lt
  simp only [byteText, List.all_cons, List.all_nil, hexValue_hexDigit (show b.toNat / 16 < 16 by omega),
    hexValue_hexDigit (show b.toNat % 16 < 16 by omega), Option.isSome_some, Bool.and_self]

theorem toLowerCase_append (a b : CodeUnits) : toLowerCase (a ++ b) = toLowerCase a ++ toLowerCase b :=
  List.map_append

/-- Colours are compared as if there were nothing to see through. -/
theorem normaliseColor_text (c : Colour) : normaliseColor c.text = c.solid.text := by
  have hlower : toLowerCase c.solid.text = c.solid.text := by
    change toLowerCase ([unit '#'] ++ (byteText c.red ++ (byteText c.green ++ byteText c.blue))) = _
    simp only [toLowerCase_append, toLowerCase_byteText]
    rfl
  by_cases halpha : c.alpha = 255
  · have hsolid : c.text = c.solid.text := by
      unfold text solid
      rw [halpha]
    have hlength : c.solid.text.length ≠ 9 := by simp [text, solid, byteText]
    rw [hsolid, normaliseColor, if_neg (by simp [hlength])]
    exact hlower
  · have hlong : c.text = unit '#' :: (byteText c.alpha ++ (byteText c.red ++ (byteText c.green ++ byteText c.blue))) := by
      rw [text, if_neg halpha]
    have htest : (c.text.length = 9 && c.text.head? = some (unit '#') &&
        c.text.tail.all fun c => (hexValue c).isSome) = true := by
      rw [hlong]
      simp only [List.tail_cons, List.all_append, hex_byteText]
      rfl
    rw [normaliseColor, if_pos htest]
    have hdrop : unit '#' :: c.text.drop 3 = c.solid.text := by
      rw [hlong]
      rfl
    rw [hdrop]
    exact hlower

end Colour
namespace Appearance

/-- The numbers are within the bounds of their entries. -/
structure InRange (a : Appearance) : Prop where
  ledSize : ledSizeEntry.low ≤ a.ledSize ∧ a.ledSize ≤ ledSizeEntry.high
  contentOpacity : contentOpacityEntry.low ≤ a.contentOpacity ∧ a.contentOpacity ≤ contentOpacityEntry.high
  backgroundOpacity : backgroundOpacityEntry.low ≤ a.backgroundOpacity ∧
    a.backgroundOpacity ≤ backgroundOpacityEntry.high

/-- The same but for what there is to see through the colours. -/
def solid (a : Appearance) : Appearance :=
  { a with
    colorGood := a.colorGood.solid
    colorWarn := a.colorWarn.solid
    colorBad := a.colorBad.solid
    colorOffline := a.colorOffline.solid
    colorIdle := a.colorIdle.solid }

variable {k : PropertyMap} {a b : Appearance}

theorem InRange.solid (h : a.InRange) : a.solid.InRange := ⟨h.ledSize, h.contentOpacity, h.backgroundOpacity⟩

theorem canonicalAppearance_solid (a : Appearance) : canonicalAppearance a.solid = canonicalAppearance a := by
  simp only [canonicalAppearance, Colour.normaliseColor_text]
  rfl

/-- A number of the configuration comes back from a spelling. -/
theorem exists_number (hk : k.Exact) (entry : IntEntry) {n : ℤ} (h : entry.low ≤ n ∧ n ≤ entry.high) :
    ∃ x : Binary64, mathRound (Binary64.nearest n) = .finite x ∧ k.int entry (.number (.finite x)) = n := by
  have hlow := entry.int_low
  have hhigh := entry.int_high
  have hn : |n| ≤ 2 ^ 53 := abs_le.mpr ⟨by omega, by omega⟩
  let x : Binary64 := ⟨n, CNumber.representable_intCast hn⟩
  have hnearest : Binary64.nearest n = .finite x := Binary64.nearest_val x
  have hfloor : ⌊(n : ℚ) + 1 / 2⌋ = n := by
    rw [Int.floor_intCast_add]
    norm_num
  refine ⟨x, ?_, ?_⟩
  · rw [hnearest]
    change Binary64.nearest ((⌊(n : ℚ) + 1 / 2⌋ : ℤ) : ℚ) = _
    rw [hfloor, hnearest]
  · rw [← hnearest]
    exact hk.int entry n h.1 h.2

/-- A widget that takes a spelling looks as the widget that spelled it, whatever it looked like before. -/
theorem applyAppearance_canonicalAppearance (hk : k.Exact) (ha : a.InRange) (b : Appearance) :
    applyAppearance k (canonicalAppearance a) b = a.solid := by
  obtain ⟨ledSize, hledText, hled⟩ := exists_number hk ledSizeEntry ha.ledSize
  obtain ⟨content, hcontentText, hcontent⟩ := exists_number hk contentOpacityEntry ha.contentOpacity
  obtain ⟨background, hbackgroundText, hbackground⟩ := exists_number hk backgroundOpacityEntry ha.backgroundOpacity
  have hshared : applyAppearance k (canonicalAppearance a) b = {
      ledSize := k.int ledSizeEntry (.number (.finite ledSize))
      showNames := k.bool (.bool a.showNames)
      showLatency := k.bool (.bool a.showLatency)
      contentOpacity := k.int contentOpacityEntry (.number (.finite content))
      backgroundOpacity := k.int backgroundOpacityEntry (.number (.finite background))
      colorGood := k.colour (.string a.colorGood.solid.text)
      colorWarn := k.colour (.string a.colorWarn.solid.text)
      colorBad := k.colour (.string a.colorBad.solid.text)
      colorOffline := k.colour (.string a.colorOffline.solid.text)
      colorIdle := k.colour (.string a.colorIdle.solid.text)
      hideWhenHealthy := k.bool (.bool a.hideWhenHealthy) } := by
    unfold applyAppearance canonicalAppearance
    rw [parse_stringify, hledText, hcontentText, hbackgroundText]
    simp only [Colour.normaliseColor_text]
    rfl
  rw [hshared, hled, hcontent, hbackground]
  simp only [hk.bool, hk.colour]
  rfl

theorem canonical_appearanceOwner (hk : k.Exact) : (appearanceOwner k).Canonical InRange where
  held _ _ _ _ := rfl
  take a b _ ha _ := by
    simp only [appearanceOwner]
    rw [applyAppearance_canonicalAppearance hk ha]
    exact ha.solid
  spell_take a b _ _ ha _ := by
    simp only [appearanceOwner]
    rw [applyAppearance_canonicalAppearance hk ha, canonicalAppearance_solid]

/-- What is spelled alike looks alike. -/
theorem solid_eq_of_canonicalAppearance (hk : k.Exact) (ha : a.InRange) (hb : b.InRange)
    (h : canonicalAppearance a = canonicalAppearance b) : a.solid = b.solid := by
  rw [← applyAppearance_canonicalAppearance hk ha a, h, applyAppearance_canonicalAppearance hk hb]

end Appearance

/-- Any number of widgets that share their appearance: whatever happens, their stores share the spellings as
they are; and once nobody changes an appearance any more, four rounds make all of them look alike, after
which nothing happens any more. -/
theorem appearances_shared {ι : Type*} [DecidableEq ι] {k : PropertyMap} (hk : k.Exact)
    {n : Instances ι Appearance CodeUnits} (hn : (appearanceOwner k).Bound Appearance.InRange n)
    {as : List (Action ι Appearance)} (has : ∀ a ∈ as, a.Proper Appearance.InRange) :
    let m := (instances (appearanceOwner k)).run n as
    m.net = (sharing (.verbatim (units "{}"))).run n.net (as.map (Action.spelled (appearanceOwner k))) ∧
      (∀ w, (m.stores w).localJson = canonicalAppearance (m.configurations w)) ∧
      ∀ (now : ℕ) (rounds : List (List (ι × ℕ))), n.net.Fresh → (∀ a ∈ as, a.clock ≤ now) → Resting m.net →
        Schedule now rounds → 4 ≤ rounds.length →
        let m' := (instances (appearanceOwner k)).run m (scheduleActions rounds)
        (∀ v w, (m'.configurations v).solid = (m'.configurations w).solid) ∧
          ∀ w t, m'.step (appearanceOwner k) (.sync w t) = m' := by
  intro m
  have hcanonical := Appearance.canonical_appearanceOwner hk
  obtain ⟨hbound, hnet⟩ := hn.run hcanonical has
  refine ⟨hnet, fun w => hbound.json w [], fun now rounds hfresh hclock hresting hrounds hlen => ?_⟩
  obtain ⟨hlast, hspelled, hquiet⟩ := hn.converges hcanonical hfresh has hclock hresting hrounds hlen
  refine ⟨fun v w => ?_, hquiet⟩
  exact Appearance.solid_eq_of_canonicalAppearance hk (hlast.proper v) (hlast.proper w)
    ((hspelled v []).trans (hspelled w []).symm)

def hexByte (c c' : UInt16) : UInt8 := (16 * (hexValue c).getD 0 + (hexValue c').getD 0).toUInt8

theorem hexByte_byteText (b : UInt8) : hexByte (hexDigit (b.toNat / 16)) (hexDigit (b.toNat % 16)) = b := by
  have hlt : b.toNat < 256 := b.toNat_lt
  rw [hexByte, Colour.hexValue_hexDigit (by omega), Colour.hexValue_hexDigit (by omega), Option.getD_some,
    Option.getD_some, Nat.div_add_mod, Nat.toUInt8_eq, UInt8.ofNat_toNat]

/-- A configuration that keeps values of its types, and of "#rrggbb" the colour. -/
def plainProperties : PropertyMap where
  int _ value := match value with
    | .number (.finite x) => ⌊x.val + 1 / 2⌋
    | _ => 0
  bool value := match value with
    | .bool b => b
    | _ => false
  colour value := match value with
    | .string [_, r, r', g, g', b, b'] => ⟨255, hexByte r r', hexByte g g', hexByte b b'⟩
    | _ => ⟨255, 0, 0, 0⟩

theorem plainProperties_exact : plainProperties.Exact where
  int entry n hlow hhigh := by
    have h := entry.int_low
    have h' := entry.int_high
    have hn : |n| ≤ 2 ^ 53 := abs_le.mpr ⟨by omega, by omega⟩
    have hnearest : Binary64.nearest n = .finite ⟨n, CNumber.representable_intCast hn⟩ :=
      Binary64.nearest_val ⟨n, CNumber.representable_intCast hn⟩
    rw [hnearest]
    change ⌊(n : ℚ) + 1 / 2⌋ = n
    rw [Int.floor_intCast_add]
    norm_num
  bool _ := rfl
  colour c := by
    exact congr (congrArg₂ (Colour.mk 255) (hexByte_byteText c.red) (hexByte_byteText c.green))
      (hexByte_byteText c.blue)

/-- Two widgets, one of which has a colour to see through. -/
theorem appearances_shared_run :
    let own : Bool → Appearance := fun w =>
      ⟨14, w, false, 100, 40, ⟨if w then 128 else 255, 46, 204, 113⟩, ⟨255, 241, 196, 15⟩, ⟨255, 231, 76, 60⟩,
        ⟨255, 52, 152, 219⟩, ⟨255, 255, 255, 255⟩, false⟩
    let n : Instances Bool Appearance CodeUnits := ⟨⟨0, units "{}"⟩, own,
      fun w => ⟨true, true, canonicalAppearance (own w), 0, 0, 0, units "{}"⟩, []⟩
    let rounds := [[(false, 0), (true, 0)], [(true, 5001), (false, 5002)], [(true, 11000), (false, 11000)],
      [(false, 17000), (true, 17000)]]
    let m := (instances (appearanceOwner plainProperties)).run n (scheduleActions rounds)
    (m.configurations true).solid = (m.configurations false).solid := by
  intro own n rounds m
  have hown : ∀ w, (own w).InRange := fun _ =>
    ⟨show ledSizeEntry.low ≤ 14 ∧ 14 ≤ ledSizeEntry.high by decide,
      show contentOpacityEntry.low ≤ 100 ∧ 100 ≤ contentOpacityEntry.high by decide,
      show backgroundOpacityEntry.low ≤ 40 ∧ 40 ≤ backgroundOpacityEntry.high by decide⟩
  have hbound : (appearanceOwner plainProperties).Bound Appearance.InRange n :=
    ⟨hown, fun _ _ => rfl, fun h => absurd rfl h, by simp [n]⟩
  have hnone : ∀ a ∈ ([] : List (Action Bool Appearance)), a.Proper Appearance.InRange := by simp
  obtain ⟨-, -, hconverges⟩ := appearances_shared plainProperties_exact hbound hnone
  rw [Machine.run_nil] at hconverges
  have hfresh : n.net.Fresh := ⟨fun _ => rfl, fun _ => rfl, rfl⟩
  have hresting : Resting n.net := ⟨rfl, fun _ => rfl, fun _ => rfl⟩
  have hrounds : Schedule 0 rounds := ⟨by decide, by decide, by decide, by decide⟩
  exact (hconverges 0 rounds hfresh (by simp) hresting hrounds (by decide)).1 true false

end NetworkHealth.Widget
