import NetworkHealth.Daemon.Json
import NetworkHealth.Library.CNumber

/-! The texts of JSON as RFC 8259 has them, derived from its grammar, and the values they
denote. Strings denote the bytes of their UTF-8, numbers the nearest doubles, and of several
members of one name the last counts. -/
namespace NetworkHealth.Daemon.Json
open CNumber (byte)

namespace Grammar

def IsBlank (c : UInt8) : Prop := c = 0x20 ∨ c = 0x09 ∨ c = 0x0a ∨ c = 0x0d

/-- `ws` -/
def Blank := { text : Bytes // ∀ c ∈ text, IsBlank c }

def Blank.append (a b : Blank) : Blank :=
  ⟨a.val ++ b.val, fun c hc => (List.mem_append.mp hc).elim (a.property c) (b.property c)⟩

section Number

/-- One digit or more. -/
def Digits := { digits : Bytes // digits ≠ [] ∧ ∀ d ∈ digits, CNumber.isDigit d = true }

structure Exponent where
  capital : Bool
  /-- Whether it is a minus, if there is a sign. -/
  minus : Option Bool
  digits : Digits

def Exponent.sign (e : Exponent) : Bytes :=
  match e.minus with
  | Option.none => []
  | some true => [byte '-']
  | some false => [byte '+']

def Exponent.text (e : Exponent) : Bytes :=
  (if e.capital then byte 'E' else byte 'e') :: e.sign ++ e.digits.val

def Exponent.value (e : Exponent) : ℤ :=
  if e.minus = some true then -CNumber.natOfDigits e.digits.val else CNumber.natOfDigits e.digits.val

/-- `number` -/
structure NumberToken where
  minus : Bool
  whole : Digits
  fraction : Option Digits
  exponent : Option Exponent
  noLeadingZero : whole.val.head? = some (byte '0') → whole.val.length = 1

def fractionText : Option Digits → Bytes
  | Option.none => []
  | some digits => byte '.' :: digits.val

def fractionValue : Option Digits → ℚ
  | Option.none => 0
  | some digits => CNumber.natOfDigits digits.val / 10 ^ digits.val.length

def exponentText : Option Exponent → Bytes
  | Option.none => []
  | some e => e.text

def exponentValue : Option Exponent → ℤ
  | Option.none => 0
  | some e => e.value

namespace NumberToken

def text (n : NumberToken) : Bytes :=
  (if n.minus then [byte '-'] else []) ++ n.whole.val ++ fractionText n.fraction ++ exponentText n.exponent

def magnitude (n : NumberToken) : ℚ :=
  (CNumber.natOfDigits n.whole.val + fractionValue n.fraction) * 10 ^ exponentValue n.exponent

def exact (n : NumberToken) : ℚ := if n.minus then -n.magnitude else n.magnitude

def value (n : NumberToken) : ℚ := roundPlaces n.exact

/-- In the range of a double, and not too small for one. -/
def InRange (n : NumberToken) : Prop := ¬ CNumber.Overflows n.exact ∧ ¬ CNumber.Underflows n.exact

end NumberToken

end Number

section String

structure HexDigit where
  value : Fin 16
  capital : Bool
  deriving DecidableEq

def HexDigit.byte (d : HexDigit) : UInt8 :=
  if d.value.val < 10 then UInt8.ofNat (0x30 + d.value.val)
  else if d.capital then UInt8.ofNat (0x37 + d.value.val)
  else UInt8.ofNat (0x57 + d.value.val)

/-- `4HEXDIG` -/
structure Hex4 where
  first : HexDigit
  second : HexDigit
  third : HexDigit
  fourth : HexDigit

def Hex4.text (h : Hex4) : Bytes := [h.first.byte, h.second.byte, h.third.byte, h.fourth.byte]

def Hex4.value (h : Hex4) : ℕ :=
  4096 * h.first.value + 256 * h.second.value + 16 * h.third.value + h.fourth.value

/-- The escapes of one letter, and the bytes they stand for. -/
def escapes : List (UInt8 × UInt8) :=
  [(0x22, 0x22), (0x5c, 0x5c), (0x2f, 0x2f), (byte 'b', 0x08), (byte 'f', 0x0c), (byte 'n', 0x0a),
    (byte 'r', 0x0d), (byte 't', 0x09)]

/-- Bytes that stand for themselves. Those of a character from U+0080 on are among them. -/
def Unescaped (b : UInt8) : Prop := 0x20 ≤ b ∧ b ≠ 0x22 ∧ b ≠ 0x5c

def codePointOfPair (high low : ℕ) : ℕ := 0x10000 + 0x400 * (high - 0xD800) + (low - 0xDC00)

/-- `char`, where `\u` escapes stand for scalar values, alone or as surrogate pairs. -/
inductive Character
  | unescaped (b : UInt8) (h : Unescaped b)
  | escape (letter value : UInt8) (h : (letter, value) ∈ escapes)
  | scalar (hex : Hex4) (h : hex.value.isValidChar)
  | pair (high low : Hex4) (hhigh : 0xD800 ≤ high.value ∧ high.value ≤ 0xDBFF)
      (hlow : 0xDC00 ≤ low.value ∧ low.value ≤ 0xDFFF)

def Character.text : Character → Bytes
  | unescaped b _ => [b]
  | escape letter _ _ => [0x5c, letter]
  | scalar hex _ => 0x5c :: byte 'u' :: hex.text
  | pair high low _ _ => 0x5c :: byte 'u' :: high.text ++ 0x5c :: byte 'u' :: low.text

def Character.bytes : Character → Bytes
  | unescaped b _ => [b]
  | escape _ value _ => [value]
  | scalar hex _ => String.utf8EncodeChar (Char.ofNat hex.value)
  | pair high low _ _ => String.utf8EncodeChar (Char.ofNat (codePointOfPair high.value low.value))

/-- `string` -/
def stringText (characters : List Character) : Bytes :=
  0x22 :: characters.flatMap Character.text ++ [0x22]

def stringBytes (characters : List Character) : Bytes := characters.flatMap Character.bytes

end String

/-- Something with blanks around it. -/
structure Padded (α : Type) where
  before : Blank
  inner : α
  after : Blank

def Padded.wrap {α : Type} (p : Padded α) (text : Bytes) : Bytes := p.before.val ++ text ++ p.after.val

/-- `value`. The blank of an array or object stands before its closing bracket. -/
inductive Tree
  | null
  | bool (value : Bool)
  | number (token : NumberToken)
  | string (characters : List Character)
  | array (elements : List (Padded Tree)) (blank : Blank)
  | object (members : List (Padded (List Character) × Padded Tree)) (blank : Blank)

namespace Tree

mutual

def text : Tree → Bytes
  | null => ascii "null"
  | bool value => if value then ascii "true" else ascii "false"
  | number token => token.text
  | string characters => stringText characters
  | array elements blank =>
    byte '[' :: [byte ','].intercalate (elementTexts elements) ++ blank.val ++ [byte ']']
  | object members blank =>
    0x7b :: [byte ','].intercalate (memberTexts members) ++ blank.val ++ [0x7d]

def elementTexts : List (Padded Tree) → List Bytes
  | [] => []
  | ⟨before, element, after⟩ :: rest => (before.val ++ element.text ++ after.val) :: elementTexts rest

def memberTexts : List (Padded (List Character) × Padded Tree) → List Bytes
  | [] => []
  | (key, ⟨before, value, after⟩) :: rest =>
    (key.wrap (stringText key.inner) ++ byte ':' :: (before.val ++ value.text ++ after.val)) :: memberTexts rest

end

/-- Of the members of one name the last, in the place of the first. -/
def lastWins (members : List (Bytes × Json)) : List (Bytes × Json) :=
  (members.map Prod.fst).eraseDups.map fun key => (key, (members.reverse.lookup key).getD .null)

mutual

def value : Tree → Json
  | null => .null
  | bool value => .bool value
  | number token => .number token.value
  | string characters => .string (stringBytes characters)
  | array elements _ => .array (elementValues elements)
  | object members _ => .object (lastWins (memberValues members))

def elementValues : List (Padded Tree) → List Json
  | [] => []
  | ⟨_, element, _⟩ :: rest => element.value :: elementValues rest

def memberValues : List (Padded (List Character) × Padded Tree) → List (Bytes × Json)
  | [] => []
  | (key, ⟨_, value, _⟩) :: rest => (stringBytes key.inner, value.value) :: memberValues rest

end

mutual

/-- The number of values on the longest path, the scalar at its end included. -/
def depth : Tree → ℕ
  | array elements _ => elementsDepth elements + 1
  | object members _ => membersDepth members + 1
  | _ => 1

def elementsDepth : List (Padded Tree) → ℕ
  | [] => 0
  | ⟨_, element, _⟩ :: rest => max element.depth (elementsDepth rest)

def membersDepth : List (Padded (List Character) × Padded Tree) → ℕ
  | [] => 0
  | (_, ⟨_, value, _⟩) :: rest => max value.depth (membersDepth rest)

end

mutual

/-- Every number is in the range of a double. -/
def InRange : Tree → Prop
  | number token => token.InRange
  | array elements _ => elementsInRange elements
  | object members _ => membersInRange members
  | _ => True

def elementsInRange : List (Padded Tree) → Prop
  | [] => True
  | ⟨_, element, _⟩ :: rest => element.InRange ∧ elementsInRange rest

def membersInRange : List (Padded (List Character) × Padded Tree) → Prop
  | [] => True
  | (_, ⟨_, value, _⟩) :: rest => value.InRange ∧ membersInRange rest

end

section Containers

theorem elementTexts_eq_map (elements : List (Padded Tree)) :
    elementTexts elements = elements.map fun e => e.wrap e.inner.text := by
  induction elements with
  | nil => rfl
  | cons element rest ih => exact congrArg (List.cons _) ih

/-- A member: its name, a colon and its value. -/
def memberText (member : Padded (List Character) × Padded Tree) : Bytes :=
  member.1.wrap (stringText member.1.inner) ++ byte ':' :: member.2.wrap member.2.inner.text

theorem memberTexts_eq_map (members : List (Padded (List Character) × Padded Tree)) :
    memberTexts members = members.map memberText := by
  induction members with
  | nil => rfl
  | cons member rest ih => exact congrArg (List.cons _) ih

theorem elementValues_eq_map (elements : List (Padded Tree)) :
    elementValues elements = elements.map fun e => e.inner.value := by
  induction elements with
  | nil => rfl
  | cons element rest ih => exact congrArg (List.cons _) ih

theorem memberValues_eq_map (members : List (Padded (List Character) × Padded Tree)) :
    memberValues members = members.map fun m => (stringBytes m.1.inner, m.2.inner.value) := by
  induction members with
  | nil => rfl
  | cons member rest ih => exact congrArg (List.cons _) ih

theorem depth_le_of_mem_elements {elements : List (Padded Tree)} {e : Padded Tree} (h : e ∈ elements) :
    e.inner.depth ≤ elementsDepth elements := by
  induction elements with
  | nil => cases h
  | cons element rest ih =>
    rcases List.mem_cons.mp h with rfl | h
    · exact le_max_left _ _
    · exact (ih h).trans (le_max_right _ _)

theorem depth_le_of_mem_members {members : List (Padded (List Character) × Padded Tree)}
    {m : Padded (List Character) × Padded Tree} (h : m ∈ members) : m.2.inner.depth ≤ membersDepth members := by
  induction members with
  | nil => cases h
  | cons member rest ih =>
    rcases List.mem_cons.mp h with rfl | h
    · exact le_max_left _ _
    · exact (ih h).trans (le_max_right _ _)

theorem inRange_of_mem_elements {elements : List (Padded Tree)} (h : elementsInRange elements) :
    ∀ e ∈ elements, e.inner.InRange := by
  induction elements with
  | nil => exact fun e he => by cases he
  | cons element rest ih =>
    rintro e he
    rcases List.mem_cons.mp he with rfl | he
    · exact h.1
    · exact ih h.2 e he

theorem inRange_of_mem_members {members : List (Padded (List Character) × Padded Tree)} (h : membersInRange members) :
    ∀ m ∈ members, m.2.inner.InRange := by
  induction members with
  | nil => exact fun m hm => by cases hm
  | cons member rest ih =>
    rintro m hm
    rcases List.mem_cons.mp hm with rfl | hm
    · exact h.1
    · exact ih h.2 m hm

end Containers

end Tree

end Grammar

end NetworkHealth.Daemon.Json
