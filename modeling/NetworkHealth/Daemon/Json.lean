import Mathlib.Data.Rat.Init
import NetworkHealth.Library.IndexTable
import NetworkHealth.Daemon.Text

/-! JSON values as the daemon holds them, and the accessors through which it reads its
configuration. Numbers stand for exact rationals; a number token beyond the range of a
double is kept apart, since the accessors treat it differently. -/
namespace NetworkHealth.Daemon

inductive Json
  | null
  | bool (value : Bool)
  | number (value : ℚ)
  | infinite
  | string (value : Bytes)
  | array (items : List Json)
  | object (members : List (Bytes × Json))

/-- Conversion of a floating-point value to `long long`: towards zero, and outside the range
to the value the hardware delivers. -/
def toLongLong (x : ℚ) : ℤ :=
  let truncated := if x < 0 then -(-x).floor else x.floor
  if -(2 ^ 63) ≤ truncated ∧ truncated < 2 ^ 63 then truncated else -(2 ^ 63)

/-- Conversion of a `long long` to `int`. -/
def toInt32 (x : ℤ) : ℤ := x.bmod (2 ^ 32)

def clampValue (value low high : ℤ) : ℤ :=
  if value < low then low else if high < value then high else value

namespace Json

def isNull : Json → Bool
  | null => true
  | _ => false

def toBool (default : Bool) : Json → Bool
  | bool value => value
  | number value => value ≠ 0
  | infinite => true
  | _ => default

/-- Rounds halves away from zero. The half is added exactly; the sum in double is the same for integers below
`2 ^ 52` and wherever it is a double. -/
def toInt (default : ℤ) : Json → ℤ
  | number value => toLongLong (if value < 0 then value - 1 / 2 else value + 1 / 2)
  | _ => default

def toString (default : Bytes) : Json → Bytes
  | string value => value
  | _ => default

/-- `operator[]`: the first member of that name, null if there is none. -/
def field (key : Bytes) : Json → Json
  | object members => (members.lookup key).getD null
  | _ => null

/-- Replaces the first member of that name, or adds one at the end. -/
def setMember (key : Bytes) (value : Json) : List (Bytes × Json) → List (Bytes × Json)
  | [] => [(key, value)]
  | member :: rest => if member.1 = key then (key, value) :: rest else member :: setMember key value rest

/-- What is not an object becomes one. -/
def set (document : Json) (key : Bytes) (value : Json) : Json :=
  match document with
  | object members => object (setMember key value members)
  | _ => object [(key, value)]

/-- A chain of `set`. -/
def sets (document : Json) (members : List (Bytes × Json)) : Json :=
  members.foldl (fun document member => document.set member.1 member.2) document

/-- What is not an array becomes one. -/
def push (document value : Json) : Json :=
  match document with
  | array items => array (items ++ [value])
  | _ => array [value]

/-- The entries of an array with their indices. -/
def entries : Json → List (Json × ℕ)
  | array items => items.zipIdx
  | _ => []

theorem lookup_setMember (key key' : Bytes) (value : Json) (members : List (Bytes × Json)) :
    (setMember key value members).lookup key' = if key' = key then some value else members.lookup key' := by
  induction members with
  | nil => exact lookup_cons_ite
  | cons member rest ih =>
    obtain ⟨name, old⟩ := member
    unfold setMember
    by_cases hname : name = key
    · rw [if_pos hname, lookup_cons_ite, lookup_cons_ite, hname]
      split_ifs <;> rfl
    · rw [if_neg hname, lookup_cons_ite, lookup_cons_ite, ih]
      split_ifs with h h' <;> first | rfl | exact absurd (h.symm.trans h') hname

/-- Reading a member back after any member has been set. -/
theorem field_set (document : Json) (key key' : Bytes) (value : Json) :
    (document.set key value).field key' = if key' = key then value else document.field key' := by
  cases document with
  | object members =>
    simp only [set, field, lookup_setMember]
    split_ifs <;> rfl
  | null | bool _ | number _ | infinite | string _ | array _ =>
    simp only [set, field, lookup_cons_ite, List.lookup_nil]
    split_ifs <;> rfl

theorem foldl_push {α : Type*} (items : List α) (f : α → Json) (found : List Json) :
    items.foldl (fun document item => document.push (f item)) (array found) = array (found ++ items.map f) := by
  induction items generalizing found with
  | nil => simp
  | cons item rest ih =>
    rw [List.foldl_cons, push, ih]
    simp

end Json

theorem le_clampValue (value : ℤ) {low high : ℤ} (h : low ≤ high) : low ≤ clampValue value low high := by
  unfold clampValue
  split_ifs <;> omega

theorem clampValue_le (value : ℤ) {low high : ℤ} (h : low ≤ high) : clampValue value low high ≤ high := by
  unfold clampValue
  split_ifs <;> omega

end NetworkHealth.Daemon
