import NetworkHealth.Library.Binary64
import NetworkHealth.Library.Traverse

/-! `String(value)` and `Number(value)` of JavaScript for the values that JSON texts give, and
the comparison of two numbers by their difference. Only a conversion that meets an object with
a property in place of its `toString` throws, and is none here. -/
namespace NetworkHealth
variable {F : Type} [NumberFormat F]

/-- White space and line terminators, as `trim` and `Number` take them. -/
def isWhiteSpace (c : UInt16) : Bool :=
  (9 ≤ c && c ≤ 13) || c = 32 || c = 0xA0 || c = 0x1680 || (0x2000 ≤ c && c ≤ 0x200A) ||
    c = 0x2028 || c = 0x2029 || c = 0x202F || c = 0x205F || c = 0x3000 || c = 0xFEFF

def trim (cs : CodeUnits) : CodeUnits :=
  ((cs.dropWhile isWhiteSpace).reverse.dropWhile isWhiteSpace).reverse

theorem trim_trim (cs : CodeUnits) : trim (trim cs) = trim cs := rdropWhile_dropWhile_idempotent isWhiteSpace cs

/-- Digits of a base up to sixteen, at least one. -/
def radixValue (base : ℕ) (cs : CodeUnits) : Option ℕ :=
  if cs = [] then none
  else (cs.mapM hexValue).bind fun ds =>
    if ds.all (· < base) = true then some (ds.foldl (fun n d => base * n + d) 0) else none

/-- The decimal literals of strings: a point needs digits on one side only, and zeros may lead. -/
def decimalLiteral (cs : CodeUnits) : Option ℚ :=
  (scanDecimal cs).bind fun d =>
    if d.whole ≠ [] ∨ d.fractionDigits ≠ [] then some d.value else none

/-- A text that is not empty, without the white space around it. -/
def numericLiteral : CodeUnits → Option (Number F)
  | 48 :: 120 :: cs | 48 :: 88 :: cs => (radixValue 16 cs).map fun n => NumberFormat.nearest n
  | 48 :: 111 :: cs | 48 :: 79 :: cs => (radixValue 8 cs).map fun n => NumberFormat.nearest n
  | 48 :: 98 :: cs | 48 :: 66 :: cs => (radixValue 2 cs).map fun n => NumberFormat.nearest n
  | 43 :: cs => signless false cs
  | 45 :: cs => signless true cs
  | cs => signless false cs
where
  signless (negative : Bool) (cs : CodeUnits) : Option (Number F) :=
    if cs = units "Infinity" then some (.infinite negative)
    else (decimalLiteral cs).map fun q => NumberFormat.nearest (if negative then -q else q)

namespace Number

def ofText (cs : CodeUnits) : Number F :=
  if trim cs = [] then NumberFormat.nearest 0 else (numericLiteral (trim cs)).getD .nan

def toText : Number F → CodeUnits
  | finite x => NumberFormat.text x
  | infinite negative => if negative then units "-Infinity" else units "Infinity"
  | nan => units "NaN"

/-- The sign of the difference, which is zero only between equal numbers. It is nothing to
sort by where the difference is no number. -/
def compareByDifference : Number F → Number F → Ordering
  | finite x, finite y => compare x y
  | finite _, infinite negative => if negative then .gt else .lt
  | infinite negative, finite _ => if negative then .lt else .gt
  | infinite a, infinite b => if a = b then .eq else if a then .lt else .gt
  | nan, _ | _, nan => .eq

end Number

namespace JsonValue

def hasOwn (key : CodeUnits) (members : List (CodeUnits × JsonValue F)) : Bool :=
  members.any (·.1 = key)

mutual

/-- `String(value)`. -/
def toText : JsonValue F → Option CodeUnits
  | null => some (units "null")
  | bool value => some (if value then units "true" else units "false")
  | number value => some value.toText
  | string value => some value
  | array items => (itemTexts items).map commaSeparated
  | object members => if hasOwn (units "toString") members then none else some (units "[object Object]")

/-- The elements as `join` writes them. -/
def itemTexts : List (JsonValue F) → Option (List CodeUnits)
  | [] => some []
  | null :: rest => (itemTexts rest).map ([] :: ·)
  | value :: rest => (toText value).bind fun text => (itemTexts rest).map (text :: ·)

end

/-- `Number(value)`. -/
def toNumber : JsonValue F → Option (Number F)
  | null => some (NumberFormat.nearest 0)
  | bool value => some (NumberFormat.nearest (if value then 1 else 0))
  | number value => some value
  | string value => some (.ofText value)
  | array items => (toText (array items)).map .ofText
  | object members => if hasOwn (units "toString") members then none else some .nan

end JsonValue

example : (NumberFormat.nearest (1 / 10) : Number Binary64).toText = units "0.1" := by decide +kernel
example : (NumberFormat.nearest (10 ^ 21) : Number Binary64).toText = units "1e+21" := by decide +kernel
example : (Number.ofText (units " -2.50e3 ") : Number Binary64).toText = units "-2500" := by decide +kernel

end NetworkHealth
