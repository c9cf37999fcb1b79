import ScriptBridge.Value.Basic
import ScriptBridge.Number.Cast

/-!
# Coercion

Truth values, bytes, integers, singles and doubles convert into each other; every other kind
converts to itself only. Numbers are carried over through doubles: a target that holds fewer
numbers is rounded to, or clamped to its range after the fraction is dropped.
-/

namespace ScriptBridge

namespace Value

open Number

/-- A value of the numeric kinds as a double. -/
def number? : Value → Option Float
  | bool b => some (if b then 1.0 else 0.0)
  | byte n => some (doubleOfInt n.toNat)
  | int n => some (doubleOfInt n.toInt)
  | float x => some (doubleOfSingle x)
  | double x => some x
  | _ => none

/-- Whether a number counts as true: all do but the zeros and what is not a number. -/
def numberCountsAsTrue (x : Float) : Bool := x != 0.0 && !x.isNaN

/-- Whether a script takes the value for true. -/
def countsAsTrue : Value → Bool
  | undefined => false
  | null => false
  | bool b => b
  | string s => !s.isEmpty
  | object _ => true
  | array _ _ => true
  | function _ => true
  | v => v.number?.any numberCountsAsTrue

/-- A number as a value of one of the numeric kinds. -/
def ofNumber? (x : Float) : Tag → Option Value
  | .bool => some (bool (numberCountsAsTrue x))
  | .byte => some (byte (byteOfDouble x))
  | .int => some (int (intOfDouble x))
  | .float => some (float (singleOfDouble x))
  | .double => some (double x)
  | _ => none

/-- The value as one of the kind `desired`, if it converts. -/
def coerce? (v : Value) (desired : Tag) : Option Value :=
  if v.tag = desired then some v
  else if v.tag.isNumeric && desired.isNumeric then v.number?.bind (ofNumber? · desired)
  else none

end Value

end ScriptBridge
