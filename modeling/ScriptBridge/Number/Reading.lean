/-!
# Reading Decimals

The value of a written decimal is its digits, gathered in a 64-bit word, scaled by a power of ten.
The word is rounded to a double first, and each scaling step rounds again. Powers of ten beyond
`10 ^ 308` are applied in steps, so that very small numbers fade to zero; a number that grows past
the largest double has no value.
-/

namespace ScriptBridge.Number

/-- The largest power of ten that is applied in one step. -/
def largestPower : Nat := 308

/-- The double nearest to `10 ^ n`, for `n` up to `largestPower`. -/
def powerOfTen (n : Nat) : Float := Float.ofScientific 1 false n

/-- Divides `x` by `10 ^ n`, in steps of at most `10 ^ largestPower`. -/
def scaleDown (x : Float) (n : Nat) : Float :=
  if n ≤ largestPower then x / powerOfTen n
  -- a zero stays what it is, however far it is scaled
  else if x == 0.0 then x
  else scaleDown (x / powerOfTen largestPower) (n - largestPower)
termination_by n
decreasing_by simp only [largestPower] at *; omega

/-- The value of `significand · 10 ^ exponent`; `none` when it is too large for a double. -/
def scaled? (significand : UInt64) (exponent : Int) : Option Float :=
  let x := significand.toFloat
  if exponent < 0 then some (scaleDown x exponent.natAbs)
  else if exponent.toNat ≤ largestPower then
    let y := x * powerOfTen exponent.toNat
    if y.isInf then none else some y
  else if x == 0.0 then some x
  else none

end ScriptBridge.Number
