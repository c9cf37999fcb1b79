/-!
# Shortest Decimals

The shortest decimal of a binary floating-point number is the one with the fewest digits among
the decimals that are rounded to that number when they are read; among those it is the nearest.

A positive number is given as `mantissa · 2 ^ exponent`. The reals that round to it form an
interval, closed exactly when the mantissa is even. For one digit, two digits, and so on, the two
neighbours of the number on the decimal grid are tested in exact integer arithmetic; the first
grid with a hit decides.
-/

namespace ScriptBridge.Number

/-- The decimal number `digits · 10 ^ exponent`. -/
structure Decimal where
  /-- The digits, read as one integer. -/
  digits : Nat
  /-- The power of ten of the last digit. -/
  exponent : Int
deriving DecidableEq, Repr

/-- Which of two equally near neighbours is taken. -/
inductive Tie where
  /-- The larger one. -/
  | up
  /-- The one with an even last digit. -/
  | even
deriving DecidableEq, Repr

/-- A positive binary number `mantissa · 2 ^ exponent` of some format. -/
structure Dyadic where
  /-- The integer significand. -/
  mantissa : Nat
  /-- The power of two of the last bit of the significand. -/
  exponent : Int
  /-- The next smaller number of the format is half as far away as the next larger one. -/
  narrowBelow : Bool
deriving DecidableEq, Repr

namespace Dyadic

/-- The power `base ^ exponent`; one when the exponent is negative, so that a product of two such
powers scales a fraction up to an integer. -/
def power (base : Nat) (exponent : Int) : Nat := Nat.pow base exponent.toNat

/-- The nearest decimal with last place `10 ^ place` that is rounded back to the number, if there
is one. -/
def onGrid? (tie : Tie) (x : Dyadic) (place : Int) : Option Nat :=
  -- everything is multiplied by four, so that the ends of the interval, which lie a quarter or half
  -- of a unit of the mantissa away, are integers
  let up := power 2 x.exponent * power 10 (-place)
  let step := 4 * power 2 (-x.exponent) * power 10 place
  let value := 4 * x.mantissa * up
  let low := (4 * x.mantissa - if x.narrowBelow then 1 else 2) * up
  let high := (4 * x.mantissa + 2) * up
  -- a tie is rounded to the even mantissa, which decides about the ends
  let roundsBack := fun (d : Nat) =>
    if x.mantissa % 2 = 0 then low ≤ d * step && d * step ≤ high
    else low < d * step && d * step < high
  let below := value / step
  match roundsBack below, roundsBack (below + 1) with
  | false, false => none
  | true, false => some below
  | false, true => some (below + 1)
  | true, true =>
    -- both neighbours are rounded back: the nearer one wins
    let rest := 2 * (value - below * step)
    if rest < step then some below
    else if step < rest then some (below + 1)
    else match tie with
      | .up => some (below + 1)
      | .even => some (if below % 2 = 0 then below else below + 1)

/-- The power of ten of the leading digit. -/
def leadingPlace (x : Dyadic) : Int :=
  if 0 ≤ x.exponent then
    ((Nat.toDigits 10 (x.mantissa * power 2 x.exponent)).length : Int) - 1
  else
    -- a negative power of two is the same power of five, moved by as many decimal places
    ((Nat.toDigits 10 (x.mantissa * power 5 (-x.exponent))).length : Int) - 1 + x.exponent

/-- The first grid with a hit, from `10 ^ place` downwards; the digits below are dropped when
`count` grids had none. -/
def search (tie : Tie) (x : Dyadic) : (count : Nat) → (place : Int) → Decimal
  | 0, place =>
    ⟨x.mantissa * power 2 x.exponent * power 10 (-place)
      / (power 2 (-x.exponent) * power 10 place), place⟩
  | count + 1, place =>
    match x.onGrid? tie place with
    | some digits => ⟨digits, place⟩
    | none => search tie x count (place - 1)

/-- The shortest decimal that is rounded back to the number. Seventeen digits always suffice. -/
def shortest (tie : Tie) (x : Dyadic) : Decimal :=
  let found := search tie x 17 x.leadingPlace
  -- a number just below a power of ten may be rounded up to it on the first grid
  if found.digits % 10 = 0 then ⟨found.digits / 10, found.exponent + 1⟩ else found

end Dyadic

/-- A floating-point number, taken apart. -/
inductive Parts where
  /-- Not a number. -/
  | nan
  /-- An infinity, negative or positive. -/
  | infinity (negative : Bool)
  /-- A zero, negative or positive. -/
  | zero (negative : Bool)
  /-- A finite number other than zero. -/
  | finite (negative : Bool) (magnitude : Dyadic)
deriving DecidableEq, Repr

/-- Takes an unpacked number apart; `precision` is the number of bits of a full significand and
`lowest` the exponent of the smallest number of the format. -/
def partsOf (precision : Nat) (lowest : Int) : Float.Model.UnpackedFloat → Parts
  | .notANumber => .nan
  | .infinity sign => .infinity (sign == .negative)
  | .zero sign => .zero (sign == .negative)
  | .finite sign mantissa exponent _ =>
    .finite (sign == .negative)
      ⟨mantissa, exponent, mantissa == Nat.pow 2 (precision - 1) && lowest < exponent⟩

/-- The parts of a double. -/
def partsOfDouble (x : Float) : Parts := partsOf 53 (-1074) x.toModel.unpack

/-- The parts of a single. -/
def partsOfSingle (x : Float32) : Parts := partsOf 24 (-149) x.toModel.unpack

end ScriptBridge.Number
