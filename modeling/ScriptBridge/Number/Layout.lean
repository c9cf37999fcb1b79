import ScriptBridge.Number.Shortest

/-!
# Layouts of Numbers

How the shortest decimal of a floating-point number is written down. Messages write every number
positionally; snapshot texts mark each number as a fraction and turn to an exponent when the
number is very large or very small.
-/

namespace ScriptBridge.Number

/-- The decisions that a text format makes about floating-point numbers. -/
structure Layout where
  /-- What happens between two equally near decimals. -/
  tie : Tie
  /-- Whether a number whose leading digit has this power of ten is written positionally. -/
  positional : Int → Bool
  /-- What follows a whole number that is written positionally. -/
  wholeMark : String
  /-- The text of what is not a number. -/
  nan : String
  /-- The text of the positive infinity. -/
  infinity : String

/-- Messages: every number positionally, whole numbers without a point. -/
def Layout.message : Layout where
  tie := .up
  positional := fun _ => true
  wholeMark := ""
  nan := "NaN"
  infinity := "inf"

/-- Snapshot texts: positional from `10 ^ (-5)` up to below `10 ^ 16`, always with a point.
Numbers that are not finite have no text of their own there. -/
def Layout.json : Layout where
  tie := .even
  positional := fun place => -5 ≤ place && place < 16
  wholeMark := ".0"
  nan := "null"
  infinity := "null"

/-- A decimal written with a point and as many zeros as its exponent asks for. -/
def Decimal.positional (wholeMark : String) (d : Decimal) : String :=
  let digits := Nat.toDigits 10 d.digits
  if 0 ≤ d.exponent then
    String.ofList (digits ++ List.replicate d.exponent.toNat '0') ++ wholeMark
  else
    let places := (-d.exponent).toNat
    -- the point stands among the digits, or in front of all of them
    if places < digits.length then
      String.ofList (digits.take (digits.length - places)) ++ "." ++
        String.ofList (digits.drop (digits.length - places))
    else
      "0." ++ String.ofList (List.replicate (places - digits.length) '0' ++ digits)

/-- A decimal written with one digit before the point and an exponent with its sign. -/
def Decimal.scientific (d : Decimal) : String :=
  let digits := Nat.toDigits 10 d.digits
  let place := d.exponent + (digits.length : Int) - 1
  let exponent := if place < 0 then toString place else "+" ++ toString place
  match digits with
  | [] => ""
  | [digit] => String.ofList [digit] ++ "e" ++ exponent
  | digit :: rest => String.ofList [digit] ++ "." ++ String.ofList rest ++ "e" ++ exponent

/-- The text of a number, given its parts. -/
def Layout.render (layout : Layout) : Parts → String
  | .nan => layout.nan
  | .infinity negative => if negative then "-" ++ layout.infinity else layout.infinity
  | .zero negative => (if negative then "-0" else "0") ++ layout.wholeMark
  | .finite negative magnitude =>
    let d := magnitude.shortest layout.tie
    -- the power of ten of the leading digit chooses between the two ways of writing
    let place := d.exponent + ((Nat.toDigits 10 d.digits).length : Int) - 1
    let text := if layout.positional place then d.positional layout.wholeMark else d.scientific
    if negative then "-" ++ text else text

/-- The text of a double. -/
def Layout.double (layout : Layout) (x : Float) : String := layout.render (partsOfDouble x)

/-- The text of a single. -/
def Layout.single (layout : Layout) (x : Float32) : String := layout.render (partsOfSingle x)

/-- The double that reads the shortest decimal of a single: the decimal that a person would write
for the single, rather than its exact binary value. -/
def asWritten (x : Float32) : Float :=
  match partsOfSingle x with
  | .nan => 0.0 / 0.0
  | .infinity negative => if negative then -1.0 / 0.0 else 1.0 / 0.0
  | .zero negative => if negative then -0.0 else 0.0
  | .finite negative magnitude =>
    let d := magnitude.shortest Layout.message.tie
    let value := Float.ofScientific d.digits (d.exponent < 0) d.exponent.natAbs
    if negative then -value else value

end ScriptBridge.Number
