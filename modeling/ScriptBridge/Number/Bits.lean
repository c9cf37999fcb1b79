/-!
# The Bits of Numbers

Floating-point numbers are written exactly as the hexadecimal digits of their bits. What is not a
number has many bit patterns and one text.
-/

namespace ScriptBridge.Number

/-- The text of everything that is not a number. -/
def nanText : String := "nan"

/-- The last `width` hexadecimal digits of a number. -/
def hexText (width n : Nat) : String :=
  let digits := Nat.toDigits 16 n
  String.ofList (List.replicate (width - digits.length) '0' ++ digits)

/-- The value of hexadecimal digits. -/
def hexValue (text : String) : Nat :=
  text.toList.foldl (fun n c =>
    16 * n + if c.isDigit then c.toNat - 48 else c.toLower.toNat - 87) 0

/-- The bits of a double. -/
def doubleBits (x : Float) : String := if x.isNaN then nanText else hexText 16 x.toBits.toNat

/-- The bits of a single. -/
def singleBits (x : Float32) : String := if x.isNaN then nanText else hexText 8 x.toBits.toNat

/-- The double with the given bits. -/
def doubleOfBits (text : String) : Float :=
  if text = nanText then 0.0 / 0.0 else Float.ofBits (.ofNat (hexValue text))

/-- The single with the given bits. -/
def singleOfBits (text : String) : Float32 :=
  if text = nanText then 0.0 / 0.0 else Float32.ofBits (.ofNat (hexValue text))

end ScriptBridge.Number
