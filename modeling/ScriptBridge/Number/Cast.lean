/-!
# Conversions between Number Formats

Doubles, singles and fixed-width integers convert into each other freely on the bridge. A double
becomes a single by rounding to the nearest, ties to even; it becomes an integer by dropping the
fraction and clamping to the range, and what is not a number becomes zero. A single becomes a
double without loss.
-/

namespace ScriptBridge.Number

open Float.Model

/-- The double with the value of a single. -/
def doubleOfSingle (x : Float32) : Float :=
  match x.toModel.unpack with
  | .finite sign mantissa exponent _ =>
    .ofModel (Float.Model.pack (UnpackedFloat.round .binary64 sign mantissa exponent))
  | other => .ofModel (Float.Model.pack other)

/-- The single nearest to a double; of two at the same distance, the even one. -/
def singleOfDouble (x : Float) : Float32 :=
  match x.toModel.unpack with
  | .finite sign mantissa exponent _ =>
    .ofModel (Float32.Model.pack (UnpackedFloat.round .binary32 sign mantissa exponent))
  | other => .ofModel (Float32.Model.pack other)

/-- The whole part of a double, clamped to `low … high`; zero for what is not a number. -/
def truncate (low high : Int) (x : Float) : Int :=
  max low (min high (x.toModel.unpack.toInt low high))

/-- The byte with the whole part of a double, clamped to the range of bytes. -/
def byteOfDouble (x : Float) : UInt8 := UInt8.ofNat (truncate 0 255 x).toNat

/-- The 32-bit integer with the whole part of a double, clamped to the range. -/
def intOfDouble (x : Float) : Int32 :=
  Int32.ofInt (truncate (-2147483648) 2147483647 x)

/-- The double nearest to an integer. -/
def doubleOfInt (n : Int) : Float :=
  if n < 0 then -Float.ofNat n.natAbs else Float.ofNat n.natAbs

end ScriptBridge.Number
