/-!
# Script Values

A value is what crosses the boundary between native code and scripts: one of eleven kinds, each
with its own payload. Objects and functions are passed by handle; an array is passed by its items
and may remember the heap array that they were read from.
-/

namespace ScriptBridge

/-! ## Handles -/

/-- The name of an object in the heap: a slot and the generation of the slot at the time of the
allocation. When the slot is reused its generation has moved on, and older handles no longer
resolve. -/
structure Handle where
  /-- The slot. -/
  index : UInt32
  /-- The generation of the slot for which the handle was issued. -/
  generation : UInt32
deriving DecidableEq, Repr, Inhabited

/-- A handle as it stands in messages. -/
def Handle.text (h : Handle) : String :=
  toString h.index.toNat ++ "@" ++ toString h.generation.toNat

/-! ## Tags -/

/-- The kinds of values. -/
inductive Tag where
  /-- No value. -/
  | undefined
  /-- A reference without a referent. -/
  | null
  /-- A truth value. -/
  | bool
  /-- An unsigned 8-bit integer. -/
  | byte
  /-- A signed 32-bit integer. -/
  | int
  /-- A 32-bit floating-point number. -/
  | float
  /-- A 64-bit floating-point number. -/
  | double
  /-- A text. -/
  | string
  /-- An object handle. -/
  | object
  /-- An array. -/
  | array
  /-- A function handle. -/
  | function
deriving DecidableEq, Repr

namespace Tag

/-- All tags. -/
def all : List Tag :=
  [undefined, null, bool, byte, int, float, double, string, object, array, function]

/-- The name of a tag in messages and in scripts. -/
def name : Tag → String
  | undefined => "undefined"
  | null => "null"
  | bool => "bool"
  | byte => "byte"
  | int => "int"
  | float => "float"
  | double => "double"
  | string => "string"
  | object => "object"
  | array => "array"
  | function => "function"

/-- The capitalised name of a tag, as it stands in descriptions. -/
def label : Tag → String
  | undefined => "Undefined"
  | null => "Null"
  | bool => "Bool"
  | byte => "Byte"
  | int => "Int"
  | float => "Float"
  | double => "Double"
  | string => "String"
  | object => "Object"
  | array => "Array"
  | function => "Function"

/-- The tag with a given name. -/
def ofName? (name : String) : Option Tag := all.find? (fun tag => tag.name == name)

/-- The kinds that convert into each other freely. -/
def isNumeric : Tag → Bool
  | bool | byte | int | float | double => true
  | _ => false

end Tag

/-! ## Values -/

/-- A value exchanged between native code and scripts. -/
inductive Value where
  /-- No value. -/
  | undefined
  /-- A reference without a referent. -/
  | null
  /-- A truth value. -/
  | bool (b : Bool)
  /-- An unsigned 8-bit integer. -/
  | byte (n : UInt8)
  /-- A signed 32-bit integer. -/
  | int (n : Int32)
  /-- A 32-bit floating-point number. -/
  | float (x : Float32)
  /-- A 64-bit floating-point number. -/
  | double (x : Float)
  /-- A text. -/
  | string (s : String)
  /-- An object. -/
  | object (handle : Handle)
  /-- Items in order, and the heap array that they were read from, if any. -/
  | array (origin : Option Handle) (items : List Value)
  /-- A function. -/
  | function (handle : Handle)
deriving Inhabited

namespace Value

/-- The kind of a value. -/
def tag : Value → Tag
  | undefined => .undefined
  | null => .null
  | bool _ => .bool
  | byte _ => .byte
  | int _ => .int
  | float _ => .float
  | double _ => .double
  | string _ => .string
  | object _ => .object
  | array _ _ => .array
  | function _ => .function

/-- Whether there is no value. -/
def isUndefined : Value → Bool
  | undefined => true
  | _ => false

/-- Whether the value is the reference without a referent. -/
def isNull : Value → Bool
  | null => true
  | _ => false

/-- Whether the value is null or missing. -/
def isMissing (v : Value) : Bool := v.isUndefined || v.isNull

/-- The text of a string. -/
def text? : Value → Option String
  | string s => some s
  | _ => none

/-- The handle of an object. -/
def object? : Value → Option Handle
  | object h => some h
  | _ => none

/-- The handle of a function. -/
def function? : Value → Option Handle
  | function h => some h
  | _ => none

/-- The handle of what a value refers to: an object, a function, or the array that the items of an
array were read from. -/
def reference? : Value → Option Handle
  | object h => some h
  | function h => some h
  | array origin _ => origin
  | _ => none

/-- The items of an array. -/
def items? : Value → Option (List Value)
  | array _ items => some items
  | _ => none

/-- An object, or null when there is none. -/
def ofObject? : Option Handle → Value
  | some h => object h
  | none => null

/-- A list of values as an array of its own. -/
def ofList (items : List Value) : Value := array none items

mutual

/-- Equality of values: of the same kind with equal payloads. Floating-point numbers are compared
as numbers, so zeros agree whatever their sign and what is not a number differs from itself. -/
def same : Value → Value → Bool
  | undefined, undefined => true
  | null, null => true
  | bool a, bool b => a == b
  | byte a, byte b => a == b
  | int a, int b => a == b
  | float a, float b => a == b
  | double a, double b => a == b
  | string a, string b => a == b
  | object a, object b => a == b
  | array o xs, array p ys => sameList xs ys && o == p
  | function a, function b => a == b
  | _, _ => false

/-- Equality of lists of values, item by item. -/
def sameList : List Value → List Value → Bool
  | [], [] => true
  | x :: xs, y :: ys => same x y && sameList xs ys
  | _, _ => false

end

instance : BEq Value := ⟨same⟩

mutual

/-- The handles in a value, in the order in which they stand there; the origin of an array comes
before its items. -/
def handles : Value → List Handle
  | object h => [h]
  | function h => [h]
  | array origin items => origin.toList ++ handlesList items
  | _ => []

/-- The handles in a list of values. -/
def handlesList : List Value → List Handle
  | [] => []
  | v :: vs => handles v ++ handlesList vs

end

/-- The handles in a list of values are those of its items, one after the other. -/
theorem handlesList_eq_flatMap (vs : List Value) : handlesList vs = vs.flatMap handles := by
  induction vs with
  | nil => rfl
  | cons v vs ih => rw [handlesList, ih, List.flatMap_cons]

end Value

end ScriptBridge
