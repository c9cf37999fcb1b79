import ScriptBridge.Value.Coercion
import ScriptBridge.Error

/-!
# Conversion Targets

Native code receives values as values of a type of its own: a truth value, a byte, a text, an
object that may be missing, any value at all. A target names such a type. Reading a value as a
target either fails or gives the value in the form in which that type passes it back.
-/

namespace ScriptBridge

/-- The types as which native code can receive a value. -/
inductive Target where
  /-- A truth value. -/
  | bool
  /-- An unsigned 8-bit integer. -/
  | byte
  /-- A signed 32-bit integer. -/
  | int
  /-- A 32-bit floating-point number. -/
  | float
  /-- A 64-bit floating-point number. -/
  | double
  /-- A text. -/
  | string
  /-- An object. -/
  | object
  /-- An object or nothing. -/
  | optionalObject
  /-- A function. -/
  | function
  /-- An array. -/
  | array
  /-- Any value. -/
  | value
deriving DecidableEq, Repr

namespace Target

/-- All targets. -/
def all : List Target :=
  [bool, byte, int, float, double, string, object, optionalObject, function, array, value]

/-- The name of a target. -/
def name : Target → String
  | bool => "bool"
  | byte => "byte"
  | int => "int"
  | float => "float"
  | double => "double"
  | string => "string"
  | object => "object"
  | optionalObject => "optobject"
  | function => "function"
  | array => "array"
  | value => "value"

/-- The target with a given name. -/
def ofName? (name : String) : Option Target := all.find? fun target => target.name == name

/-- The kind that a target asks for; the target for any value asks for none. -/
def tag : Target → Tag
  | bool => .bool
  | byte => .byte
  | int => .int
  | float => .float
  | double => .double
  | string => .string
  | object => .object
  | optionalObject => .object
  | function => .function
  | array => .array
  | value => .undefined

/-- The value as a value of the target type. A missing object may be written as null or left
undefined, and reads as null. -/
def read? : Target → Value → Option Value
  | optionalObject, .null => some .null
  | optionalObject, .undefined => some .null
  | optionalObject, .object h => some (.object h)
  | optionalObject, _ => none
  | value, v => some v
  | target, v => v.coerce? target.tag

/-- The value as a value of the target type, which it has to be convertible to. -/
def read (target : Target) (v : Value) : Except ScriptError Value :=
  match target.read? v with
  | some converted => .ok converted
  | none => .error (.typeMismatch target.tag v.tag)

end Target

end ScriptBridge
