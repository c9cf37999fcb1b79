import ScriptBridge.Value.Target

/-!
# Element Types

The types that the elements of a typed vector can be declared to have. Each has a carrier, a zero,
and the two ways between values and elements: reading by coercion, which may fail, and writing.

Main statement: `ElementType.read?_write`, an element that is written reads back as itself.
-/

namespace ScriptBridge

/-- The type of the elements of a typed vector. -/
inductive ElementType where
  /-- Truth values. -/
  | bool
  /-- Unsigned 8-bit integers. -/
  | byte
  /-- Signed 32-bit integers. -/
  | int
  /-- 32-bit floating-point numbers. -/
  | float
  /-- 64-bit floating-point numbers. -/
  | double
  /-- Texts. -/
  | string
  /-- Objects, which may be missing. -/
  | object
deriving DecidableEq, Repr

namespace ElementType

/-- All element types. -/
def all : List ElementType := [bool, byte, int, float, double, string, object]

/-- The name of an element type in scripts. -/
def name : ElementType → String
  | bool => "bool"
  | byte => "byte"
  | int => "int"
  | float => "float"
  | double => "double"
  | string => "string"
  | object => "object"

/-- The element type with a given name. -/
def ofName? (name : String) : Option ElementType := all.find? (fun type => type.name == name)

/-- The kind of the elements as values. -/
def tag : ElementType → Tag
  | bool => .bool
  | byte => .byte
  | int => .int
  | float => .float
  | double => .double
  | string => .string
  | object => .object

/-- The element type that a vector without a type takes from its first value. -/
def ofTag? : Tag → Option ElementType
  | .bool => some bool
  | .byte => some byte
  | .int => some int
  | .float => some float
  | .double => some double
  | .string => some string
  | .object => some object
  | _ => none

/-- What a vector of this type holds. -/
abbrev Carrier : ElementType → Type
  | bool => Bool
  | byte => UInt8
  | int => Int32
  | float => Float32
  | double => Float
  | string => String
  | object => Option Handle

/-- The element that new places are filled with. -/
def zero : (type : ElementType) → type.Carrier
  | bool => false
  | byte => 0
  | int => 0
  | float => 0.0
  | double => 0.0
  | string => ""
  | object => none

/-- Equality of elements; floating-point numbers are compared as numbers. -/
def same : (type : ElementType) → type.Carrier → type.Carrier → Bool
  | bool, a, b => Bool.decEq a b |>.decide
  | byte, a, b => (a : UInt8) == b
  | int, a, b => (a : Int32) == b
  | float, a, b => (a : Float32) == b
  | double, a, b => (a : Float) == b
  | string, a, b => (a : String) == b
  | object, a, b => (a : Option Handle) == b

/-- An element as a value; a missing object is null. -/
def write : (type : ElementType) → type.Carrier → Value
  | bool, b => .bool b
  | byte, n => .byte n
  | int, n => .int n
  | float, x => .float x
  | double, x => .double x
  | string, s => .string s
  | object, h => Value.ofObject? h

/-- A value as an element, by coercion. -/
def read? : (type : ElementType) → Value → Option type.Carrier
  | bool, v => match v.coerce? .bool with
    | some (.bool b) => some b
    | _ => none
  | byte, v => match v.coerce? .byte with
    | some (.byte n) => some n
    | _ => none
  | int, v => match v.coerce? .int with
    | some (.int n) => some n
    | _ => none
  | float, v => match v.coerce? .float with
    | some (.float x) => some x
    | _ => none
  | double, v => match v.coerce? .double with
    | some (.double x) => some x
    | _ => none
  | string, v => v.text?
  | object, v => match v with
    | .null => some none
    | .undefined => some none
    | .object h => some (some h)
    | _ => none

/-- Several values as elements: all of them or none. -/
def readAll? (type : ElementType) : List Value → Option (List type.Carrier)
  | [] => some []
  | v :: vs => do
    let x ← type.read? v
    let xs ← type.readAll? vs
    return x :: xs

/-- As many elements are read as there are values. -/
theorem length_of_readAll? {type : ElementType} {vs : List Value} {xs : List type.Carrier}
    (h : type.readAll? vs = some xs) : xs.length = vs.length := by
  induction vs generalizing xs with
  | nil =>
    rw [readAll?, Option.some.injEq] at h
    subst h
    rfl
  | cons v vs ih =>
    -- the head and the tail have both been read
    simp only [readAll?, Option.bind_eq_bind, Option.bind_eq_some_iff] at h
    obtain ⟨x, _, ys, hys, hxs⟩ := h
    rw [Option.pure_def, Option.some.injEq] at hxs
    subst hxs
    rw [List.length_cons, List.length_cons, ih hys]

/-- An element that is written reads back as itself. -/
@[simp] theorem read?_write (type : ElementType) (x : type.Carrier) :
    type.read? (type.write x) = some x := by
  cases type
  case object => cases x <;> rfl
  all_goals rfl

/-- Elements that are written read back as themselves. -/
@[simp] theorem readAll?_map_write (type : ElementType) (xs : List type.Carrier) :
    type.readAll? (xs.map type.write) = some xs := by
  induction xs with
  | nil => rfl
  | cons x xs ih => simp [readAll?, ih]

end ElementType

end ScriptBridge
