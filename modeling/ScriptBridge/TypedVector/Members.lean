import ScriptBridge.Registry.Basic

/-!
# The Class of Typed Vectors

Scripts see typed vectors as instances of a class with properties for the type, the contents and
the locks, with elements, and with functions. A vector that names a class for its elements refuses
objects of other classes on every way in.
-/

namespace ScriptBridge

/-- The name of the class of typed vectors. -/
def TypedVector.className : String := "TypedVector"

/-- Whether every object among values may be an element of a vector. -/
def TypedVector.admits {P : Platform} (v : TypedVector) (m : Surroundings P) (values : List Value) :
    Bool :=
  match v.elementClass with
  | none => true
  | some name => values.all fun value => value.object?.all (m.isInstanceOf · name)

namespace TypedVector.Members

variable {P : Platform}

/-! ## Properties -/

/-- A property without a fixed type, given by what a read answers and what a write makes. -/
def dynamic (tag : Tag) (get : TypedVector → Value)
    (set : Value → Surroundings P → TypedVector → Except ScriptError TypedVector) : Accessor P where
  tag := tag
  get := Facet.vector.reader fun v => .ok (get v)
  set? := some fun value m => Facet.vector.writer fun v => (set value m v).map fun v => ((), v)

/-- A property of a fixed type, given by what a read answers and what a write makes. -/
def fixed (target : Target) (get : TypedVector → Value)
    (set : Value → TypedVector → Except ScriptError TypedVector) : Accessor P :=
  .typed target (Facet.vector.reader fun v => .ok (get v))
    (some fun value _ => Facet.vector.writer fun v => (set value v).map fun v => ((), v))

/-- The element type by name. A change that is refused leaves the vector as it is. -/
def type : Accessor P :=
  dynamic .string (fun v => v.type?.elim .null fun type => .string type.name) fun value _ v =>
    if value.isMissing then .ok v
    else do
      let .string name ← Target.string.read value | throw (.typeMismatch .string value.tag)
      let some type := ElementType.ofName? name
        | throw (.usage ("unknown element type '" ++ name ++ "'"))
      return (v.retype? type).getD v

/-- The class that object elements must be instances of, by name. -/
def elementClass : Accessor P :=
  dynamic .string (fun v => v.elementClass.elim .null .string) fun value m v => do
    let name ←
      if value.isMissing then pure none
      else do
        let .string name ← Target.string.read value | throw (.typeMismatch .string value.tag)
        -- only a class that is there can be asked about later on
        if (m.classes.lookup? name).isNone then throw (.unknownClass name)
        pure (some name)
    let some v := v.restrictTo? name
      | throw (.usage "elementClass requires an object vector")
    return v

/-- The elements as an array. A replacement that is refused leaves the vector as it is. -/
def data : Accessor P :=
  dynamic .array (fun v => .ofList v.values) fun value m v =>
    if value.isMissing then .ok v
    else do
      let .array _ items ← Target.array.read value | throw (.typeMismatch .array value.tag)
      return if v.admits m items then (v.assign? items).getD v else v

/-- The number of elements. A change that is refused leaves the vector as it is. -/
def length : Accessor P :=
  fixed .int (fun v => .int (.ofNat v.size)) fun value v => do
    let .int size := value | return v
    if size < 0 then throw (.usage "length must not be negative")
    -- a locked vector, or one without a type, stays as it is
    return (v.resize? size.toNatClampNeg).getD v

/-- Whether the type is locked. -/
def typeLocked : Accessor P :=
  fixed .bool (fun v => .bool v.typeLocked) fun value v =>
    .ok (match value with
      | .bool locked => v.lockType locked
      | _ => v)

/-- Whether the size is locked. -/
def sizeLocked : Accessor P :=
  fixed .bool (fun v => .bool v.sizeLocked) fun value v =>
    .ok (match value with
      | .bool locked => v.lockSize locked
      | _ => v)

/-- The elements. -/
def elements : ElementAccessor P where
  size native := (Facet.vector.demand native).map size
  get native index := (Facet.vector.demand native).map fun v => (v.get? index).getD .undefined
  set index value m := Facet.vector.writer fun v =>
    if v.admits m [value] then
      match v.set? index value with
      | some v => .ok (true, v)
      | none => .ok (false, v)
    else .ok (false, v)

/-- The properties with their names and flags, in the order in which they are bound. -/
def properties : List (String × Accessor P × PropertyFlags) :=
  [("type", type, PropertyFlags.serialized.union .early),
    ("elementClass", elementClass, PropertyFlags.serialized.union .early),
    ("data", data, PropertyFlags.serialized.union .nostore),
    ("length", length, PropertyFlags.enumerable.union .nostore),
    ("lockedType", typeLocked, PropertyFlags.serialized.union .late),
    ("lockedSize", sizeLocked, PropertyFlags.serialized.union .late)]

/-- The functions with their names, in the order in which they are bound. -/
def functions : List (String × VectorMethod) :=
  [("push", .push), ("pop", .pop), ("slice", .slice), ("splice", .splice), ("set", .set),
    ("indexOf", .indexOf), ("toArray", .toArray)]

end TypedVector.Members

namespace Registry

variable {P : Platform}

/-- Registers the class of typed vectors. -/
def declareTypedVector (r : Registry P) : Except RegistrationError (ClassNumber × Registry P) := do
  let (c, r) ← r.declareClass TypedVector.className none false
  let r ← r.setFresh c fun _ => .vector .empty
  let r ← TypedVector.Members.properties.foldlM
    (fun r (name, accessor, flags) => r.bindProperty c name accessor flags) r
  let r ← r.bindElements c TypedVector.Members.elements .enumerable
  let r ← TypedVector.Members.functions.foldlM
    (fun r (name, method) => r.bindFunction c name (.vector method)) r
  return (c, r)

/-- The registry that holds the built-in classes and the class of typed vectors. -/
def standard : Except RegistrationError (Registry P) := builtins.declareTypedVector.map Prod.snd

end Registry

end ScriptBridge
