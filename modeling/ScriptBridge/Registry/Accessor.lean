import ScriptBridge.Registry.ClassTree
import ScriptBridge.Heap.Basic
import ScriptBridge.PropertyFlags
import ScriptBridge.Error

/-!
# Accessors

A property of a class reads and writes native state through an accessor. A setter is told about
the write that it takes part in: whether the value comes out of a snapshot, and what the heap and
the classes are, so that it can look at the object that it is given. It can change the native
state of its own receiver and the world of the embedding program, and nothing else.
-/

namespace ScriptBridge

/-- The surroundings of a write. -/
structure Surroundings (P : Platform) where
  /-- The value comes out of a snapshot. -/
  deserializing : Bool
  /-- The objects. -/
  heap : Heap P
  /-- The classes. -/
  classes : ClassTree

namespace Surroundings

variable {P : Platform}

/-- Whether a handle resolves. -/
def resolves (m : Surroundings P) (h : Handle) : Bool := m.heap.contains h

/-- The class of an instance. -/
def class? (m : Surroundings P) (h : Handle) : Option ClassNumber := do
  let c ← (← m.heap.get? h).class?
  let _ ← m.classes.get? c
  return c

/-- The name of the class of an instance. -/
def className? (m : Surroundings P) (h : Handle) : Option String := do
  let c ← (← m.heap.get? h).class?
  return (← m.classes.get? c).name

/-- Whether an object is an instance of a class or of one that derives from it. -/
def isInstanceOf (m : Surroundings P) (h : Handle) (name : String) : Bool :=
  match (m.heap.get? h).bind ScriptObject.class?, m.classes.lookup? name with
  | some c, some ancestor => m.classes.derivesFrom c ancestor
  | _, _ => false

/-- The items of an array. -/
def items? (m : Surroundings P) (h : Handle) : Option (Array Value) :=
  (m.heap.get? h).bind ScriptObject.items?

end Surroundings

/-- What a setter works on: the native state of its receiver, and the world. -/
structure Receiver (P : Platform) where
  /-- The native state. -/
  native : Native P.Layer
  /-- The world of the embedding program. -/
  world : P.World

/-- A step of native code on its receiver, which may fail; what it has changed by then stays. -/
abbrev NativeAction (P : Platform) (α : Type) := ExceptT ScriptError (StateM (Receiver P)) α

/-- Reads a property off a part of the receiver. -/
def Facet.reader {P : Platform} {α : Type} (facet : Facet P.Layer α)
    (get : α → Except ScriptError Value) (native : Native P.Layer) : Except ScriptError Value :=
  facet.demand native >>= get

/-- Writes a property into a part of the receiver. -/
def Facet.writer {P : Platform} {α β : Type} (facet : Facet P.Layer α)
    (set : α → Except ScriptError (β × α)) : NativeAction P β := do
  let part ← facet.demand (← get).native
  -- a setter that fails leaves the part as it was
  let (answer, part) ← set part
  modify fun receiver => { receiver with native := facet.replace part receiver.native }
  return answer

/-- How a property is read and written. -/
structure Accessor (P : Platform) where
  /-- The kind of the property. -/
  tag : Tag
  /-- Reads the property. -/
  get : Native P.Layer → Except ScriptError Value
  /-- Writes the property, if it can be written. -/
  set? : Option (Value → Surroundings P → NativeAction P Unit)

namespace Accessor

variable {P : Platform}

/-- Whether there is a setter. -/
def acceptsWrites (a : Accessor P) : Bool := a.set?.isSome

/-- Writes the property; without a setter it is read-only. -/
def write (a : Accessor P) (value : Value) (m : Surroundings P) : NativeAction P Unit :=
  match a.set? with
  | some set => set value m
  | none => throw (.readOnly "")

/-- An accessor for values of a fixed type. A value is converted before the setter sees it, and a
value that does not convert is refused whatever the receiver is. -/
def typed (target : Target) (get : Native P.Layer → Except ScriptError Value)
    (set? : Option (Value → Surroundings P → NativeAction P Unit)) : Accessor P where
  tag := target.tag
  get := get
  set? := set?.map fun set value m => do
    let converted ← target.read value
    set converted m

end Accessor

/-- How the elements of an array-like class are read and written. -/
structure ElementAccessor (P : Platform) where
  /-- The number of elements. -/
  size : Native P.Layer → Except ScriptError Nat
  /-- Reads an element; one out of range is undefined. -/
  get : Native P.Layer → Nat → Except ScriptError Value
  /-- Stores an element, or tells that it was refused. -/
  set : Nat → Value → Surroundings P → NativeAction P Bool

/-! ## Bindings -/

/-- A property of a class. -/
structure BoundProperty (P : Platform) where
  /-- The name. -/
  name : String
  /-- The flags. -/
  flags : PropertyFlags
  /-- How the property is read and written. -/
  accessor : Accessor P

/-- Whether writes are accepted. -/
def BoundProperty.acceptsWrites {P : Platform} (b : BoundProperty P) : Bool :=
  !b.flags.contains .readonly && b.accessor.acceptsWrites

/-- The elements of an array-like class. -/
structure BoundElements (P : Platform) where
  /-- The flags. -/
  flags : PropertyFlags
  /-- How elements are read and written. -/
  accessor : ElementAccessor P

end ScriptBridge
