import ScriptBridge.Scenario.Script

/-!
# Properties of Bags

The properties that scenarios bind read and write slots of bags. A property of a fixed type reads
what its slot holds as a value of that type, and a standard value when it holds none. Setters can
be made to write into the journal, to look at the object that they are given, and to refuse a
value.
-/

namespace ScriptBridge.Scenario

/-- What a property of a type reads when its slot holds nothing of that type. -/
def standardValue : Target → Value
  | .bool => .bool false
  | .byte => .byte 0
  | .int => .int 0
  | .float => .float 0.0
  | .double => .double 0.0
  | .string => .string ""
  | .object => .object unsetHandle
  | .optionalObject => .null
  | .function => .function unsetHandle
  | .array => .ofList []
  | .value => .undefined

/-- What a setter does before it stores a value. -/
structure SetterEffects where
  /-- Writes the value into the journal. -/
  log : Bool
  /-- Looks at an object or an array, and asks whether the object is an instance of this class. -/
  probe : Option String
  /-- Refuses a value with an error. -/
  reject : Option (Term × ScriptError)

/-- The setter that just stores. -/
def SetterEffects.none : SetterEffects := ⟨false, .none, .none⟩

/-- How a property is accessed. -/
inductive Access where
  /-- A property of a fixed type; one without effects cannot be written. -/
  | typed (target : Target) (effects : Option SetterEffects)
  /-- A property without a fixed type, whose getter may fail. -/
  | dynamic (tag : Tag) (getError : Option ScriptError) (effects : Option SetterEffects)

/-- A property of a bag. -/
structure PropertySpec where
  /-- The name. -/
  name : String
  /-- The kind of the bag. -/
  kind : BagKind
  /-- The slot. -/
  slot : String
  /-- How the property is accessed. -/
  access : Access

/-- Writes into the journal from inside a setter. -/
def recordStep (record : Record) : NativeAction platform Unit :=
  modify fun receiver => { receiver with world := Stage.record receiver.world record }

/-- What a setter sees of the value that it is given. -/
def probeRecord? (className : String) (m : Surroundings platform) : Value → Option Record
  | .object h =>
    some (.sawObject (m.resolves h) (m.className? h) (m.isInstanceOf h className)
      ((m.items? h).map Array.size))
  | .array origin _ => some (.sawArray ((origin.bind m.items?).map Array.size) m.classes.size)
  | _ => none

/-- Runs what a setter does before it stores a value. -/
def SetterEffects.run (effects : SetterEffects) (name : String) (value : Value)
    (m : Surroundings platform) : NativeAction platform Unit := do
  if effects.log then recordStep (.written name value m.deserializing)
  match effects.probe.bind (probeRecord? · m value) with
  | some record => recordStep record
  | .none => pure ()
  match effects.reject with
  | some (rejected, error) =>
    let stage : Stage := (← get).world
    if value == rejected.value stage.bindings then throw error
  | .none => pure ()

/-- Stores a value in the slot of a property. -/
def PropertySpec.store (spec : PropertySpec) (effects : SetterEffects) (value : Value)
    (m : Surroundings platform) : NativeAction platform Unit := do
  -- a receiver of another kind fails before anything is written down
  let _ ← spec.kind.facet.demand (← get).native
  effects.run spec.name value m
  Facet.writer (P := platform) spec.kind.facet fun bag => .ok ((), bag.setSlot spec.slot value)

/-- The accessor of a property. -/
def PropertySpec.accessor (spec : PropertySpec) : Accessor platform :=
  match spec.access with
  | .typed target effects =>
    .typed target
      (Facet.reader (P := platform) spec.kind.facet fun bag =>
        .ok (((bag.slot? spec.slot).bind target.read?).getD (standardValue target)))
      (effects.map spec.store)
  | .dynamic tag getError effects =>
    { tag := tag
      get := Facet.reader (P := platform) spec.kind.facet fun bag =>
        match getError with
        | some error => .error error
        | none => .ok ((bag.slot? spec.slot).getD .undefined)
      set? := effects.map spec.store }

/-- Writes a property of a class into a part of the native state of an object, past the checks that
a write to the object would make. -/
def writePart (h : Handle) (part : Facet Bag (Native Bag)) (c : ClassNumber) (name : String)
    (value : Value) : Action platform Unit := do
  let some binding := (← get).registry.resolveProperty? c name | return
  Realm.onNative h false fun m => do
    let receiver ← get
    let some native := part.find? receiver.native | throw (Realm.otherNativeError h part.name)
    -- the accessor sees the part alone, as if it were all there is
    let step := binding.accessor.write value m
    let (answer, after) := Id.run (step.run.run { receiver with native })
    set { after with native := part.replace after.native receiver.native }
    answer

/-! ## Elements -/

/-- The bag of a kind whose items are the elements of the receiver. -/
def elementBag (kind : BagKind) (native : Native Bag) : Except ScriptError Bag :=
  match kind.facet.find? native with
  | some bag => .ok bag
  | none => .error (.thrown "receiver has no items")

/-- The items of a bag as elements. Null is refused with an error, and so is what would leave a
gap, but silently. -/
def elements (kind : BagKind) : ElementAccessor platform where
  size native := (elementBag kind native).map fun bag => bag.items.length
  get native index := (elementBag kind native).map fun bag => bag.items[index]?.getD .undefined
  set index value m := do
    let bag ← elementBag kind (← get).native
    if value.isNull then
      throw (.usage ("null element, deserializing " ++ if m.deserializing then "true" else "false"))
    if bag.items.length < index then return false
    let items :=
      if index = bag.items.length then bag.items ++ [value] else bag.items.set index value
    modify fun receiver =>
      { receiver with native := kind.facet.replace { bag with items } receiver.native }
    return true

end ScriptBridge.Scenario
