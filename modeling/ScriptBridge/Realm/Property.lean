import ScriptBridge.Realm.Basic

/-!
# Properties and Elements

A name is looked up on the class of an object, then on each ancestor; what no class of the chain
binds lives in the fields of the object itself. Arrays have their length besides. Elements are
found through the elements that the class binds, among the items of an array, or in the field that
is named by the number.

A setter runs on native state that is put back when it is done, whether it has failed or not.
-/

namespace ScriptBridge.Realm

variable {P : Platform}

/-- A write may lengthen an array by at most this many items. -/
def maxPadding : Nat := 65536

/-! ## Native state -/

/-- What is said of an object without native state. -/
def noNativeError (h : Handle) : ScriptError :=
  .thrown ("object " ++ h.text ++ " has no native state")

/-- What is said of an object whose native state is of another kind. -/
def otherNativeError (h : Handle) (kind : String) : ScriptError :=
  .thrown ("object " ++ h.text ++ " is not a " ++ kind)

/-- The native state of an object. -/
def native (r : Realm P) (h : Handle) : Except ScriptError (Native P.Layer) :=
  match r.heap.get? h with
  | none => .error .deadObject
  | some object =>
    match object.native? with
    | some native => .ok native
    | none => .error (noNativeError h)

/-- A part of the native state of an object. -/
def nativeAs {α : Type} (r : Realm P) (facet : Facet P.Layer α) (h : Handle) :
    Except ScriptError α := do
  match facet.find? (← r.native h) with
  | some part => return part
  | none => throw (otherNativeError h facet.name)

/-- Runs a step of native code on the native state of an object. -/
def onNative {α : Type} (h : Handle) (deserializing : Bool)
    (step : Surroundings P → NativeAction P α) : Action P α := do
  let r ← get
  let native ← r.native h
  let (answer, receiver) :=
    Id.run ((step ⟨deserializing, r.heap, r.registry.tree⟩).run.run ⟨native, r.world⟩)
  -- the state goes back whether the step has failed or not
  set { r.modifyObject h (fun object => object.setNative receiver.native) with
    world := receiver.world }
  answer

/-- Runs a step of native code on a part of the native state of an object. -/
def onPart {α β : Type} (facet : Facet P.Layer α) (h : Handle)
    (step : α → Surroundings P → β × α) : Action P β :=
  onNative h false fun m => do
    match facet.find? (← get).native with
    | none => throw (otherNativeError h facet.name)
    | some part =>
      let (answer, part) := step part m
      modify fun receiver => { receiver with native := facet.replace part receiver.native }
      return answer

/-! ## Properties -/

/-- The property of an object that its class binds. -/
def binding? (r : Realm P) (object : ScriptObject P) (name : String) : Option (BoundProperty P) :=
  object.class?.bind (r.registry.resolveProperty? · name)

/-- Reads a property. A name that is bound nowhere is undefined. -/
def property (r : Realm P) (h : Handle) (name : String) : Except ScriptError Value := do
  let some object := r.heap.get? h | throw .deadObject
  match r.binding? object name with
  | some binding =>
    let some native := object.native? | throw (noNativeError h)
    binding.accessor.get native
  | none =>
    -- the length of an array goes before a field of this name
    match object.items?, name with
    | some items, "length" => return .int (.ofNat items.size)
    | _, _ => return (object.fields.find? name).elim .undefined r.expand

/-- The slot value of a field. -/
def field? (r : Realm P) (h : Handle) (name : String) : Option Value :=
  (r.heap.get? h).bind fun object => object.fields.find? name

/-- Cuts an array off, or fills it up with undefined items. -/
def resized (items : Array Value) (size : Nat) : Array Value :=
  items.take size ++ Array.replicate (size - items.size) .undefined

/-- Sets the length of an array. -/
def setLength (h : Handle) (size : Nat) (value : Value) : Action P Unit := do
  let .int length ← Target.int.read value | throw (.typeMismatch .int value.tag)
  if length < 0 then throw (.usage "array length must not be negative")
  let length := length.toNatClampNeg
  -- a slip in a script must not use up all memory
  if size + maxPadding < length then
    throw (.usage ("array length " ++ toString length ++ " is out of range"))
  modify (modifyObject h fun object => object.mapItems (resized · length))

/-- Stores a value in a field. -/
def setField (h : Handle) (name : String) (value : Value) : Action P Unit := do
  let slot ← modifyGet (store value)
  modify (modifyObject h fun object => object.setField name slot)

/-- Writes a property, on behalf of a snapshot or not. -/
def putProperty (h : Handle) (name : String) (value : Value) (deserializing : Bool) :
    Action P Unit := do
  let r ← get
  let some object := r.heap.get? h | throw .deadObject
  match r.binding? object name with
  | some binding =>
    if !binding.acceptsWrites then throw (.readOnly name)
    -- native code sees arrays with their items
    let value := r.expand value
    onNative h deserializing fun m => binding.accessor.write value m
  | none =>
    match object.items?.map Array.size, name with
    | some size, "length" => setLength h size value
    | _, _ => setField h name value

/-- Writes a property. -/
def assignProperty (h : Handle) (name : String) (value : Value) : Action P Unit :=
  putProperty h name value false

/-- The names of an object: the listed properties of its class, then its other fields. -/
def listedNames (r : Realm P) (h : Handle) : Except ScriptError (List String) := do
  let some object := r.heap.get? h | throw .deadObject
  let listed := object.class?.elim [] r.registry.listedNames
  return listed ++ object.fields.keys.filter fun key => !listed.contains key

/-! ## Elements -/

/-- The elements of an object that its class binds. -/
def elements? (r : Realm P) (object : ScriptObject P) : Option (BoundElements P) :=
  object.class?.bind r.registry.resolveElements?

/-- Reads an element. One that is out of range is undefined. -/
def element (r : Realm P) (h : Handle) (index : Nat) : Except ScriptError Value := do
  let some object := r.heap.get? h | throw .deadObject
  match r.elements? object with
  | some elements =>
    let some native := object.native? | throw (noNativeError h)
    elements.accessor.get native index
  | none =>
    let slot := match object.items? with
      | some items => items[index]?
      | none => object.fields.find? (toString index)
    return slot.elim .undefined r.expand

/-- Stores an item of an array, which is filled up with undefined items when it is too short. -/
def withItem (items : Array Value) (index : Nat) (slot : Value) : Array Value :=
  if index < items.size then items.setIfInBounds index slot
  else (items ++ Array.replicate (index - items.size) Value.undefined).push slot

/-- Writes an element, and tells whether it was accepted. -/
def assignElement (h : Handle) (index : Nat) (value : Value) : Action P Bool := do
  let r ← get
  let some object := r.heap.get? h | throw .deadObject
  match r.elements? object with
  | some elements =>
    let value := r.expand value
    onNative h false fun m => elements.accessor.set index value m
  | none =>
    -- the value is stored first, even if the index is refused afterwards
    let slot ← modifyGet (store value)
    let some object := (← get).heap.get? h | throw .deadObject
    match object.items?.map Array.size with
    | some size =>
      if size + maxPadding < index + 1 then return false
      modify (modifyObject h fun object => object.mapItems (withItem · index slot))
      return true
    | none =>
      modify (modifyObject h fun object => object.setField (toString index) slot)
      return true

/-! ## Globals -/

/-- Reads a global variable. -/
def global (r : Realm P) (name : String) : Except ScriptError Value := r.property r.globals name

/-- Writes a global variable. -/
def assignGlobal (name : String) (value : Value) : Action P Unit := do
  assignProperty (← get).globals name value

end ScriptBridge.Realm
