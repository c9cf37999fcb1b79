import ScriptBridge.Native
import ScriptBridge.Table

/-!
# Objects

Everything that a script can hold by handle lives in the heap: plain objects, arrays, instances of
registered classes and functions. Each of them has fields of its own beside its kind.
-/

namespace ScriptBridge

/-- The number of a class in the registry. -/
structure ClassNumber where
  /-- The position of the class. -/
  index : Nat
deriving DecidableEq, Repr, Inhabited

/-- The built-in class of plain objects. -/
def ClassNumber.object : ClassNumber := ⟨0⟩

/-- The built-in class of arrays. -/
def ClassNumber.array : ClassNumber := ⟨1⟩

/-- A class number as it stands in descriptions. -/
def ClassNumber.text (c : ClassNumber) : String := "ClassId(" ++ toString c.index ++ ")"

/-- The functions of the typed vector class. -/
inductive VectorMethod where
  /-- Appends the arguments. -/
  | push
  /-- Removes the last element. -/
  | pop
  /-- Copies a part. -/
  | slice
  /-- Replaces a part. -/
  | splice
  /-- Replaces all elements. -/
  | set
  /-- Finds an element. -/
  | indexOf
  /-- Copies the elements into an array. -/
  | toArray
deriving DecidableEq, Repr

/-- A native function: one of the bridge's own, or a callback of the embedding program. -/
inductive Procedure (P : Platform) where
  /-- A function of the typed vector class. -/
  | vector (method : VectorMethod)
  /-- A callback of the embedding program. -/
  | callback (callback : P.Callback)

/-- What a call of a function object runs. -/
inductive FunctionBody (P : Platform) where
  /-- Native code. -/
  | native (procedure : Procedure P)
  /-- A script, whose source text is kept. -/
  | script (source : String)

/-- A function that scripts can call. -/
structure FunctionObject (P : Platform) where
  /-- The name. -/
  name : String
  /-- What a call runs. -/
  body : FunctionBody P

/-- The source text of a function that was written in a script. -/
def FunctionObject.source? {P : Platform} (f : FunctionObject P) : Option String :=
  match f.body with
  | .script source => some source
  | .native _ => none

/-- What a heap object is. -/
inductive ObjectForm (P : Platform) where
  /-- An object without a class of its own. -/
  | plain
  /-- An array. -/
  | array (items : Array Value)
  /-- An instance of a registered class, with its native state if it has one. -/
  | instanceOf (cls : ClassNumber) (native : Option (Native P.Layer))
  /-- A function. -/
  | function (f : FunctionObject P)

/-- An object in the heap. -/
structure ScriptObject (P : Platform) where
  /-- What the object is. -/
  form : ObjectForm P
  /-- The fields, in the order in which they were first written. -/
  fields : Table Value

namespace ScriptObject

variable {P : Platform}

/-- An object without fields. -/
def ofForm (form : ObjectForm P) : ScriptObject P := ⟨form, .empty⟩

/-- The class of an instance. -/
def class? (o : ScriptObject P) : Option ClassNumber :=
  match o.form with
  | .instanceOf cls _ => some cls
  | _ => none

/-- The items of an array. -/
def items? (o : ScriptObject P) : Option (Array Value) :=
  match o.form with
  | .array items => some items
  | _ => none

/-- The native state of an instance that has one. -/
def native? (o : ScriptObject P) : Option (Native P.Layer) :=
  match o.form with
  | .instanceOf _ native => native
  | _ => none

/-- The function that an object is. -/
def function? (o : ScriptObject P) : Option (FunctionObject P) :=
  match o.form with
  | .function f => some f
  | _ => none

/-- Replaces the native state of an instance. -/
def setNative (o : ScriptObject P) (native : Native P.Layer) : ScriptObject P :=
  match o.form with
  | .instanceOf cls _ => { o with form := .instanceOf cls (some native) }
  | _ => o

/-- Writes a field. -/
def setField (o : ScriptObject P) (name : String) (value : Value) : ScriptObject P :=
  { o with fields := o.fields.insert name value }

/-- Changes the items of an array. -/
def mapItems (o : ScriptObject P) (f : Array Value → Array Value) : ScriptObject P :=
  match o with
  | ⟨.array items, fields⟩ => ⟨.array (f items), fields⟩
  | o => o

/-- The handles that an object keeps alive: those in its fields, then those in its items or in its
native state. -/
def handles (o : ScriptObject P) : List Handle :=
  Value.handlesList o.fields.values ++
    match o.form with
    | .array items => Value.handlesList items.toList
    | .instanceOf _ (some native) => P.handlesOf native
    | _ => []

/-- What an object is, as it stands in descriptions. -/
def formText (o : ScriptObject P) : String :=
  match o.form with
  | .plain => "Plain"
  | .array items => "Array(len=" ++ toString items.size ++ ")"
  | .instanceOf cls native =>
    "Instance(class=" ++ cls.text ++ ", native=" ++ toString native.isSome ++ ")"
  | .function f => "Function(" ++ f.name ++ ")"

end ScriptObject

end ScriptBridge
