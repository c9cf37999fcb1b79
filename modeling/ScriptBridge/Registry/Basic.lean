import ScriptBridge.Registry.Accessor

/-!
# The Registry

The registry holds the classes that scripts may use, with their properties, their functions and
the native state of fresh instances, and the global functions. It is filled once, before a realm
is made. A registration that fails changes nothing.

What a class does not declare itself is looked up on its ancestors, nearest first.
-/

namespace ScriptBridge

/-- Functions by name. -/
abbrev Procedures (P : Platform) := Table (Procedure P)

/-- A registered class. -/
structure RegisteredClass (P : Platform) where
  /-- Name, parent and marks. -/
  outline : ClassOutline
  /-- Own properties. -/
  properties : Table (BoundProperty P)
  /-- Own elements. -/
  elements : Option (BoundElements P)
  /-- Own functions. -/
  functions : Procedures P
  /-- The native state of a fresh instance, as the world is when it is made. -/
  fresh : Option (P.World → Native P.Layer)

/-- A class without members. -/
def RegisteredClass.ofOutline {P : Platform} (outline : ClassOutline) : RegisteredClass P :=
  ⟨outline, .empty, none, .empty, none⟩

/-- The classes and the global functions. -/
structure Registry (P : Platform) where
  /-- The classes, by number. -/
  classes : Array (RegisteredClass P)
  /-- The global functions. -/
  globals : Procedures P

namespace Registry

variable {P : Platform}

/-- The names and parents of the classes. -/
def tree (r : Registry P) : ClassTree := ⟨r.classes.map RegisteredClass.outline⟩

/-! ## Registration -/

/-- Adds a class at the end. -/
def push (r : Registry P) (outline : ClassOutline) : Registry P :=
  { r with classes := r.classes.push (.ofOutline outline) }

/-- The registry that holds the classes of plain objects and of arrays. -/
def builtins : Registry P :=
  (Registry.push ⟨#[], .empty⟩ ⟨"Object", none, false, true⟩).push ⟨"Array", none, false, true⟩

/-- Registers a class under a new name, as an extension of `parent` if that is given. -/
def declareClass (r : Registry P) (name : String) (parent : Option String) (singleton : Bool) :
    Except RegistrationError (ClassNumber × Registry P) :=
  if (r.tree.lookup? name).isSome then .error (.duplicateClass name)
  else match parent with
    | none => .ok (⟨r.classes.size⟩, r.push ⟨name, none, singleton, false⟩)
    | some parentName =>
      match r.tree.lookup? parentName with
      | none => .error (.unknownParent name parentName)
      | some c => .ok (⟨r.classes.size⟩, r.push ⟨name, some c, singleton, false⟩)

/-- The class with a given number. -/
def get? (r : Registry P) (c : ClassNumber) : Option (RegisteredClass P) := r.classes[c.index]?

/-- The class with a given number, which has to exist. -/
def demand (r : Registry P) (c : ClassNumber) : Except RegistrationError (RegisteredClass P) :=
  match r.get? c with
  | some d => .ok d
  | none => .error (.unknownClass ("#" ++ toString c.index))

/-- Replaces a class. -/
def setClass (r : Registry P) (c : ClassNumber) (d : RegisteredClass P) : Registry P :=
  { r with classes := r.classes.setIfInBounds c.index d }

/-- Sets the native state of fresh instances of a class. -/
def setFresh (r : Registry P) (c : ClassNumber) (native : P.World → Native P.Layer) :
    Except RegistrationError (Registry P) := do
  let d ← r.demand c
  return r.setClass c { d with fresh := some native }

/-- Refuses flags that contradict each other. -/
def requireConsistentFlags (property : String) (flags : PropertyFlags) :
    Except RegistrationError Unit :=
  if flags.contains (PropertyFlags.early.union .late) then
    .error (.invalidFlags property "EARLY and LATE are mutually exclusive")
  else .ok ()

/-- Binds a property. One without a setter becomes read-only. -/
def bindProperty (r : Registry P) (c : ClassNumber) (name : String) (accessor : Accessor P)
    (flags : PropertyFlags) : Except RegistrationError (Registry P) := do
  requireConsistentFlags name flags
  let d ← r.demand c
  if d.properties.contains name then throw (.propertyRedefinition d.outline.name name)
  -- what has no setter can only be read, whatever the flags say
  let flags := if accessor.acceptsWrites then flags else flags.union .readonly
  return r.setClass c { d with properties := d.properties.insert name ⟨name, flags, accessor⟩ }

/-- Binds the elements of an array-like class. -/
def bindElements (r : Registry P) (c : ClassNumber) (accessor : ElementAccessor P)
    (flags : PropertyFlags) : Except RegistrationError (Registry P) := do
  requireConsistentFlags "[]" flags
  let d ← r.demand c
  if d.elements.isSome then throw (.propertyRedefinition d.outline.name "[]")
  return r.setClass c { d with elements := some ⟨flags, accessor⟩ }

/-- Binds a function on a class. -/
def bindFunction (r : Registry P) (c : ClassNumber) (name : String) (procedure : Procedure P) :
    Except RegistrationError (Registry P) := do
  let d ← r.demand c
  if d.functions.contains name then throw (.functionRedefinition d.outline.name name)
  return r.setClass c { d with functions := d.functions.insert name procedure }

/-- Binds a function on a built-in class. -/
def bindBuiltinFunction (r : Registry P) (className name : String) (procedure : Procedure P) :
    Except RegistrationError (Registry P) :=
  match r.tree.lookup? className with
  | none => .error (.unknownClass className)
  | some c =>
    match r.tree.get? c with
    | some outline =>
      if outline.builtin then r.bindFunction c name procedure else .error (.notBuiltin className)
    | none => .error (.notBuiltin className)

/-- Binds a global function. -/
def bindGlobal (r : Registry P) (name : String) (procedure : Procedure P) :
    Except RegistrationError (Registry P) :=
  if r.globals.contains name then .error (.functionRedefinition "<global>" name)
  else .ok { r with globals := r.globals.insert name procedure }

/-! ## Look-up -/

/-- The class with a given name. -/
def lookup? (r : Registry P) (name : String) : Option ClassNumber := r.tree.lookup? name

/-- The class with a given name. -/
def registered? (r : Registry P) (name : String) : Option (RegisteredClass P) :=
  (r.lookup? name).bind r.get?

/-- The name of a class. -/
def name? (r : Registry P) (c : ClassNumber) : Option String :=
  (r.get? c).map fun d => d.outline.name

/-- A class and its ancestors, nearest first. -/
def hierarchy (r : Registry P) (c : ClassNumber) : List ClassNumber := r.tree.hierarchy c

/-- Whether a class is `ancestor` or derives from it. -/
def derivesFrom (r : Registry P) (c ancestor : ClassNumber) : Bool := r.tree.derivesFrom c ancestor

/-- A class and its ancestors with their members, nearest first. -/
def lineage (r : Registry P) (c : ClassNumber) : List (RegisteredClass P) :=
  (r.hierarchy c).filterMap r.get?

/-- The property of a given name: the one of the nearest class that declares it. -/
def resolveProperty? (r : Registry P) (c : ClassNumber) (name : String) :
    Option (BoundProperty P) :=
  (r.lineage c).findSome? fun d => d.properties.find? name

/-- The elements of an array-like class: those of the nearest class that declares any. -/
def resolveElements? (r : Registry P) (c : ClassNumber) : Option (BoundElements P) :=
  (r.lineage c).findSome? RegisteredClass.elements

/-- The function of a given name: the one of the nearest class that declares it. -/
def resolveFunction? (r : Registry P) (c : ClassNumber) (name : String) : Option (Procedure P) :=
  (r.lineage c).findSome? fun d => d.functions.find? name

/-- The native state of fresh instances: that of the nearest class that declares it. -/
def resolveFresh? (r : Registry P) (c : ClassNumber) : Option (P.World → Native P.Layer) :=
  (r.lineage c).findSome? RegisteredClass.fresh

/-- All properties of a class, those of its ancestors first. A name that a class declares again
keeps the place of the ancestor and stands for the property of the class. -/
def visibleProperties (r : Registry P) (c : ClassNumber) : List (BoundProperty P) :=
  -- the most distant ancestor is written first and so decides about the places
  ((r.lineage c).reverse.foldl (fun (found : Table (BoundProperty P)) d =>
    d.properties.entries.foldl (fun found entry => found.insert entry.1 entry.2) found)
    .empty).values

/-- The names of the properties that are listed for instances of a class. -/
def listedNames (r : Registry P) (c : ClassNumber) : List String :=
  ((r.visibleProperties c).filter fun b => b.flags.contains .enumerable).map BoundProperty.name

end Registry

end ScriptBridge
