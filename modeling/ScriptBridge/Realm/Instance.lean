import ScriptBridge.Realm.Property

/-!
# Instances

How instances of classes come into being: by construction, as a script would; around native state
that exists already; or once and for all, for a singleton class.
-/

namespace ScriptBridge.Realm

variable {P : Platform}

/-- Makes an instance of a class. -/
def instantiate (c : ClassNumber) (r : Realm P) : Handle × Realm P :=
  if c = .object then r.newObject
  else if c = .array then r.newArray []
  else
    let native? := (r.registry.resolveFresh? c).map fun fresh => fresh r.world
    r.allocate (.ofForm (.instanceOf c native?))

/-- Makes an instance of a class that scripts may construct. -/
def construct (name : String) : Action P Handle := do
  let r ← get
  let some c := r.registry.lookup? name | throw (.unknownClass name)
  if (r.registry.get? c).any fun d => d.outline.singleton then throw (.notConstructible name)
  modifyGet (instantiate c)

/-- Makes an instance of a class that is not built in, around native state. -/
def wrapNative (name : String) (native : Native P.Layer) : Action P Handle := do
  let r ← get
  let some c := r.registry.lookup? name | throw (.unknownClass name)
  if (r.registry.get? c).all fun d => d.outline.builtin then throw (.unknownClass name)
  modifyGet (allocate (.ofForm (.instanceOf c (some native))))

/-- The installed instance of a singleton class. -/
def singleton? (r : Realm P) (name : String) : Option Handle := do
  r.singletons.lookup (← r.registry.lookup? name)

/-- Makes the instance of a singleton class, unless there is one, and puts it into the global
variable of the same name. The instance stays alive. -/
def publishSingleton (name : String) : Action P Handle := do
  let r ← get
  let some c := r.registry.lookup? name | throw (.unknownClass name)
  match r.singletons.lookup c with
  | some h => return h
  | none =>
    let h ← modifyGet (instantiate c)
    -- it counts as installed before anyone can see it in its global variable
    modify fun r => { r.protect h with singletons := (c, h) :: r.singletons }
    assignProperty r.globals name (.object h)
    return h

/-- The function behind a handle. -/
def function? (r : Realm P) (h : Handle) : Option (FunctionObject P) :=
  (r.heap.get? h).bind ScriptObject.function?

end ScriptBridge.Realm
