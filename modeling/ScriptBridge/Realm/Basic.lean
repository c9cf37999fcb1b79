import ScriptBridge.Heap.Collector
import ScriptBridge.Heap.Arrays
import ScriptBridge.Registry.Basic
import ScriptBridge.Options

/-!
# Realms

A realm is the place where scripts and native code meet: a heap with its collector, the classes,
the global object, the singletons that have been installed and the errors that wait to be reported
at the end of a frame. The classes of a realm no longer change.

Questions to a realm are functions of the realm. Whatever may fail and change the realm is an
action: what it has changed by the time it fails stays.
-/

namespace ScriptBridge

/-- The place where scripts and native code meet. -/
structure Realm (P : Platform) where
  /-- The heap and its collector. -/
  collector : Collector P
  /-- The classes and the global functions. -/
  registry : Registry P
  /-- The options. -/
  options : Options
  /-- The global object. -/
  globals : Handle
  /-- The instances of the singleton classes that have been installed. -/
  singletons : List (ClassNumber × Handle)
  /-- The errors that have been reported since the end of the last frame. -/
  pending : List ScriptError
  /-- The world of the embedding program. -/
  world : P.World

/-- A step in a realm, which may fail. -/
abbrev Action (P : Platform) (α : Type) := ExceptT ScriptError (StateM (Realm P)) α

namespace Realm

variable {P : Platform}

/-- A realm with a global object and nothing else in its heap. -/
def ofRegistry (registry : Registry P) (options : Options) (world : P.World) : Realm P :=
  let collector : Collector P := .ofThreshold options.collectionThreshold
  let (globals, heap) := collector.heap.allocate (.ofForm .plain)
  { collector := { collector with heap, roots := collector.roots.protect globals }
    registry, options, globals, world
    singletons := []
    pending := [] }

/-! ## The heap of a realm -/

/-- The objects. -/
def heap (r : Realm P) : Heap P := r.collector.heap

/-- Changes the heap. -/
def onHeap {α : Type} (f : Heap P → α × Heap P) (r : Realm P) : α × Realm P :=
  let (answer, heap) := f r.collector.heap
  (answer, { r with collector := { r.collector with heap } })

/-- Changes an object. -/
def modifyObject (h : Handle) (f : ScriptObject P → ScriptObject P) (r : Realm P) : Realm P :=
  { r with collector := { r.collector with heap := r.collector.heap.modify h f } }

/-- Whether a handle resolves. -/
def resolves (r : Realm P) (h : Handle) : Bool := r.heap.contains h

/-- A slot value as it is seen outside of the heap. -/
def expand (r : Realm P) (value : Value) : Value := r.heap.expand value

/-- A value in the form that slots hold. -/
def store (value : Value) : Realm P → Value × Realm P := onHeap fun heap => heap.store value

/-- Stores a new object. -/
def allocate (object : ScriptObject P) : Realm P → Handle × Realm P :=
  onHeap fun heap => heap.allocate object

/-- Makes an empty plain object. -/
def newObject : Realm P → Handle × Realm P := allocate (.ofForm .plain)

/-- Makes an array with the given items. -/
def newArray (items : List Value) : Realm P → Handle × Realm P :=
  onHeap fun heap =>
    let (slots, heap) := heap.storeAll items
    heap.allocate (.ofForm (.array slots.toArray))

/-- Makes a function object. -/
def newFunction (name : String) (body : FunctionBody P) : Realm P → Handle × Realm P :=
  allocate (.ofForm (.function ⟨name, body⟩))

/-! ## Classes of objects -/

/-- The class of an object: the registered class of an instance, or the built-in class of a plain
object or an array. Functions have none. -/
def classOf? (r : Realm P) (h : Handle) : Option ClassNumber :=
  (r.heap.get? h).bind fun object =>
    match object.form with
    | .plain => some .object
    | .array _ => some .array
    | .instanceOf cls _ => some cls
    | .function _ => none

/-- The name of the class of an object. -/
def className? (r : Realm P) (h : Handle) : Option String := (r.classOf? h).bind r.registry.name?

/-- Whether an object is an instance of a class or of one that derives from it. -/
def isInstanceOf (r : Realm P) (h : Handle) (name : String) : Bool :=
  match r.classOf? h, r.registry.lookup? name with
  | some c, some ancestor => r.registry.derivesFrom c ancestor
  | _, _ => false

/-- Whether an object belongs to a singleton class. -/
def isSingletonInstance (r : Realm P) (h : Handle) : Bool :=
  ((r.classOf? h).bind r.registry.get?).any fun d => d.outline.singleton

/-! ## Collection -/

/-- Keeps an object alive until a matching `unprotect`. -/
def protect (h : Handle) (r : Realm P) : Realm P :=
  { r with collector := { r.collector with roots := r.collector.roots.protect h } }

/-- Takes one protection down, and tells whether there was one. -/
def unprotect (h : Handle) (r : Realm P) : Bool × Realm P :=
  let (found, roots) := r.collector.roots.unprotect h
  (found, { r with collector := { r.collector with roots } })

/-- Collects, and tells how many objects were freed. -/
def collect (r : Realm P) : Nat × Realm P :=
  let (freed, collector, world) := r.collector.collect r.world
  (freed, { r with collector, world })

/-- Whether an object has been found unreachable by the collection in progress. -/
def isDying (r : Realm P) (h : Handle) : Bool := r.collector.isDying h

/-! ## Frames -/

/-- Keeps an error for the end of the frame. -/
def report (error : ScriptError) (r : Realm P) : Realm P :=
  { r with pending := r.pending ++ [error] }

/-- Ends the frame: the errors that were kept are done with, and a collection that is due takes
place. The answer is the number of errors. -/
def finishFrame (r : Realm P) : Nat × Realm P :=
  let cleared := { r with pending := [] }
  (r.pending.length, if r.collector.isDue then cleared.collect.2 else cleared)

end Realm

end ScriptBridge
