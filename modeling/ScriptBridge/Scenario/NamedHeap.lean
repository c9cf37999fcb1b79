import ScriptBridge.Scenario.Script

/-!
# Heaps with Named Objects

A scenario about collections alone needs no realm: it allocates objects under names, links them,
protects some of them and collects.
-/

namespace ScriptBridge.Scenario

/-- A heap with its collector, and names for objects. -/
structure NamedHeap where
  /-- The heap and its collector. -/
  collector : Collector platform
  /-- The names, with the handles that they were given for. -/
  names : List (String × Handle)

/-- How one object refers to another one. -/
inductive Link where
  /-- By an object value. -/
  | object
  /-- By a function value. -/
  | function
  /-- From inside an array. -/
  | item
  /-- By being the origin of an array. -/
  | origin

/-- The value that refers to an object. -/
def Link.value (h : Handle) : Link → Value
  | object => .object h
  | function => .function h
  | item => .ofList [.int 1, .object h]
  | origin => .array (some h) []

namespace NamedHeap

/-- The empty heap. -/
def ofThreshold (threshold : Nat) : NamedHeap := ⟨.ofThreshold threshold, []⟩

/-- The handle that a name was given for last. -/
def find? (s : NamedHeap) (name : String) : Option Handle := s.names.lookup name

/-- The last name that was given for a handle. -/
def name? (s : NamedHeap) (h : Handle) : Option String :=
  (s.names.find? fun named => named.2 == h).map Prod.fst

/-- Allocates an object under a name. -/
def allocate (s : NamedHeap) (name : String) (form : ObjectForm platform) : NamedHeap :=
  let (h, heap) := s.collector.heap.allocate (.ofForm form)
  { collector := { s.collector with heap }
    names := (name, h) :: s.names.filter fun named => named.1 != name }

/-- Changes the fields of an object. -/
def modifyFields (s : NamedHeap) (h : Handle) (f : Table Value → Table Value) : NamedHeap :=
  let heap := s.collector.heap.modify h fun object => { object with fields := f object.fields }
  { s with collector := { s.collector with heap } }

/-- Whether an object has a field; nothing is known of an object that is not there. -/
def hasField? (s : NamedHeap) (h : Handle) (field : String) : Option Bool :=
  (s.collector.heap.get? h).map fun object => object.fields.contains field

/-- Replaces the protected handles. -/
def setRoots (s : NamedHeap) (roots : Roots) : NamedHeap :=
  { s with collector := { s.collector with roots } }

/-- The names of the objects that an object keeps alive; an object that is not there keeps none. -/
def references (s : NamedHeap) (h : Handle) : List (Option String) :=
  ((s.collector.heap.get? h).elim [] ScriptObject.handles).map s.name?

/-- The names of the objects that are there, sorted. -/
def aliveNames (s : NamedHeap) : List String :=
  ((s.names.filter fun named => s.collector.heap.contains named.2).map Prod.fst).mergeSort
    fun a b => !(b < a)

/-- Collects, and tells how many objects were freed. -/
def collect (s : NamedHeap) : Nat × NamedHeap :=
  let (freed, collector, _) := s.collector.collect .empty
  (freed, { s with collector })

end NamedHeap

end ScriptBridge.Scenario
