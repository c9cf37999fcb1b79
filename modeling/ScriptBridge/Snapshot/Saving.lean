import ScriptBridge.Snapshot.Basic
import ScriptBridge.Realm.Property
import ScriptBridge.Number.Layout

/-!
# Saving

Saving walks an object graph depth first. The first way to an object makes its node, before its
properties are looked at; every further way makes a stub. A node receives an identifier when the
first stub to it is made. An array has no node: it is written out wherever it is met, and cut with
null where it contains itself.

A copy, unlike a snapshot that is kept, takes all writable properties along that are stored
somewhere, and shares what is found under the names of a mask.
-/

namespace ScriptBridge

/-- The field that keeps an object out of snapshots when it holds a truth. -/
def Snapshot.transientField : String := "__transient__"

/-- How far a graph has been saved. -/
structure Saving where
  /-- The nodes so far. -/
  nodes : Array Snapshot.Node
  /-- The objects that have a node, with the positions of the nodes. -/
  saved : List (Handle × Nat)
  /-- The number of identifiers given out. -/
  identifiers : Nat

/-- A step of saving. -/
abbrev SavingM (α : Type) := StateT Saving (Except SnapshotError) α

namespace Saving

open Snapshot (Entry)

variable {P : Platform}

/-- The identifier of a node, which receives one if it has none. -/
def identifier (index : Nat) : SavingM String := do
  let s ← get
  match s.nodes[index]?.bind Snapshot.Node.id with
  | some id => return id
  | none =>
    let id := toString (s.identifiers + 1)
    set { s with
      nodes := s.nodes.modify index fun node => { node with id := some id }
      identifiers := s.identifiers + 1 }
    return id

/-- Makes the node of an object. -/
def addNode (h : Handle) (className : Option String) : SavingM Nat := do
  let s ← get
  set { s with
    nodes := s.nodes.push { Snapshot.Node.empty with className }
    saved := (h, s.nodes.size) :: s.saved }
  return s.nodes.size

/-- Whether an object stays out of snapshots. -/
def isTransient (object : ScriptObject P) : Bool :=
  object.native?.any P.isTransientOf ||
    (object.fields.find? Snapshot.transientField).any Value.countsAsTrue

/-- Whether a property is saved. -/
def isSaved (mask? : Option (List String)) (binding : BoundProperty P) : Bool :=
  binding.acceptsWrites &&
    (binding.flags.contains .serialized ||
      mask?.isSome && !binding.flags.contains .nostore)

/-- The object that a copy shares with the graph that it is a copy of. -/
def shared? (mask? : Option (List String)) (name : String) (value : Value) : Option Handle :=
  if mask?.any fun mask => mask.contains name then
    match value with
    | .object h => some h
    | .array origin _ => origin
    | _ => none
  else none

/-- What is saved for a value one container deeper; `none` leaves it out. -/
abbrev Inner := List Handle → Value → SavingM (Option Entry)

/-- The entries with a property or a field added to them, unless its value is left out. -/
def addEntry (mask? : Option (List String)) (inner : Value → SavingM (Option Entry))
    (entries : Table Entry) (name : String) (value : Value) : SavingM (Table Entry) := do
  match shared? mask? name value with
  | some h => return entries.insert name (.reference h)
  | none =>
    match ← inner value with
    | some entry => return entries.insert name entry
    | none => return entries

/-- The entries with the properties of an instance added to them. -/
def addProperties (r : Realm P) (mask? : Option (List String))
    (inner : Value → SavingM (Option Entry)) (h : Handle) (c : ClassNumber)
    (entries : Table Entry) : SavingM (Table Entry) :=
  (r.registry.visibleProperties c).foldlM (fun entries binding =>
    if isSaved mask? binding && !Snapshot.isReserved binding.name then
      match r.property h binding.name with
      | .ok value => addEntry mask? inner entries binding.name value
      | .error error => throw (.script error)
    else return entries) entries

/-- The entries with the fields of an object added to them. Of a function only the source is saved,
if it has one. -/
def addFields (r : Realm P) (mask? : Option (List String))
    (inner : Value → SavingM (Option Entry)) (object : ScriptObject P) (entries : Table Entry) :
    SavingM (Table Entry) :=
  object.fields.entries.foldlM (fun entries (key, value) =>
    if key == Snapshot.transientField || entries.contains key || Snapshot.isReserved key then
      return entries
    else match value with
      | .function f =>
        match (r.heap.get? f).bind fun object => object.function?.bind FunctionObject.source? with
        | some source => return entries.insert (Snapshot.functionKey key) (.string source)
        | none => return entries
      | value => addEntry mask? inner entries key value) entries

/-- Saves an object that is met inside the arrays of `path`. Without `inner?` there is no room for
another container. -/
def saveObject (r : Realm P) (mask? : Option (List String)) (inner? : Option Inner)
    (path : List Handle) (h : Handle) (force : Bool) : SavingM (Option Entry) := do
  match (← get).saved.lookup h with
  -- a further way to an object costs no room, however deep it is
  | some index => return some (.stub (← identifier index))
  | none =>
    let some inner := inner? | throw (.depthExceeded r.options.depthLimit)
    let some object := r.heap.get? h | return some .null
    if !force && isTransient object then return none
    -- a singleton is there already when the snapshot is loaded
    if r.isSingletonInstance h then return some .null
    let registered := object.class?.bind fun c =>
      (r.registry.get? c).bind fun d => if d.outline.builtin then none else some (c, d.outline.name)
    -- the node comes before the entries, so that ways back to the object find it
    let index ← addNode h (registered.map Prod.snd)
    let entries ← match registered with
      | some (c, _) => addProperties r mask? (inner path) h c .empty
      | none => pure .empty
    let entries ← addFields r mask? (inner path) object entries
    modify fun s => { s with nodes := s.nodes.modify index fun node => { node with entries } }
    return some (.node index)

/-- Saves the items of an array that is met inside the arrays of `path`. -/
def saveArray (r : Realm P) (inner? : Option Inner) (path : List Handle) (origin : Option Handle)
    (items : List Value) : SavingM Entry := do
  let some inner := inner? | throw (.depthExceeded r.options.depthLimit)
  -- an array inside of itself is cut
  if origin.any path.contains then return .null
  let path := origin.toList ++ path
  let entries ← items.mapM fun item => do
    return (← inner path item).getD .null
  return .array entries

/-- Saves a value that is met inside the arrays of `path`, given how to save what lies inside of
it. -/
def saveWith (r : Realm P) (mask? : Option (List String)) (inner? : Option Inner)
    (path : List Handle) : Value → SavingM (Option Entry)
  | .undefined => return none
  | .function _ => return none
  | .null => return some .null
  | .bool b => return some (.bool b)
  | .byte n => return some (.int (.ofNat n.toNat))
  | .int n => return some (.int (.ofInt n.toInt))
  -- a single is saved as the decimal that it is written as
  | .float x => return some (.double (Number.asWritten x))
  | .double x => return some (.double x)
  | .string text => return some (.string text)
  | .array origin items => return some (← saveArray r inner? path origin items)
  | .object h =>
    match r.heap.get? h with
    | none => return some .null
    | some object =>
      match object.items? with
      | some items => return some (← saveArray r inner? path (some h) items.toList)
      | none => saveObject r mask? inner? path h false

/-- Saves a value with room for `room` nested containers. -/
def save (r : Realm P) (mask? : Option (List String)) : (room : Nat) → Inner
  | 0 => saveWith r mask? none
  | room + 1 => saveWith r mask? (some (save r mask? room))

/-- How to save what lies one container deeper, if there is room. -/
def inner? (r : Realm P) (mask? : Option (List String)) : (room : Nat) → Option Inner
  | 0 => none
  | room + 1 => some (save r mask? room)

/-- Saves the value that a graph starts with. An object is saved even if it is transient when this
is forced. -/
def saveRoot (r : Realm P) (mask? : Option (List String)) (force : Bool) (value : Value) :
    SavingM (Option Entry) :=
  -- only an object with a node of its own can be kept out, so only there it matters
  match value.object?.filter fun h => ((r.heap.get? h).bind ScriptObject.items?).isNone with
  | some h => saveObject r mask? (inner? r mask? r.options.depthLimit) [] h force
  | none => save r mask? r.options.depthLimit [] value

end Saving

/-- Saves the graph that starts with a value, for keeping or, with a mask, for copying. -/
def Realm.save {P : Platform} (r : Realm P) (value : Value) (force : Bool)
    (mask? : Option (List String)) : Except SnapshotError Snapshot := do
  let (root, s) ← (Saving.saveRoot r mask? force value).run ⟨#[], [], 0⟩
  return ⟨s.nodes, root.getD .null⟩

end ScriptBridge
