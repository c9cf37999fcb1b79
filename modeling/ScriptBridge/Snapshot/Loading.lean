import ScriptBridge.Snapshot.Saving
import ScriptBridge.Realm.Host

/-!
# Loading

Loading rebuilds a graph depth first. A stub is never followed on sight: the place where it stands
holds null and waits until the node with its identifier is met, or until everything has been built.
A property whose array has received such a late item is then written once more, so that a setter
that copies the items sees them all. The entries of an instance are written in three phases: early
properties, the others, late properties. When the graph is there, its instances are awakened,
inner ones before outer ones.

All objects that a load makes stay alive until it is over.
-/

namespace ScriptBridge

/-- A place that waits for an object. -/
inductive Place where
  /-- A property of an object. -/
  | property (owner : Handle) (name : String)
  /-- An item of an array. -/
  | item (array : Handle) (index : Nat)

/-- How far a snapshot has been loaded. -/
structure Loading (P : Platform) where
  /-- The realm. -/
  realm : Realm P
  /-- The objects of the nodes that carry identifiers, the newest first. -/
  built : List (String × Handle)
  /-- The places that wait, by identifier. -/
  waiting : Table (List Place)
  /-- How many items of arrays have ever had to wait. -/
  lateItems : Nat
  /-- Properties whose arrays have had to wait for items, with the arrays. -/
  renewals : List (Handle × String × Handle)
  /-- The instances to be awakened, the newest first. -/
  sleepers : List Handle
  /-- The objects that have been made and are kept alive. -/
  made : List Handle

/-- A step that concerns snapshots, which may fail. -/
abbrev SnapshotAction (P : Platform) (α : Type) := ExceptT SnapshotError (StateM (Realm P)) α

/-- A step of loading. -/
abbrev LoadingM (P : Platform) (α : Type) := ExceptT SnapshotError (StateM (Loading P)) α

namespace Loading

open Snapshot (Entry)

variable {P : Platform}

/-! ## Acting on the realm -/

/-- Asks the realm. -/
def ask {α : Type} (question : Realm P → α) : LoadingM P α := return question (← get).realm

/-- Acts on the realm, and tells how that went. -/
def attempt {α : Type} (action : Action P α) : LoadingM P (Except ScriptError α) :=
  modifyGet fun s =>
    let (answer, realm) := Id.run (action.run.run s.realm)
    (answer, { s with realm })

/-- Acts on the realm; an error ends the load. -/
def perform {α : Type} (action : Action P α) : LoadingM P α := do
  match ← attempt action with
  | .ok answer => return answer
  | .error error => throw (.script error)

/-- Whether the first problem ends the load. -/
def isStrict : LoadingM P Bool := ask fun r => r.options.strictness == .strict

/-- Keeps a new object alive until the load is over. -/
def keepAlive (h : Handle) : LoadingM P Unit :=
  modify fun s => { s with realm := s.realm.protect h, made := h :: s.made }

/-- Writes a property. In strict mode an error ends the load, in lenient mode it is passed over. -/
def write (h : Handle) (name : String) (value : Value) : LoadingM P Unit := do
  match ← attempt (Realm.putProperty h name value true) with
  | .ok _ => return
  | .error error => if ← isStrict then throw (.script error)

/-! ## Places that wait -/

/-- Lets a place wait for the node with an identifier. -/
def await (id : String) (place : Place) : LoadingM P Unit :=
  modify fun s => { s with
    waiting := s.waiting.insert id ((s.waiting.find? id).getD [] ++ [place])
    lateItems := match place with
      | .item _ _ => s.lateItems + 1
      | .property _ _ => s.lateItems }

/-- Puts an object into a place. -/
def settle (target : Handle) : Place → LoadingM P Unit
  | .property owner name => write owner name (.object target)
  | .item array index => discard (perform (Realm.assignElement array index (.object target)))

/-- Notes the object of a node that carries an identifier, and puts it into the places that wait
for it. -/
def announce (id : String) (target : Handle) : LoadingM P Unit := do
  let places := ((← get).waiting.find? id).getD []
  -- nothing waits for the identifier any more by the time that a setter runs
  modify fun s => { s with built := (id, target) :: s.built, waiting := s.waiting.erase id }
  places.forM (settle target)

/-- Serves the places that still wait when everything has been built. -/
def settleAll : LoadingM P Unit := do
  let waiting := (← get).waiting
  modify fun s => { s with waiting := .empty }
  waiting.entries.forM fun (id, places) => do
    match (← get).built.lookup id with
    | some target => places.forM (settle target)
    | none => if ← isStrict then throw (.unresolvedStub id)

/-- Writes the properties again whose arrays have received late items. -/
def renewAll : LoadingM P Unit := do
  let renewals := (← get).renewals
  modify fun s => { s with renewals := [] }
  renewals.forM fun (owner, name, array) => write owner name (.object array)

/-! ## Objects -/

/-- What is read for an entry one container deeper. -/
abbrev Inner (P : Platform) := Entry → LoadingM P Value

/-- Without room for another container a load ends. -/
def roomFor (inner? : Option (Inner P)) : LoadingM P (Inner P) := do
  match inner? with
  | some inner => return inner
  | none => throw (.depthExceeded (← ask Realm.options).depthLimit)

/-- Makes an object of a class, or a plain object when there is no such class and that is passed
over. -/
def make (className : Option String) : LoadingM P Handle := do
  let registry ← ask Realm.registry
  let h ← match className with
    | none => perform (modifyGet Realm.newObject)
    | some name =>
      match registry.lookup? name with
      | some c => do
        let h ← perform (modifyGet (Realm.instantiate c))
        if (registry.get? c).any fun d => !d.outline.builtin then
          modify fun s => { s with sleepers := h :: s.sleepers }
        pure h
      | none => do
        if ← isStrict then throw (.script (.unknownClass name))
        perform (modifyGet Realm.newObject)
  keepAlive h
  return h

/-- The phase in which an entry is written: early ones are in phase 0, late ones in phase 2. -/
def phase (r : Realm P) (c? : Option ClassNumber) (key : String) : Nat :=
  match c?.bind (r.registry.resolveProperty? · key) with
  | some binding =>
    if binding.flags.contains .early then 0 else if binding.flags.contains .late then 2 else 1
  | none => 1

/-- The entries of a node in the order in which they are written. -/
def inPhases (r : Realm P) (c? : Option ClassNumber) (entries : Table Entry) :
    List (String × Entry) :=
  [0, 1, 2].flatMap fun n => entries.entries.filter fun entry => phase r c? entry.1 == n

/-- Writes an entry of a node. -/
def restoreEntry (inner : Inner P) (h : Handle) (key : String) (entry : Entry) :
    LoadingM P Unit := do
  match Snapshot.functionName? key, entry with
  | some name, .string source =>
    let f ← perform (modifyGet (Realm.newFunction name (.script source)))
    write h name (.function f)
  | _, .stub id =>
    await id (.property h key)
    -- the place holds null until then; a setter that refuses null is not an error
    discard (attempt (Realm.putProperty h key .null true))
  | _, entry =>
    let before := (← get).lateItems
    let value ← inner entry
    match entry, value with
    | .array _, .object array =>
      -- some item inside has had to wait, so the setter has not seen all of them
      if before < (← get).lateItems then
        modify fun s => { s with renewals := s.renewals ++ [(h, key, array)] }
    | _, _ => pure ()
    write h key value

/-- The installed instance for a node of a singleton class; in lenient mode there may be none. -/
def findSingleton (name : String) : LoadingM P (Option Handle) := do
  match ← ask (·.singleton? name) with
  | some h => return some h
  | none =>
    if ← isStrict then throw (.script (.notConstructible name))
    return none

/-- The name of the class of a node, if it is a singleton class. -/
def singletonName? (r : Realm P) (node : Snapshot.Node) : Option String :=
  node.className.filter fun name => (r.registry.registered? name).any fun d => d.outline.singleton

/-- Reads a node. The entries of a singleton are not applied. -/
def rebuildNode (inner : Inner P) (node : Snapshot.Node) : LoadingM P (Option Handle) := do
  match ← ask (singletonName? · node) with
  | some name =>
    let some h ← findSingleton name | return none
    if let some id := node.id then announce id h
    return some h
  | none =>
    let h ← make node.className
    -- places that wait are served first, so that entries may already refer to the object
    if let some id := node.id then announce id h
    let entries ← ask fun r => inPhases r (r.classOf? h) node.entries
    entries.forM fun (key, entry) => restoreEntry inner h key entry
    return some h

/-- Reads the items of an array from a position on. -/
def rebuildItems (inner : Inner P) (array : Handle) (index : Nat) : List Entry → LoadingM P Unit
  | [] => return
  | item :: items => do
    let value ← match item with
      | .stub id => do
        await id (.item array index)
        pure .null
      | item => inner item
    discard (perform (Realm.assignElement array index value))
    rebuildItems inner array (index + 1) items

/-- Reads an array. -/
def rebuildArray (inner : Inner P) (items : List Entry) : LoadingM P Handle := do
  let array ← perform (modifyGet (Realm.newArray []))
  keepAlive array
  rebuildItems inner array 0 items
  return array

/-- A whole number as a value: one that needs more than 32 bits becomes a double. -/
def intValue (n : Int64) : Value :=
  if Int32.minValue.toInt ≤ n.toInt && n.toInt ≤ Int32.maxValue.toInt then .int (.ofInt n.toInt)
  else .double (Number.doubleOfInt n.toInt)

/-- Reads an entry, given how to read what lies inside of it. -/
def rebuildWith (s : Snapshot) (inner? : Option (Inner P)) : Inner P
  | .null => return .null
  | .bool b => return .bool b
  | .int n => return intValue n
  | .double x => return .double x
  | .string text => return .string text
  | .reference h => return if ← ask (·.resolves h) then .object h else .null
  | .stub id => throw (.malformed ("stub '" ++ id ++ "' outside an object or array"))
  | .array items => do
    let inner ← roomFor inner?
    return .object (← rebuildArray inner items)
  | .node index => do
    let inner ← roomFor inner?
    let node ← s.node index
    return .ofObject? (← rebuildNode inner node)

/-- Reads an entry with room for `room` nested containers. -/
def read (s : Snapshot) : (room : Nat) → Inner P
  | 0 => rebuildWith s none
  | room + 1 => rebuildWith s (some (read s room))

/-! ## Awakening -/

/-- The function that awakens an instance. -/
def awakeName : String := "awake"

/-- Whether an instance has a function that awakens it. -/
def canAwake (r : Realm P) (h : Handle) : Bool :=
  ((r.classOf? h).bind (r.registry.resolveFunction? · awakeName)).isSome ||
    ((r.field? h awakeName).bind Value.function?).isSome

/-- Awakens the instances that were made, the last one first. In lenient mode errors are kept for
the end of the frame. -/
def awaken (host : Host P) : LoadingM P Unit := do
  let sleepers := (← get).sleepers
  modify fun s => { s with sleepers := [] }
  sleepers.forM fun h => do
    if ← ask (canAwake · h) then
      match ← attempt (host.callMethod h awakeName []) with
      | .ok _ => pure ()
      -- the others are awakened all the same, unless the first error ends the load
      | .error error =>
        if ← isStrict then throw (.script error)
        modify fun s => { s with realm := s.realm.report error }

/-- Loads a snapshot. -/
def load (host : Host P) (s : Snapshot) : LoadingM P Value := do
  let root ← read s (← ask Realm.options).depthLimit s.root
  settleAll
  renewAll
  awaken host
  ask (·.expand root)

end Loading

namespace Host

variable {P : Platform}

/-- Loads a snapshot. Live references are accepted for copying only. -/
def load (host : Host P) (s : Snapshot) (copying : Bool) : SnapshotAction P Value := do
  if !copying && s.holdsLiveObjects then throw .liveReference
  let answer ← modifyGet fun r =>
    -- whatever happens, the objects that were made are no longer kept alive afterwards
    let (answer, s) := Id.run ((Loading.load host s).run.run ⟨r, [], .empty, 0, [], [], []⟩)
    (answer, s.made.foldl (fun r h => (r.unprotect h).2) s.realm)
  answer

/-- Copies a graph. What is found under the names of a mask is shared instead of copied. -/
def clone (host : Host P) (value : Value) (mask : List String) : SnapshotAction P Value := do
  let s ← (← get).save value true (some mask)
  host.load s true

end Host

end ScriptBridge
