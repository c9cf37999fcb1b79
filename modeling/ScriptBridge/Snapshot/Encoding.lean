import ScriptBridge.Snapshot.Basic
import ScriptBridge.Json.Document
import ScriptBridge.Json.Printer
import ScriptBridge.Number.Cast

/-!
# Snapshots as JSON

A node becomes an object with its class name and its identifier in front of its entries, and stands
where it is referred to. A stub becomes an object with a single key. What is written nests at most
as many containers as are read back; a node that contains itself and a live object have no text.
-/

namespace ScriptBridge.Snapshot

/-! ## Writing -/

/-- The members of a node that stand in front of its entries. -/
def Node.header (n : Node) : List (String × Json) :=
  (n.className.toList.map fun name => (classKey, .string name)) ++
    n.id.toList.map fun id => (idKey, .string id)

/-- What stands for a stub. -/
def stubJson (id : String) : Json := .object [(stubKey, .string id)]

/-- An entry as JSON inside the nodes of `path`, given how to write what lies inside of it; without
that there is no room for another container. -/
def encodeWith (s : Snapshot) (inner? : Option (List Nat → Entry → Except SnapshotError Json))
    (path : List Nat) : Entry → Except SnapshotError Json
  | .null => .ok .null
  | .bool b => .ok (.bool b)
  | .int n => .ok (.integer n.toInt)
  | .double x => .ok (if x.isFinite then .double x else .null)
  | .string text => .ok (.string text)
  | .stub id => .ok (stubJson id)
  | .reference _ => .error .liveReference
  | .array items =>
    match inner? with
    | none => .error (.depthExceeded Json.maxTextNesting)
    | some inner => (items.mapM (inner path)).map Json.array
  | .node index =>
    match inner? with
    | none => .error (.depthExceeded Json.maxTextNesting)
    | some inner => do
      let node ← s.node index
      -- the node stands inside of itself and would never end
      if path.contains index then
        throw (.malformed ("node " ++ toString index ++ " contains itself"))
      let members ← node.entries.entries.foldlM (fun members (key, entry) =>
        return insertEntry key (← inner (index :: path) entry) members) node.header
      return .object members

/-- An entry as JSON inside the nodes of `path`, with room for `room` nested containers. -/
def encode (s : Snapshot) : (room : Nat) → List Nat → Entry → Except SnapshotError Json
  | 0 => encodeWith s none
  | room + 1 => encodeWith s (some (encode s room))

/-- A snapshot as JSON. -/
def toJson (s : Snapshot) : Except SnapshotError Json := encode s Json.maxTextNesting [] s.root

/-- The compact text of a snapshot. -/
def toText (s : Snapshot) : Except SnapshotError String := s.toJson.map Json.render

/-- The text of a snapshot with one member on a line. -/
def toPrettyText (s : Snapshot) : Except SnapshotError String := s.toJson.map Json.pretty

/-! ## Reading -/

/-- Reading makes nodes one after the other. -/
abbrev Decoding (α : Type) := StateT (Array Node) (Except SnapshotError) α

/-- The text under a key, which may be absent but is nothing else than a text. -/
def textMember? (key : String) (members : List (String × Json)) :
    Except SnapshotError (Option String) :=
  match Json.member? key members with
  | none => .ok none
  | some (.string text) => .ok (some text)
  | some _ => .error (.malformed (key ++ " must be a string"))

/-- A whole number as an entry: one that needs more than 64 bits is rounded. -/
def intEntry (n : Int) : Entry :=
  if Int64.minValue.toInt ≤ n && n ≤ Int64.maxValue.toInt then .int (.ofInt n)
  else .double (Number.doubleOfInt n)

mutual

/-- The entry that a JSON value stands for. The node of an object comes before those of the objects
inside of it. -/
def decode : Json → Decoding Entry
  | .null => return .null
  | .bool b => return .bool b
  | .integer n => return intEntry n
  | .double x => return .double x
  | .string text => return .string text
  | .array items => return .array (← decodeItems items)
  | .object members =>
    match Json.member? stubKey members with
    | some (.string id) => return .stub id
    | some _ => throw (.malformed "stub id must be a string")
    | none => do
      -- the place of the node is taken before the objects inside of it take theirs
      let index := (← get).size
      modify fun nodes => nodes.push .empty
      let className ← textMember? classKey members
      let id ← textMember? idKey members
      let entries ← decodeMembers .empty members
      modify fun nodes => nodes.setIfInBounds index ⟨className, id, entries⟩
      return .node index

/-- The entries that the items of an array stand for. -/
def decodeItems : List Json → Decoding (List Entry)
  | [] => return []
  | item :: items => do
    let entry ← decode item
    let entries ← decodeItems items
    return entry :: entries

/-- The entries that the members of an object stand for, given those in front of them. -/
def decodeMembers (found : Table Entry) : List (String × Json) → Decoding (Table Entry)
  | [] => return found
  | (key, value) :: members => do
    if key == classKey || key == idKey then decodeMembers found members
    else decodeMembers (found.insert key (← decode value)) members

end

/-- The snapshot that a JSON value stands for. -/
def ofJson (json : Json) : Except SnapshotError Snapshot := do
  let (root, nodes) ← (decode json).run #[]
  return ⟨nodes, root⟩

/-- The snapshot written in a text. -/
def ofText (text : String) : Except SnapshotError Snapshot :=
  match Json.ofText? text with
  | some json => ofJson json
  | none => .error .json

end ScriptBridge.Snapshot
