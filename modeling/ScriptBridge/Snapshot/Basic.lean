import ScriptBridge.Error
import ScriptBridge.Table

/-!
# Snapshots

A snapshot is an image of an object graph without cycles: a row of nodes, one for each object, and
a root. Entries refer to the node of an object by its position; a further reference to an object
that has a node already is a stub, which names the identifier of that node. Snapshots that are made
for copying may also hold references to live objects.
-/

namespace ScriptBridge

namespace Snapshot

/-- What a snapshot holds in place of a value. -/
inductive Entry where
  /-- No object. -/
  | null
  /-- A truth value. -/
  | bool (b : Bool)
  /-- A whole number. -/
  | int (n : Int64)
  /-- Any other number. -/
  | double (x : Float)
  /-- A text. -/
  | string (s : String)
  /-- Items in order. -/
  | array (items : List Entry)
  /-- The object of the node at a position. -/
  | node (index : Nat)
  /-- The object of the node that carries an identifier. -/
  | stub (id : String)
  /-- A live object. -/
  | reference (h : Handle)
deriving Inhabited

/-- The image of one object. -/
structure Node where
  /-- The name of the class, for instances of registered classes. -/
  className : Option String
  /-- The identifier, if a stub refers to the node. -/
  id : Option String
  /-- Properties and fields, in the order in which they were written. -/
  entries : Table Entry

/-- A node without class, identifier and entries. -/
def Node.empty : Node := ⟨none, none, .empty⟩

namespace Entry

mutual

/-- Equality of entries; floating-point numbers are compared as numbers. -/
def same : Entry → Entry → Bool
  | null, null => true
  | bool a, bool b => a == b
  | int a, int b => a == b
  | double a, double b => a == b
  | string a, string b => a == b
  | array xs, array ys => sameItems xs ys
  | node i, node j => i == j
  | stub a, stub b => a == b
  | reference h, reference k => h == k
  | _, _ => false

/-- Equality of items, one by one. -/
def sameItems : List Entry → List Entry → Bool
  | [], [] => true
  | x :: xs, y :: ys => same x y && sameItems xs ys
  | _, _ => false

end

mutual

/-- Whether a live object occurs in an entry. -/
def isLive : Entry → Bool
  | reference _ => true
  | array items => anyLive items
  | _ => false

/-- Whether a live object occurs among items. -/
def anyLive : List Entry → Bool
  | [] => false
  | item :: items => isLive item || anyLive items

end

end Entry

/-- Equality of nodes; the order of the entries does not matter. -/
def Node.same (m n : Node) : Bool :=
  m.className == n.className && m.id == n.id && m.entries.agrees Entry.same n.entries

end Snapshot

/-- An image of an object graph without cycles. -/
structure Snapshot where
  /-- The nodes. -/
  nodes : Array Snapshot.Node
  /-- Where the graph starts. -/
  root : Snapshot.Entry

namespace Snapshot

/-- Equality of snapshots: the same nodes in the same places, and the same root. -/
def same (s t : Snapshot) : Bool :=
  s.nodes.size == t.nodes.size && (s.nodes.zip t.nodes).all (fun (m, n) => m.same n) &&
    s.root.same t.root

/-- The node at a position. -/
def node (s : Snapshot) (index : Nat) : Except SnapshotError Node :=
  match s.nodes[index]? with
  | some node => .ok node
  | none => .error (.malformed ("node index " ++ toString index ++ " out of range"))

theorem node_eq_ok_iff {s : Snapshot} {index : Nat} {found : Node} :
    s.node index = .ok found ↔ s.nodes[index]? = some found := by
  unfold Snapshot.node
  cases s.nodes[index]? <;> simp

/-- Whether live objects occur anywhere. -/
def holdsLiveObjects (s : Snapshot) : Bool :=
  s.root.isLive || s.nodes.any fun node => node.entries.values.any Entry.isLive

/-! ## Keys -/

/-- The key of the class name in the text of a node. -/
def classKey : String := "__class__"

/-- The key of the identifier in the text of a node. -/
def idKey : String := "__id__"

/-- The only key in the text of a stub. -/
def stubKey : String := "__stub__"

/-- The end of a key that holds the source of a function. -/
def functionMark : String := "()"

/-- The key that holds the source of the function in a field. -/
def functionKey (name : String) : String := name ++ functionMark

/-- The name of the field whose function a key holds the source of. -/
def functionName? (key : String) : Option String :=
  match key.toList.reverse with
  | ')' :: '(' :: name => some (String.ofList name.reverse)
  | _ => none

/-- Whether a key has a meaning of its own, so that no field of this name is saved. -/
def isReserved (key : String) : Bool :=
  key == classKey || key == idKey || key == stubKey || (functionName? key).isSome

end Snapshot

end ScriptBridge
