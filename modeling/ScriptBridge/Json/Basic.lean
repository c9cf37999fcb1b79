/-!
# JSON Values

A JSON value with the distinctions that snapshots need: whole numbers are kept apart from
fractions, and the members of an object keep their order.
-/

namespace ScriptBridge

/-- A JSON value. -/
inductive Json where
  /-- The null value. -/
  | null
  /-- A truth value. -/
  | bool (b : Bool)
  /-- A number written without fraction and exponent. -/
  | integer (n : Int)
  /-- Any other number. -/
  | double (x : Float)
  /-- A text. -/
  | string (s : String)
  /-- Items in order. -/
  | array (items : List Json)
  /-- Members in order, under distinct keys. -/
  | object (members : List (String × Json))
deriving Inhabited

namespace Json

/-- The value under a key. -/
def member? (key : String) : List (String × Json) → Option Json := List.lookup key

mutual

/-- The number of containers on the longest path into the value. -/
def nesting : Json → Nat
  | array items => nestingItems items + 1
  | object members => nestingMembers members + 1
  | _ => 0

/-- The deepest nesting among items. -/
def nestingItems : List Json → Nat
  | [] => 0
  | item :: items => max (nesting item) (nestingItems items)

/-- The deepest nesting among members. -/
def nestingMembers : List (String × Json) → Nat
  | [] => 0
  | (_, value) :: members => max (nesting value) (nestingMembers members)

end

end Json

end ScriptBridge
