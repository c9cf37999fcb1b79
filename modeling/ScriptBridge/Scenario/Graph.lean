import ScriptBridge.Realm.Property

/-!
# Graphs for Scenarios

Scenarios need object graphs of a given size: many objects at once, chains of objects and towers of
arrays. A chain is measured by walking along it.
-/

namespace ScriptBridge.Scenario

variable {P : Platform}

/-- Makes several plain objects. -/
def makeObjects : (count : Nat) → Realm P → Realm P
  | 0, r => r
  | count + 1, r => makeObjects count r.newObject.2

/-- Makes several plain objects, each in a field of the one before it, the first one in a field of
`last`. -/
def extendChain (field : String) : (count : Nat) → (last : Handle) → Action P Unit
  | 0, _ => return
  | count + 1, last => do
    let next ← modifyGet Realm.newObject
    Realm.assignProperty last field (.object next)
    extendChain field count next

/-- Makes a chain of plain objects and answers the first one. -/
def makeChain (field : String) : (count : Nat) → Action P Value
  | 0 => return .undefined
  | count + 1 => do
    let first ← modifyGet Realm.newObject
    extendChain field count first
    return .object first

/-- Makes a tower of arrays, each of them the only item of the next one, and answers the last
one. -/
def makeTower : (count : Nat) → (items : List Value) → Realm P → Value × Realm P
  | 0, items, r => (items.headD .undefined, r)
  | count + 1, items, r =>
    let (array, r) := r.newArray items
    makeTower count [.object array] r

/-- What a step leads to: from an object to a property of it, or, when no field is named, from an
array to its first item. What cannot be read is undefined, and other values lead nowhere. -/
def follow? (r : Realm P) (field : Option String) : Value → Option Value
  | .object h => field.map fun name => (r.property h name).toOption.getD .undefined
  | .array _ items => if field.isNone then some (items.headD .undefined) else none
  | _ => none

/-- Takes at most `bound` steps: the number of steps taken and the value at the end. -/
def walk (r : Realm P) (field : Option String) (value : Value) : (bound : Nat) → Nat × Value
  | 0 => (0, value)
  | bound + 1 =>
    match follow? r field value with
    | some next =>
      let (steps, last) := walk r field next bound
      (steps + 1, last)
    | none => (0, value)

end ScriptBridge.Scenario
