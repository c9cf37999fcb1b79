import ScriptBridge.TypedVector.Members
import ScriptBridge.Realm.Instance
import ScriptBridge.Invocation

/-!
# The Functions of Typed Vectors

Each function of the typed vector class needs a receiver. What a locked vector refuses, and values
that do not convert, are answered with false; arguments of the wrong number or kind are an error.
-/

namespace ScriptBridge.VectorMethod

variable {P : Platform}

/-- Two whole numbers that are zero unless they are given, from the arguments of a call of which
`required` have to be there. -/
def twoNumbers? (call : Invocation) (required : Nat) : Option (Int32 × Int32) :=
  match call.read? 0 required [⟨.int, .int 0⟩, ⟨.int, .int 0⟩] with
  | some [.int a, .int b] => some (a, b)
  | _ => none

/-- An answer, or false when the vector refused. -/
def orFalse (answer : Option Value) : Value := answer.getD (.bool false)

/-- Appends the arguments; the answer is the new length. -/
def runPush (this : Handle) (call : Invocation) : Action P Value :=
  Realm.onPart .vector this fun v m =>
    match if v.admits m call.arguments then v.push? call.arguments else none with
    | some v => (.int (.ofNat v.size), v)
    | none => (.bool false, v)

/-- Removes the last element and answers it; an empty vector has none to give. -/
def runPop (this : Handle) : Action P Value :=
  Realm.onPart .vector this fun v _ =>
    -- a refusal is told apart from an empty vector
    if v.sizeLocked then (.bool false, v)
    else match v.pop? with
      | some (value, v) => (value, v)
      | none => (.undefined, v)

/-- Copies a part into a new vector of the class of the receiver. -/
def runSlice (this : Handle) (call : Invocation) : Action P Value := do
  let some (start, stop) := twoNumbers? call 0 | throw (.usage "slice(start?: int, end?: int)")
  let r ← get
  let v ← r.nativeAs .vector this
  let stop := if 2 ≤ call.arguments.length then some stop.toInt else none
  -- the copy is of the class of the receiver, which may extend the class of typed vectors
  let name := (r.className? this).getD TypedVector.className
  let copy ← Realm.wrapNative name (.vector (v.slice start.toInt stop))
  return .object copy

/-- Replaces a part and answers the elements that were removed. -/
def runSplice (this : Handle) (call : Invocation) : Action P Value := do
  let some (start, count) := twoNumbers? call 1
    | throw (.usage "splice(start: int, deleteCount?: int, ...items)")
  -- a negative count removes nothing
  let count := if 2 ≤ call.arguments.length then some count.toNatClampNeg else none
  let insert := call.arguments.drop 2
  Realm.onPart .vector this fun v m =>
    match if v.admits m insert then v.splice? start.toInt count insert else none with
    | some (removed, v) => (.ofList removed, v)
    | none => (.bool false, v)

/-- Replaces all elements by those of an array or of another vector. -/
def runSet (this : Handle) (call : Invocation) : Action P Value := do
  match call.arguments with
  | .array _ items :: _ =>
    Realm.onPart .vector this fun v m =>
      match if v.admits m items then v.assign? items else none with
      | some v => (.bool true, v)
      | none => (.bool false, v)
  | .object source :: _ =>
    -- a vector holds its own elements already, whatever its locks
    if source = this then return .bool true
    let source ← (← get).nativeAs .vector source
    Realm.onPart .vector this fun v m =>
      match if v.admits m source.values then v.copyFrom? source else none with
      | some v => (.bool true, v)
      | none => (.bool false, v)
  | _ => throw (.usage "set(source: Array | TypedVector)")

/-- The position of the argument, or -1. -/
def runIndexOf (this : Handle) (call : Invocation) : Action P Value := do
  let needle :: _ := call.arguments | throw (.usage "indexOf(value)")
  let v ← (← get).nativeAs .vector this
  return .int ((v.indexOf? needle).elim (-1) .ofNat)

/-- Copies the elements into an array. -/
def runToArray (this : Handle) : Action P Value := do
  let v ← (← get).nativeAs .vector this
  return .ofList v.values

/-- Runs a function of the typed vector class. -/
def run (method : VectorMethod) (this : Option Handle) (call : Invocation) :
    Action P Invocation := do
  let some this := this | throw (.usage "TypedVector method called without a receiver")
  let answer ← match method with
    | push => runPush this call
    | pop => runPop this
    | slice => runSlice this call
    | splice => runSplice this call
    | set => runSet this call
    | indexOf => runIndexOf this call
    | toArray => runToArray this
  return call.answer answer

end ScriptBridge.VectorMethod
