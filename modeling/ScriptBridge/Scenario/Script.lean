import ScriptBridge.Scenario.Bag
import ScriptBridge.Realm.Host
import ScriptBridge.Number.Cast

/-!
# Callbacks as Lists of Instructions

The callbacks of a scenario are lists of instructions, which are run in order until one fails. The
values that they answer or write are given by terms, which are looked up as the callback runs. Some
instructions call back into the realm, so running is bounded by a number of nested calls, which is
the depth of the stack that such calls would take.
-/

namespace ScriptBridge.Scenario

/-- An output as it is before a call: it holds a value of its type that tells it apart from an
output that has been written. -/
def freshOutput (target : Target) : Output where
  target := target
  held := match target with
    | .bool => .bool true
    | .byte => .byte 77
    | .int => .int (-77)
    | .float => .float 0.5
    | .double => .double (-0.5)
    | .string => .string "keep"
    | .object => .object ⟨77, 7⟩
    | .optionalObject => .object ⟨77, 7⟩
    | .function => .function ⟨77, 7⟩
    | .array => .ofList [.int 77]
    | .value => .string "keep"

/-- The outputs that a list of target names stands for: names with commas between them, or a single
name behind the word `only`. -/
def outputs? (names : String) : Option (List Output) :=
  if names.isEmpty then some []
  else
    -- a single output is read like a list of one
    let names := if names.startsWith "only " then [(names.drop 5).toString] else names.splitOn ","
    names.mapM fun name => (Target.ofName? name).map freshOutput

/-- A step of a callback. -/
inductive Instruction where
  /-- Answers a value. -/
  | answer (value : Term)
  /-- Answers the receiver, or null. -/
  | answerReceiver
  /-- Answers the arguments as an array. -/
  | answerArguments
  /-- Answers the number of arguments. -/
  | answerCount
  /-- Fails. -/
  | fail (error : ScriptError)
  /-- Reads the arguments from `offset` on, of which `required` have to be there, and answers the
  outputs as an array. -/
  | read (outputs : List Output) (required offset : Nat) (usage : String)
  /-- Answers a property of the receiver. -/
  | get (name : String)
  /-- Writes a property of the receiver: a given value, or the first argument. -/
  | set (name : String) (value : Option Term)
  /-- Calls a method of the receiver with the same arguments, and answers its result. -/
  | callMethod (name : String)
  /-- Calls a global function with the same arguments, and answers its result. -/
  | callGlobal (name : String)
  /-- Constructs an instance, and answers it. -/
  | construct (className : String)
  /-- Collects, and answers the number of objects freed. -/
  | collect
  /-- Adds the first argument to a slot of a bag of the receiver, and answers the sum. -/
  | bump (kind : BagKind) (slot : String)
  /-- Makes a note, with a property of the receiver if one is named and there is a receiver. -/
  | note (text : String) (field : Option String)

/-- The platform of scenarios: bags, the stage and lists of instructions. -/
def platform : Platform where
  Layer := Bag
  World := Stage
  Callback := List Instruction
  handles := Bag.handlesOver
  isTransient := Bag.isTransientOver
  finalize := Bag.finalize

/-- Writes into the journal. -/
def journalize (record : Record) : Action platform Unit :=
  modify fun r => { r with world := Stage.record r.world record }

/-- The value of a term, by the bindings of the moment. -/
def valueOf (term : Term) : Action platform Value := do
  let stage : Stage := (← MonadState.get).world
  return term.value stage.bindings

/-- The receiver, which has to be there. -/
def needReceiver (this : Option Handle) : Action platform Handle :=
  match this with
  | some h => return h
  | none => throw (.usage "needs a receiver")

/-- Runs an instruction. -/
def Instruction.run (host : Host platform) (this : Option Handle) (call : Invocation) :
    Instruction → Action platform Invocation
  | answer term => return call.answer (← valueOf term)
  | answerReceiver => return call.answer (.ofObject? this)
  | answerArguments => return call.answer (.ofList call.arguments)
  | answerCount => return call.answer (.int (.ofNat call.arguments.length))
  | fail error => throw error
  | read outputs required offset usage =>
    match call.read? offset required outputs with
    | some values => return call.answer (.ofList values)
    | none => throw (.usage usage)
  | get name => do
    let this ← needReceiver this
    return call.answer (← (← MonadState.get).property this name)
  | set name term => do
    let this ← needReceiver this
    let value ← match term with
      | some term => valueOf term
      | none => pure (call.arguments.headD .undefined)
    Realm.assignProperty this name value
    return call
  | callMethod name => do
    let this ← needReceiver this
    return call.answer (← host.callMethod this name call.arguments)
  | callGlobal name => return call.answer (← host.callGlobal name call.arguments)
  | construct className => return call.answer (.object (← Realm.construct className))
  | collect => return call.answer (.int (.ofNat (← modifyGet Realm.collect)))
  | bump kind slot => do
    let this ← needReceiver this
    let step := (call.arguments.head?.bind Value.number?).getD 1.0
    let sum ← Realm.onPart (P := platform) kind.facet this fun bag _ =>
      let sum := ((bag.slot? slot).bind Value.number?).getD 0.0 + step
      (sum, bag.setSlot slot (.double sum))
    return call.answer (.double sum)
  | note text field => do
    -- without a receiver there is nothing to look at, and the note is made all the same
    let value ← match this, field with
      | some this, some name => do
        let value ← (← MonadState.get).property this name
        pure value
      | _, _ => pure .undefined
    journalize (.noted text value call.arguments.length)
    return call

/-- Runs the instructions of a callback. -/
def runInstructions (host : Host platform) (body : List Instruction) (this : Option Handle)
    (call : Invocation) : Action platform Invocation :=
  body.foldlM (fun call instruction => instruction.run host this call) call

/-- Source text that fails, and what it fails with. -/
def thrownBy? (source : String) : Option ScriptError :=
  if source.startsWith "throw " then some (.thrown (source.drop 6).toString) else none

/-- Writes into the journal; source text that fails does so then. -/
def recordSource (record : Record) (source : String) : Action platform Unit := do
  journalize record
  match thrownBy? source with
  | some error => throw error
  | none => return

/-- The evaluator of scenarios. It understands the receiver and names of global functions. -/
def evaluator (host : Host platform) : Evaluator platform where
  run unit source := do
    recordSource (.ran unit source) source
    Realm.assignGlobal "ran" (.string unit)
  evaluate source this := do
    recordSource (.evaluated source this) source
    if source = "this" then return .ofObject? this
    host.callGlobal source [.int 21]
  call name source this args := do
    recordSource (.called name source this args) source
    return .ofList args

/-- What runs the callbacks of a scenario, with an evaluator or without, up to a number of nested
calls. -/
def hostWithin (withEvaluator : Bool) : (depth : Nat) → Host platform
  | 0 => ⟨fun _ _ _ => throw (.thrown "calls nest too deeply"), none⟩
  | depth + 1 =>
    let inner := hostWithin withEvaluator depth
    ⟨runInstructions inner, if withEvaluator then some (evaluator inner) else none⟩

/-- The number of nested calls that the callbacks of a scenario may make. -/
def maxCallDepth : Nat := 4096

/-- What runs the callbacks of a scenario, with an evaluator or without. -/
def host (withEvaluator : Bool) : Host platform := hostWithin withEvaluator maxCallDepth

end ScriptBridge.Scenario
