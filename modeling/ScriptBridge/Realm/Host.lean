import ScriptBridge.TypedVector.Methods

/-!
# The Host and its Calls

The embedding program runs its own callbacks, and source text when it brings an evaluator along.
Both may act on the realm in turn. A call hands over the arguments as they are seen outside of the
heap and takes the result that the callback leaves in its invocation.
-/

namespace ScriptBridge

/-- What runs source text. -/
structure Evaluator (P : Platform) where
  /-- Runs a unit of source, given by its name and its text. -/
  run : String → String → Action P Unit
  /-- Evaluates an expression, for a receiver if there is one. -/
  evaluate : String → Option Handle → Action P Value
  /-- Calls a function that was written in a script, given by its name and its source. -/
  call : String → String → Option Handle → List Value → Action P Value

/-- The program that embeds the bridge. -/
structure Host (P : Platform) where
  /-- Runs a callback, for a receiver if there is one. -/
  invoke : P.Callback → Option Handle → Invocation → Action P Invocation
  /-- The evaluator, if one is installed. -/
  evaluator? : Option (Evaluator P)

namespace Host

variable {P : Platform} (host : Host P)

/-- The evaluator, which has to be installed. -/
def evaluator : Action P (Evaluator P) :=
  match host.evaluator? with
  | some evaluator => return evaluator
  | none => throw .noEvaluator

/-- Runs a native function in an invocation. -/
def perform (procedure : Procedure P) (this : Option Handle) (call : Invocation) :
    Action P Invocation :=
  match procedure with
  | .vector method => method.run this call
  | .callback callback => host.invoke callback this call

/-- Calls a native function. -/
def callNative (procedure : Procedure P) (this : Option Handle) (args : List Value) :
    Action P Value := do
  let r ← get
  let call ← host.perform procedure this (.ofArguments (args.map r.expand))
  return call.takeAnswer.1

/-- Calls a function object. -/
def callFunction (func : Handle) (this : Option Handle) (args : List Value) : Action P Value := do
  let r ← get
  let some object := r.heap.get? func | throw .deadObject
  let some function := object.function? | throw (.notCallable ("FunctionRef(" ++ func.text ++ ")"))
  match function.body with
  | .native procedure => host.callNative procedure this args
  | .script source => do
    let evaluator ← host.evaluator
    evaluator.call function.name source this (args.map r.expand)

/-- Calls the function in a field. -/
def callField (owner : Handle) (name : String) (this : Option Handle) (args : List Value) :
    Action P Value := do
  match ((← get).field? owner name).bind Value.function? with
  | some func => host.callFunction func this args
  | none => throw (.notCallable name)

/-- Calls a method: a function of the class of the receiver or of an ancestor, or the function in a
field. -/
def callMethod (this : Handle) (name : String) (args : List Value) : Action P Value := do
  let r ← get
  if !r.resolves this then throw .deadObject
  -- what a class binds hides the field of the same name
  match (r.classOf? this).bind (r.registry.resolveFunction? · name) with
  | some procedure => host.callNative procedure (some this) args
  | none => host.callField this name (some this) args

/-- Calls a global function: a registered one, or the function in a global variable. -/
def callGlobal (name : String) (args : List Value) : Action P Value := do
  let r ← get
  match r.registry.globals.find? name with
  | some procedure => host.callNative procedure none args
  | none => host.callField r.globals name none args

/-- Runs a unit of source. -/
def runUnit (unit source : String) : Action P Unit := do
  let evaluator ← host.evaluator
  evaluator.run unit source

/-- Evaluates an expression, for a receiver if there is one. -/
def evaluate (source : String) (this : Option Handle) : Action P Value := do
  let evaluator ← host.evaluator
  evaluator.evaluate source this

end Host

end ScriptBridge
