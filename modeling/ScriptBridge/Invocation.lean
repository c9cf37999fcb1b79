import ScriptBridge.Value.Target

/-!
# Invocations

An invocation hands its arguments to a native function and takes its result. Arguments are read by
position into a list of typed outputs: either every argument that meets an output converts and all
of them are written, or no output changes.
-/

namespace ScriptBridge

/-- A place that an argument is read into: the type of the place and what it holds. -/
structure Output where
  /-- The type as which an argument is received. -/
  target : Target
  /-- The value that the place holds. -/
  held : Value

/-- Reads arguments into outputs, position by position. Outputs without an argument keep what they
hold, arguments without an output are passed over; `none` when an argument does not convert. -/
def readInto : List Output → List Value → Option (List Value)
  | [], _ => some []
  | outputs, [] => some (outputs.map Output.held)
  | output :: outputs, argument :: arguments => do
    -- the outputs behind a refused argument do not matter: nothing is written
    let value ← output.target.read? argument
    let values ← readInto outputs arguments
    return value :: values

/-- The arguments of one call of a native function, and its result so far. -/
structure Invocation where
  /-- The arguments in order. -/
  arguments : List Value
  /-- The result so far. -/
  result : Value

namespace Invocation

/-- An invocation that has not produced a result. -/
def ofArguments (arguments : List Value) : Invocation := ⟨arguments, .undefined⟩

/-- Reads the arguments from position `offset` on into `outputs`; `none` when fewer than
`required` arguments remain there or one of them does not convert. -/
def read? (call : Invocation) (offset required : Nat) (outputs : List Output) :
    Option (List Value) :=
  let rest := call.arguments.drop offset
  if rest.length < required then none else readInto outputs rest

/-- What the outputs hold after a read, whether it succeeded or not. -/
def outputsAfter (call : Invocation) (offset required : Nat) (outputs : List Output) :
    Bool × List Value :=
  match call.read? offset required outputs with
  | some values => (true, values)
  | none => (false, outputs.map Output.held)

/-- Leaves `value` as the result. -/
def answer (call : Invocation) (value : Value) : Invocation := { call with result := value }

/-- Takes the result away and leaves none. -/
def takeAnswer (call : Invocation) : Value × Invocation :=
  (call.result, { call with result := .undefined })

end Invocation

end ScriptBridge
