import ScriptBridge.Value.Basic
import ScriptBridge.Json.Printer

/-!
# The Journal of a Scenario

What happens to the native state of a scenario, and what its callbacks and its evaluator do, is
written into a journal. A collection tells dying objects in no particular order, so the records
that this leaves are put last, sorted by their text.
-/

namespace ScriptBridge.Scenario

/-- What is written into the journal. -/
inductive Record where
  /-- A property was written. -/
  | written (property : String) (value : Value) (deserializing : Bool)
  /-- A setter looked at an object that it was given. -/
  | sawObject (alive : Bool) (className : Option String) (isInstance : Bool) (items : Option Nat)
  /-- A setter looked at an array that it was given. -/
  | sawArray (items : Option Nat) (classes : Nat)
  /-- A bag was told that its object is dying; some of the objects in its slots may be, too. -/
  | finalized (name : String) (dying : List (String × Bool))
  /-- A unit of source was run. -/
  | ran (unit source : String)
  /-- An expression was evaluated. -/
  | evaluated (source : String) (this : Option Handle)
  /-- A function that was written in a script was called. -/
  | called (name source : String) (this : Option Handle) (args : List Value)
  /-- A callback made a note. -/
  | noted (text : String) (value : Value) (count : Nat)

/-- The journal: the newest record first. -/
abbrev Journal := List Record

/-- The record of a dying object as text. -/
def Record.finalizedText? : Record → Option String
  | finalized name dying =>
    let states := dying.map fun (slot, isDying) => .array [.string slot, .bool isDying]
    some (Json.object [("finalize", .string name), ("dying", .array states)]).render
  | _ => none

/-- The records of a journal from the oldest to the newest, with those of dying objects at the end
and sorted by their text. -/
def Journal.inOrder (journal : Journal) : List Record :=
  let records := journal.reverse
  -- each record is sorted along with its text
  let dying := records.filterMap fun record => record.finalizedText?.map fun text => (text, record)
  records.filter (fun record => record.finalizedText?.isNone) ++
    (dying.mergeSort fun a b => !(b.1 < a.1)).map Prod.snd

end ScriptBridge.Scenario
