import ScriptBridge.Scenario.Journal
import ScriptBridge.Scenario.Term

/-!
# The Stage of a Scenario

What a scenario keeps outside of the heap: the names that its steps have given to values, and the
journal.
-/

namespace ScriptBridge.Scenario

/-- What a scenario keeps outside of the heap. -/
structure Stage where
  /-- The values that names stand for. -/
  bindings : Bindings
  /-- What has happened. -/
  journal : Journal

namespace Stage

/-- The stage before anything has happened. -/
def empty : Stage := ⟨[], []⟩

/-- Writes into the journal. -/
def record (stage : Stage) (entry : Record) : Stage :=
  { stage with journal := entry :: stage.journal }

/-- Gives a name to a value. -/
def bind (stage : Stage) (name : String) (value : Value) : Stage :=
  { stage with bindings := (name, value) :: stage.bindings }

/-- Starts a new journal. -/
def clearJournal (stage : Stage) : Stage := { stage with journal := [] }

end Stage

end ScriptBridge.Scenario
