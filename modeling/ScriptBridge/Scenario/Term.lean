import ScriptBridge.Value.Basic

/-!
# Terms

A scenario gives names to the values that its steps answer with, and uses the names later on. What
it writes down is a term. The value of a term is found whenever the term is used, so a callback
sees what a name stands for at the time of the call, and not what it stood for when the callback
was defined.
-/

namespace ScriptBridge.Scenario

/-- The values that names stand for. The latest binding of a name comes first and counts. -/
abbrev Bindings := List (String × Value)

/-- The handle that stands for a reference that was never set. -/
def unsetHandle : Handle := ⟨0xffffffff, 0⟩

/-- What refers to an object. -/
inductive Reference where
  /-- A handle. -/
  | handle (h : Handle)
  /-- The name of a value that has a handle. -/
  | named (name : String)

/-- The handle that is meant. A name that stands for no reference means one that was never set. -/
def Reference.resolve (bindings : Bindings) : Reference → Handle
  | handle h => h
  | named name => ((bindings.lookup name).bind Value.reference?).getD unsetHandle

/-- A value as a scenario writes it. -/
inductive Term where
  /-- A value without names in it. -/
  | literal (value : Value)
  /-- What a name stands for. -/
  | named (name : String)
  /-- An object. -/
  | object (reference : Reference)
  /-- A function. -/
  | function (reference : Reference)
  /-- An array, with the object that it is the contents of, if there is one. -/
  | array (origin : Option Reference) (items : List Term)

namespace Term

mutual

/-- The value of a term. A name without a binding stands for undefined. -/
def value (bindings : Bindings) : Term → Value
  | literal v => v
  | named name => (bindings.lookup name).getD .undefined
  | object reference => .object (reference.resolve bindings)
  | function reference => .function (reference.resolve bindings)
  | array origin items =>
    .array (origin.map fun reference => reference.resolve bindings) (values bindings items)

/-- The values of several terms. -/
def values (bindings : Bindings) : List Term → List Value
  | [] => []
  | term :: terms => value bindings term :: values bindings terms

end

theorem values_eq_map (bindings : Bindings) (terms : List Term) :
    values bindings terms = terms.map (value bindings) := by
  induction terms with
  | nil => rfl
  | cons term terms ih => rw [values, ih, List.map_cons]

end Term

end ScriptBridge.Scenario
