import ScriptBridge.Value.Basic

/-!
# Errors

What can go wrong on the bridge, as causes; the wording of each cause is in one `message` function
per kind of error.
-/

namespace ScriptBridge

/-! ## Script errors -/

/-- Errors raised at the boundary between native code and scripts. -/
inductive ScriptError where
  /-- A function was called with the wrong arguments. -/
  | usage (text : String)
  /-- A value of kind `got` stood where one of kind `expected` was needed. -/
  | typeMismatch (expected got : Tag)
  /-- A property without a setter was written. -/
  | readOnly (property : String)
  /-- A name without a function was called. -/
  | notCallable (name : String)
  /-- No class has this name. -/
  | unknownClass (name : String)
  /-- The class cannot be instantiated by a script. -/
  | notConstructible (name : String)
  /-- A handle no longer resolves. -/
  | deadObject
  /-- There is nothing to run source text with. -/
  | noEvaluator
  /-- Script or native code raised an error of its own. -/
  | thrown (text : String)
deriving DecidableEq, Repr

/-- The name of the cause of a script error. -/
def ScriptError.kind : ScriptError → String
  | usage _ => "Usage"
  | typeMismatch _ _ => "TypeMismatch"
  | readOnly _ => "ReadOnly"
  | notCallable _ => "NotCallable"
  | unknownClass _ => "UnknownClass"
  | notConstructible _ => "NotConstructible"
  | deadObject => "DeadObject"
  | noEvaluator => "NoEvaluator"
  | thrown _ => "Thrown"

/-- The script error with a cause of a given name, for causes that are told by a text at most. -/
def ScriptError.ofForm? (kind text : String) : Option ScriptError :=
  [usage text, readOnly text, notCallable text, unknownClass text, notConstructible text,
    deadObject, noEvaluator, thrown text].find? fun error => error.kind == kind

/-- The wording of a script error. -/
def ScriptError.message : ScriptError → String
  | usage text => "Usage error: " ++ text
  | typeMismatch expected got => "Type mismatch: expected " ++ expected.name ++ ", got " ++ got.name
  | readOnly property => "Property '" ++ property ++ "' is read-only"
  | notCallable name => "'" ++ name ++ "' is not a function"
  | unknownClass name => "Unknown class: " ++ name
  | notConstructible name => "Class '" ++ name ++ "' cannot be constructed from script"
  | deadObject => "Object handle is no longer alive"
  | noEvaluator => "No script evaluator installed"
  | thrown text => text

/-! ## Registration errors -/

/-- Errors raised while classes are registered. -/
inductive RegistrationError where
  /-- The name is taken by another class. -/
  | duplicateClass (name : String)
  /-- The class to be extended does not exist. -/
  | unknownParent (name parent : String)
  /-- No class has this name or number. -/
  | unknownClass (name : String)
  /-- A function for built-in classes was bound to a class that is not built in. -/
  | notBuiltin (name : String)
  /-- The class already binds a property of this name. -/
  | propertyRedefinition (owner property : String)
  /-- The class, or the global scope, already binds a function of this name. -/
  | functionRedefinition (owner function : String)
  /-- The flags of a property contradict each other. -/
  | invalidFlags (property reason : String)
deriving DecidableEq, Repr

/-- The name of the cause of a registration error. -/
def RegistrationError.kind : RegistrationError → String
  | duplicateClass _ => "DuplicateClass"
  | unknownParent _ _ => "UnknownParent"
  | unknownClass _ => "UnknownClass"
  | notBuiltin _ => "NotBuiltin"
  | propertyRedefinition _ _ => "PropertyRedefinition"
  | functionRedefinition _ _ => "FunctionRedefinition"
  | invalidFlags _ _ => "InvalidFlags"

/-- The wording of a registration error. -/
def RegistrationError.message : RegistrationError → String
  | duplicateClass name => "Class '" ++ name ++ "' is already registered"
  | unknownParent name parent => "Unknown parent class '" ++ parent ++ "' for '" ++ name ++ "'"
  | unknownClass name => "Unknown class: " ++ name
  | notBuiltin name => "Class '" ++ name ++ "' is not a built-in class"
  | propertyRedefinition owner property =>
    "Property '" ++ property ++ "' is already defined on '" ++ owner ++ "'"
  | functionRedefinition owner function =>
    "Function '" ++ function ++ "' is already defined on '" ++ owner ++ "'"
  | invalidFlags property reason => "Invalid flags on '" ++ property ++ "': " ++ reason

/-! ## Snapshot errors -/

/-- Errors raised while snapshots are written or read. -/
inductive SnapshotError where
  /-- Objects or arrays nest deeper than the limit. -/
  | depthExceeded (limit : Nat)
  /-- No node carries the identifier that a stub names. -/
  | unresolvedStub (id : String)
  /-- The snapshot itself is not well formed. -/
  | malformed (reason : String)
  /-- A reference to a live object has no text. -/
  | liveReference
  /-- An accessor, a constructor or an awake handler failed. -/
  | script (error : ScriptError)
  /-- A text is not well-formed JSON. -/
  | json
deriving DecidableEq, Repr

/-- The name of the cause of a snapshot error; a script error is named with its own cause. -/
def SnapshotError.kind : SnapshotError → String
  | depthExceeded _ => "DepthExceeded"
  | unresolvedStub _ => "UnresolvedStub"
  | malformed _ => "Malformed"
  | liveReference => "LiveReference"
  | script error => "Script." ++ error.kind
  | json => "Json"

/-- The wording of a snapshot error. -/
def SnapshotError.message : SnapshotError → String
  | depthExceeded limit => "Snapshot depth limit of " ++ toString limit ++ " exceeded"
  | unresolvedStub id => "Unresolved stub reference '" ++ id ++ "'"
  | malformed reason => "Malformed snapshot: " ++ reason
  | liveReference => "Live object references cannot be written as text"
  | script error => error.message
  | json => "JSON error"

/-! ## Errors of the bridge -/

/-- Everything that can go wrong for a host program. -/
inductive BridgeError where
  /-- A registration failed. -/
  | registry (error : RegistrationError)
  /-- A snapshot could not be written or read. -/
  | snapshot (error : SnapshotError)
  /-- A script operation failed. -/
  | script (error : ScriptError)
deriving DecidableEq, Repr

/-- The wording of an error with the area that it comes from. -/
def BridgeError.message : BridgeError → String
  | registry error => "Registry error: " ++ error.message
  | snapshot error => "Snapshot error: " ++ error.message
  | script error => "Script error: " ++ error.message

end ScriptBridge
