import ScriptBridge.Value.Basic
import ScriptBridge.Number.Layout

/-!
# The Text of a Value

The form in which values stand in messages. Texts are put between quotes as they are, numbers are
written positionally, and references show their handle.
-/

namespace ScriptBridge

namespace Value

mutual

/-- The text of a value. -/
def display : Value → String
  | undefined => "undefined"
  | null => "null"
  | bool b => if b then "true" else "false"
  | byte n => toString n.toNat
  | int n => toString n.toInt
  | float x => Number.Layout.message.single x
  | double x => Number.Layout.message.double x
  | string s => "\"" ++ s ++ "\""
  | object h => "[object " ++ h.text ++ "]"
  | array _ items => "[" ++ displayItems items ++ "]"
  | function h => "[function " ++ h.text ++ "]"

/-- The texts of several values, with commas between them. -/
def displayItems : List Value → String
  | [] => ""
  | [v] => display v
  | v :: w :: rest => display v ++ ", " ++ displayItems (w :: rest)

end

/-- The handle of an object or a function with the word for its kind, as it stands in messages. -/
def referenceText? : Value → Option String
  | object h => some ("ObjectRef(" ++ h.text ++ ")")
  | function h => some ("FunctionRef(" ++ h.text ++ ")")
  | _ => none

end Value

end ScriptBridge
