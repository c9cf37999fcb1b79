import ScriptBridge.Registry.Basic
import ScriptBridge.Text.Quoted

/-!
# Descriptions

The one-line texts in which classes, properties and functions are shown to the developer of an
embedding program.
-/

namespace ScriptBridge

variable {P : Platform}

/-- A name with its fields, each given with its text. -/
def describe (name : String) (fields : List (String × String)) : String :=
  let texts := fields.map fun (field, text) => field ++ ": " ++ text
  name ++ " \x7b " ++ ", ".intercalate texts ++ " \x7d"

/-- The text of a truth value. -/
def boolText (b : Bool) : String := if b then "true" else "false"

/-- A class: number, name, parent, marks, and the names of its own members. -/
def RegisteredClass.describe (c : ClassNumber) (d : RegisteredClass P) : String :=
  ScriptBridge.describe "ClassDescriptor"
    [("id", c.text), ("name", Text.quoted d.outline.name),
      ("parent", d.outline.parent.elim "None" fun parent => "Some(" ++ parent.text ++ ")"),
      ("singleton", boolText d.outline.singleton), ("builtin", boolText d.outline.builtin),
      ("properties", Text.quotedList d.properties.keys),
      ("functions", Text.quotedList d.functions.keys)]

/-- A property: name, kind and flags. -/
def BoundProperty.describe (b : BoundProperty P) : String :=
  ScriptBridge.describe "PropertyBinding"
    [("name", Text.quoted b.name), ("tag", b.accessor.tag.label), ("flags", b.flags.text)]

/-- The elements of a class: their flags. -/
def BoundElements.describe (b : BoundElements P) : String :=
  ScriptBridge.describe "IndexedBinding" [("flags", b.flags.text)]

/-- A native function: its name. -/
def describeFunction (name : String) : String :=
  ScriptBridge.describe "NativeFunction" [("name", Text.quoted name)]

/-- The origin of a function: native code, or a source text. -/
def FunctionBody.describe (body : FunctionBody P) : String :=
  match body with
  | .native _ => "Native"
  | .script source => ScriptBridge.describe "Script" [("source", Text.quoted source)]

end ScriptBridge
