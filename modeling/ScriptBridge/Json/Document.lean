import ScriptBridge.Json.Basic
import ScriptBridge.Json.Token
import ScriptBridge.Table

/-!
# JSON Documents

A document is the tree of a well-formed JSON text, as it is written: repeated keys are all kept,
and what has no value stands as a gap. A document becomes a value when every number and every
text in it has a value and its containers do not nest too deeply. Of a repeated key the first
place and the last value count.
-/

namespace ScriptBridge.Json

/-- The tree of a JSON text. -/
inductive Document where
  /-- The null value. -/
  | null
  /-- A truth value. -/
  | bool (b : Bool)
  /-- A number, with its value if it has one. -/
  | number (value : Option Numeral)
  /-- A text, if the quoted text stands for one. -/
  | string (text : Option String)
  /-- Items in order. -/
  | array (items : List Document)
  /-- Members as written. -/
  | object (members : List (Option String × Document))

namespace Document

/-! ## From tokens -/

mutual

/-- The value at the head of the tokens, and the tokens behind it, found within `bound` steps. -/
def value? : (bound : Nat) → List Token → Option (Document × List Token)
  | 0, _ => none
  | _ + 1, .null :: rest => some (.null, rest)
  | _ + 1, .bool b :: rest => some (.bool b, rest)
  | _ + 1, .number value :: rest => some (.number value, rest)
  | _ + 1, .string text :: rest => some (.string text, rest)
  | _ + 1, .openArray :: .closeArray :: rest => some (.array [], rest)
  | bound + 1, .openArray :: rest =>
    (items? bound rest).map fun (items, rest) => (.array items, rest)
  | _ + 1, .openObject :: .closeObject :: rest => some (.object [], rest)
  | bound + 1, .openObject :: rest =>
    (members? bound rest).map fun (members, rest) => (.object members, rest)
  | _ + 1, _ => none

/-- The items at the head of the tokens, up to the end of their array. -/
def items? : (bound : Nat) → List Token → Option (List Document × List Token)
  | 0, _ => none
  | bound + 1, tokens => do
    let (item, rest) ← value? bound tokens
    match rest with
    | .comma :: rest => (items? bound rest).map fun (items, rest) => (item :: items, rest)
    | .closeArray :: rest => some ([item], rest)
    | _ => none

/-- The members at the head of the tokens, up to the end of their object. -/
def members? : (bound : Nat) → List Token → Option (List (Option String × Document) × List Token)
  | bound + 1, .string key :: .colon :: rest => do
    let (value, rest) ← value? bound rest
    match rest with
    | .comma :: rest =>
      (members? bound rest).map fun (members, rest) => ((key, value) :: members, rest)
    | .closeObject :: rest => some ([(key, value)], rest)
    | _ => none
  | _, _ => none

end

/-- The document that a text is. Every second step takes a token, which bounds the steps. -/
def ofText? (text : String) : Option Document := do
  let tokens ← tokens? text
  match value? (2 * tokens.length + 2) tokens with
  | some (document, []) => some document
  | _ => none

/-! ## To values -/

mutual

/-- The value of a document that nests at most `room` containers. -/
def toJson? (room : Nat) : Document → Option Json
  | .null => some .null
  | .bool b => some (.bool b)
  | .number none => none
  | .number (some (.integer n)) => some (.integer n)
  | .number (some (.double x)) => some (.double x)
  | .string text => text.map Json.string
  | .array items =>
    if room = 0 then none else (toItems? (room - 1) items).map Json.array
  | .object members =>
    if room = 0 then none else (toMembers? (room - 1) [] members).map Json.object

/-- The values of items. -/
def toItems? (room : Nat) : List Document → Option (List Json)
  | [] => some []
  | item :: items => do
    let value ← toJson? room item
    let values ← toItems? room items
    return value :: values

/-- The members of an object, given those that were written before. -/
def toMembers? (room : Nat) (found : List (String × Json)) :
    List (Option String × Document) → Option (List (String × Json))
  | [] => some found
  | (none, _) :: _ => none
  | (some key, document) :: members => do
    let value ← toJson? room document
    toMembers? room (insertEntry key value found) members

end

end Document

/-- The most containers that nest in a text that is read back. -/
def maxTextNesting : Nat := 127

/-- The value of a JSON text. -/
def ofText? (text : String) : Option Json := do
  (← Document.ofText? text).toJson? maxTextNesting

end ScriptBridge.Json
