import ScriptBridge.Json.Basic
import ScriptBridge.Number.Layout

/-!
# Writing JSON

The compact form has no blanks; the pretty form puts each item and each member on a line of its
own, indented by two blanks for each open container, and keeps empty containers on one line.
Quoted texts escape the quote, the backslash and the control characters only.
-/

namespace ScriptBridge.Json

/-- The character of a hexadecimal digit. -/
def hexDigit (n : Nat) : Char := if n < 10 then Char.ofNat (48 + n) else Char.ofNat (87 + n)

/-- A character as it stands between quotes. -/
def quotedChar (c : Char) : List Char :=
  if c = '"' then ['\\', '"']
  else if c = '\\' then ['\\', '\\']
  else if c.toNat < 0x20 then
    if c = '\x08' then ['\\', 'b']
    else if c = '\t' then ['\\', 't']
    else if c = '\n' then ['\\', 'n']
    else if c = '\x0c' then ['\\', 'f']
    else if c = '\r' then ['\\', 'r']
    else ['\\', 'u', '0', '0', hexDigit (c.toNat / 16), hexDigit (c.toNat % 16)]
  else [c]

/-- A text between quotes. -/
def quote (s : String) : String := "\"" ++ String.ofList (s.toList.flatMap quotedChar) ++ "\""

mutual

/-- The compact text of a value. -/
def render : Json → String
  | null => "null"
  | bool b => if b then "true" else "false"
  | integer n => toString n
  | double x => Number.Layout.json.double x
  | string s => quote s
  | array items => "[" ++ renderItems items ++ "]"
  | object members => "\x7b" ++ renderMembers members ++ "\x7d"

/-- The compact texts of items, with commas between them. -/
def renderItems : List Json → String
  | [] => ""
  | [item] => render item
  | item :: next :: items => render item ++ "," ++ renderItems (next :: items)

/-- The compact texts of members, with commas between them. -/
def renderMembers : List (String × Json) → String
  | [] => ""
  | [(key, value)] => quote key ++ ":" ++ render value
  | (key, value) :: next :: members =>
    quote key ++ ":" ++ render value ++ "," ++ renderMembers (next :: members)

end

/-- The start of a line inside `depth` open containers. -/
def indent (depth : Nat) : String := "\n" ++ String.ofList (List.replicate (2 * depth) ' ')

mutual

/-- The pretty text of a value inside `depth` open containers. -/
def renderPretty (depth : Nat) : Json → String
  | null => "null"
  | bool b => if b then "true" else "false"
  | integer n => toString n
  | double x => Number.Layout.json.double x
  | string s => quote s
  | array [] => "[]"
  | array (item :: items) =>
    "[" ++ indent (depth + 1) ++ renderPretty (depth + 1) item ++ prettyItems (depth + 1) items ++
      indent depth ++ "]"
  | object [] => "\x7b\x7d"
  | object ((key, value) :: members) =>
    "\x7b" ++ indent (depth + 1) ++ quote key ++ ": " ++ renderPretty (depth + 1) value ++
      prettyMembers (depth + 1) members ++ indent depth ++ "\x7d"

/-- The pretty texts of the items behind the first one. -/
def prettyItems (depth : Nat) : List Json → String
  | [] => ""
  | item :: items => "," ++ indent depth ++ renderPretty depth item ++ prettyItems depth items

/-- The pretty texts of the members behind the first one. -/
def prettyMembers (depth : Nat) : List (String × Json) → String
  | [] => ""
  | (key, value) :: members =>
    "," ++ indent depth ++ quote key ++ ": " ++ renderPretty depth value ++
      prettyMembers depth members

end

/-- The pretty text of a value. -/
def pretty (value : Json) : String := renderPretty 0 value

end ScriptBridge.Json
