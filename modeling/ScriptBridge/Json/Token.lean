import ScriptBridge.Number.Reading

/-!
# Tokens of JSON Texts

A JSON text is split into punctuation, words, numbers and quoted texts. Two properties of a token
are recorded instead of refused on sight, since a reader may pass over a value without looking at
it: a number may be too large for a double, and a quoted text may contain half of a surrogate pair.
-/

namespace ScriptBridge.Json

/-- The value of a written number. -/
inductive Numeral where
  /-- A number without fraction and exponent, within 64 bits. -/
  | integer (n : Int)
  /-- Any other number. -/
  | double (x : Float)

/-- A token of a JSON text. -/
inductive Token where
  /-- The bracket `[`. -/
  | openArray
  /-- The bracket `]`. -/
  | closeArray
  /-- An opening brace. -/
  | openObject
  /-- A closing brace. -/
  | closeObject
  /-- A colon. -/
  | colon
  /-- A comma. -/
  | comma
  /-- The word `null`. -/
  | null
  /-- One of the words `true` and `false`. -/
  | bool (b : Bool)
  /-- A number, with its value if it has one. -/
  | number (value : Option Numeral)
  /-- A quoted text, with the text that it stands for if it stands for one. -/
  | string (text : Option String)

/-! ## Numbers -/

/-- Appends digits to a 64-bit word as long as they fit; the digits that are left do not. -/
def gather (word : Nat) : List Nat → Nat × List Nat
  | [] => (word, [])
  | digit :: digits =>
    if word * 10 + digit < UInt64.size then gather (word * 10 + digit) digits
    else (word, digit :: digits)

/-- The value of decimal digits. -/
def digitsValue (digits : List Nat) : Nat := digits.foldl (fun n digit => n * 10 + digit) 0

/-- A written number, taken apart. -/
structure Numeric where
  /-- Whether a minus sign stands in front. -/
  negative : Bool
  /-- The digits in front of the point. -/
  whole : List Nat
  /-- The digits behind the point; empty without a point. -/
  fraction : List Nat
  /-- The exponent, if one is written. -/
  exponent : Option Int

/-- The value of a written number; `none` when it is too large for a double. A whole number that
fits 64 bits is exact, all others go through the 64-bit word of their leading digits. -/
def Numeric.value? (n : Numeric) : Option Numeral :=
  let (word, wholeRest) := gather 0 n.whole
  if wholeRest.isEmpty && n.fraction.isEmpty && n.exponent.isNone then
    if !n.negative then some (.integer word)
    -- an integer has no negative zero, and below the range of 64 bits with sign nothing is exact
    else if word = 0 || -(word : Int) < Int64.minValue.toInt then
      some (.double (-(UInt64.ofNat word).toFloat))
    else some (.integer (-(word : Int)))
  else
    -- the word goes on with the fraction; digits that found no room count as places only
    let (word, fractionRest) := gather word n.fraction
    let place : Int := wholeRest.length + fractionRest.length - (n.fraction.length : Int)
    (Number.scaled? (UInt64.ofNat word) (place + n.exponent.getD 0)).map fun x =>
      .double (if n.negative then -x else x)

/-- The leading decimal digits of a text, and what follows them. -/
def spanDigits : List Char → List Nat × List Char
  | [] => ([], [])
  | c :: cs =>
    if c.isDigit then
      let (digits, rest) := spanDigits cs
      ((c.toNat - '0'.toNat) :: digits, rest)
    else ([], c :: cs)

/-- The fraction at the head of a text: none, or a point with at least one digit. -/
def fraction? : List Char → Option (List Nat × List Char)
  | '.' :: cs =>
    let (digits, rest) := spanDigits cs
    if digits.isEmpty then none else some (digits, rest)
  | cs => some ([], cs)

/-- The digits of an exponent behind its sign. -/
def exponentDigits? (negative : Bool) (cs : List Char) : Option (Option Int × List Char) :=
  let (digits, rest) := spanDigits cs
  if digits.isEmpty then none
  else
    let size : Int := digitsValue digits
    some (some (if negative then -size else size), rest)

/-- The exponent at the head of a text: none, or the letter E, a sign or none, and a digit or
more. -/
def exponent? : List Char → Option (Option Int × List Char)
  | c :: cs =>
    if c = 'e' || c = 'E' then
      match cs with
      | '+' :: rest => exponentDigits? false rest
      | '-' :: rest => exponentDigits? true rest
      | rest => exponentDigits? false rest
    else some (none, c :: cs)
  | [] => some (none, [])

/-- The number at the head of a text, without its sign. A zero in front stands alone. -/
def unsigned? (negative : Bool) (cs : List Char) : Option (Numeric × List Char) := do
  let (whole, rest) := spanDigits cs
  if whole.isEmpty then none
  -- no digit may follow a zero in front
  else if whole.head? = some 0 && 1 < whole.length then none
  else
    let (fraction, rest) ← fraction? rest
    let (exponent, rest) ← exponent? rest
    return (⟨negative, whole, fraction, exponent⟩, rest)

/-! ## Quoted texts -/

/-- The value of a hexadecimal digit. -/
def hexDigit? (c : Char) : Option Nat :=
  if '0' ≤ c && c ≤ '9' then some (c.toNat - '0'.toNat)
  else if 'a' ≤ c && c ≤ 'f' then some (c.toNat - 'a'.toNat + 10)
  else if 'A' ≤ c && c ≤ 'F' then some (c.toNat - 'A'.toNat + 10)
  else none

/-- The value of four hexadecimal digits. -/
def hexUnit? (a b c d : Char) : Option Nat := do
  let a ← hexDigit? a
  let b ← hexDigit? b
  let c ← hexDigit? c
  let d ← hexDigit? d
  return ((a * 16 + b) * 16 + c) * 16 + d

/-- The first half of a surrogate pair. -/
def isLeadSurrogate (unit : Nat) : Bool := 0xd800 ≤ unit && unit ≤ 0xdbff

/-- The second half of a surrogate pair. -/
def isTrailSurrogate (unit : Nat) : Bool := 0xdc00 ≤ unit && unit ≤ 0xdfff

/-- The character that a letter behind a backslash stands for. -/
def escaped? : Char → Option Char
  | '"' => some '"'
  | '\\' => some '\\'
  | '/' => some '/'
  | 'b' => some '\x08'
  | 'f' => some '\x0c'
  | 'n' => some '\n'
  | 'r' => some '\r'
  | 't' => some '\t'
  | _ => none

/-- Reads a quoted text up to its closing quote. `found` holds the characters so far, last one
first, and is `none` once half of a surrogate pair was met. -/
def quoted? (found : Option (List Char)) : List Char → Option (Option String × List Char)
  | [] => none
  | '"' :: rest => some (found.map (fun cs => String.ofList cs.reverse), rest)
  | '\\' :: 'u' :: a :: b :: c :: d :: '\\' :: 'u' :: e :: f :: g :: h :: rest =>
    match hexUnit? a b c d, hexUnit? e f g h with
    | some lead, some trail =>
      -- two halves of a pair make one character
      if isLeadSurrogate lead && isTrailSurrogate trail then
        let code := 0x10000 + (lead - 0xd800) * 0x400 + (trail - 0xdc00)
        quoted? (found.map (Char.ofNat code :: ·)) rest
      -- a lone half spoils the text, but reading goes on to find where it ends
      else if isLeadSurrogate lead || isTrailSurrogate lead then
        quoted? none ('\\' :: 'u' :: e :: f :: g :: h :: rest)
      else
        quoted? (found.map (Char.ofNat lead :: ·)) ('\\' :: 'u' :: e :: f :: g :: h :: rest)
    | _, _ => none
  | '\\' :: 'u' :: a :: b :: c :: d :: rest =>
    match hexUnit? a b c d with
    | some unit =>
      if isLeadSurrogate unit || isTrailSurrogate unit then quoted? none rest
      else quoted? (found.map (Char.ofNat unit :: ·)) rest
    | none => none
  | '\\' :: c :: rest =>
    match escaped? c with
    | some character => quoted? (found.map (character :: ·)) rest
    | none => none
  | c :: rest => if c.toNat < 0x20 || c = '\\' then none else quoted? (found.map (c :: ·)) rest

/-! ## Tokens -/

/-- The characters that may stand between tokens. -/
def isSpace (c : Char) : Bool := c = ' ' || c = '\t' || c = '\n' || c = '\r'

/-- The token at the head of a text, and what follows it. -/
def token? : List Char → Option (Token × List Char)
  | '[' :: rest => some (.openArray, rest)
  | ']' :: rest => some (.closeArray, rest)
  | '\x7b' :: rest => some (.openObject, rest)
  | '\x7d' :: rest => some (.closeObject, rest)
  | ':' :: rest => some (.colon, rest)
  | ',' :: rest => some (.comma, rest)
  | 'n' :: 'u' :: 'l' :: 'l' :: rest => some (.null, rest)
  | 't' :: 'r' :: 'u' :: 'e' :: rest => some (.bool true, rest)
  | 'f' :: 'a' :: 'l' :: 's' :: 'e' :: rest => some (.bool false, rest)
  | '"' :: rest => (quoted? (some []) rest).map fun (text, rest) => (.string text, rest)
  | '-' :: rest => (unsigned? true rest).map fun (n, rest) => (.number n.value?, rest)
  | rest => (unsigned? false rest).map fun (n, rest) => (.number n.value?, rest)

/-- The tokens of a text of at most `bound` characters. -/
def tokensWithin? : (bound : Nat) → List Char → Option (List Token)
  | _, [] => some []
  | 0, _ :: _ => none
  | bound + 1, c :: cs =>
    if isSpace c then tokensWithin? bound cs
    else do
      let (token, rest) ← token? (c :: cs)
      let tokens ← tokensWithin? bound rest
      return token :: tokens

/-- The tokens of a text; `none` when some part of it is no token. Every token takes at least one
character, so as many steps as characters suffice. -/
def tokens? (text : String) : Option (List Token) :=
  let cs := text.toList
  tokensWithin? cs.length cs

end ScriptBridge.Json
