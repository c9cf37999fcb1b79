import ScriptBridge.Json.Document
import ScriptBridge.Json.Printer

/-!
# Options

The options of a realm, and how they are read from JSON. An object names the options it sets and
may name others, which are passed over; an array lists them in order, and a short one leaves the
rest at their defaults.
-/

namespace ScriptBridge

/-- What a load does about problems of the graph. -/
inductive Strictness where
  /-- Stubs without a target and failed writes are passed over. -/
  | lenient
  /-- The first such problem ends the load. -/
  | strict
deriving DecidableEq, Repr

/-- The options of a realm. -/
structure Options where
  /-- More live objects than this make a collection due at the end of a frame. -/
  collectionThreshold : Nat
  /-- What a load does about problems of the graph. -/
  strictness : Strictness
  /-- Objects and arrays that may nest in a snapshot. -/
  depthLimit : Nat
deriving DecidableEq, Repr

namespace Options

/-- The options of a realm that is given none. -/
def standard : Options := ⟨1024, .lenient, 100⟩

open Json

/-- A size: a whole number of 64 bits without sign. -/
def size? : Document → Option Nat
  | .number (some (.integer n)) => if 0 ≤ n then some n.toNat else none
  | _ => none

/-- The strictness with a given name. -/
def strictnessNamed? : String → Option Strictness
  | "lenient" => some .lenient
  | "strict" => some .strict
  | _ => none

/-- A strictness: its name, or an object that has the name as its only key and holds nothing. -/
def strictness? : Document → Option Strictness
  | .string (some name) => strictnessNamed? name
  | .object [(some name, .null)] => strictnessNamed? name
  | _ => none

/-- The options as they are written in a text: each at most once. -/
structure Written where
  /-- The collection threshold. -/
  collectionThreshold : Option Nat
  /-- The strictness. -/
  strictness : Option Strictness
  /-- The depth limit. -/
  depthLimit : Option Nat

/-- Reads the members of an object of options. -/
def ofMembers? (found : Written) : List (Option String × Document) → Option Written
  | [] => some found
  | (none, _) :: _ => none
  | (some "gc_threshold", value) :: members => do
    let n ← size? value
    -- an option that is given twice is refused
    if found.collectionThreshold.isSome then none
    else ofMembers? { found with collectionThreshold := some n } members
  | (some "load_mode", value) :: members => do
    let mode ← strictness? value
    if found.strictness.isSome then none
    else ofMembers? { found with strictness := some mode } members
  | (some "max_snapshot_depth", value) :: members => do
    let n ← size? value
    if found.depthLimit.isSome then none
    else ofMembers? { found with depthLimit := some n } members
  | (some _, _) :: members => ofMembers? found members

/-- Reads a list of options. -/
def ofItems? : List Document → Option Written
  | [] => some ⟨none, none, none⟩
  | [threshold] => do
    return ⟨some (← size? threshold), none, none⟩
  | [threshold, mode] => do
    return ⟨some (← size? threshold), some (← strictness? mode), none⟩
  | [threshold, mode, depth] => do
    return ⟨some (← size? threshold), some (← strictness? mode), some (← size? depth)⟩
  | _ => none

/-- The options with the defaults in the gaps. -/
def ofWritten (w : Written) : Options where
  collectionThreshold := w.collectionThreshold.getD standard.collectionThreshold
  strictness := w.strictness.getD standard.strictness
  depthLimit := w.depthLimit.getD standard.depthLimit

/-- The options written in a JSON text; `none` when the text is malformed or an option in it is. -/
def ofText? (text : String) : Option Options := do
  match ← Document.ofText? text with
  | .object members => (ofMembers? ⟨none, none, none⟩ members).map ofWritten
  | .array items => (ofItems? items).map ofWritten
  | _ => none

/-- The name of a strictness. -/
def strictnessName : Strictness → String
  | .lenient => "lenient"
  | .strict => "strict"

/-- The options as a JSON value. -/
def toJson (o : Options) : Json :=
  .object [("gc_threshold", .integer o.collectionThreshold),
    ("load_mode", .string (strictnessName o.strictness)),
    ("max_snapshot_depth", .integer o.depthLimit)]

end Options

end ScriptBridge
