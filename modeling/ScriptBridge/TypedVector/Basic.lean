import ScriptBridge.TypedVector.Element

/-!
# Typed Vectors

A typed vector holds elements of one declared type. It starts without a type and takes one by
declaration or from the first value that it is given. Changing the type converts every element.
Two locks are independent of each other: a locked type can no longer change, and a vector of
locked size refuses to grow and to shrink. Object vectors may name a class for their elements.

An operation that is refused answers `none`, and there is no new vector then.
-/

namespace ScriptBridge

/-- The elements of a typed vector. -/
inductive Elements where
  /-- No type has been declared, and there are no elements. -/
  | untyped
  /-- Elements of a declared type. -/
  | typed (type : ElementType) (items : List type.Carrier)

namespace Elements

/-- The declared type. -/
def type? : Elements → Option ElementType
  | untyped => none
  | typed type _ => some type

/-- The number of elements. -/
def size : Elements → Nat
  | untyped => 0
  | typed _ items => items.length

/-- The elements as values. -/
def values : Elements → List Value
  | untyped => []
  | typed type items => items.map type.write

/-- Values as elements of a type, if all of them convert. -/
def ofValues? (type : ElementType) (values : List Value) : Option Elements :=
  (type.readAll? values).map (typed type)

/-- Equality of elements, one by one. -/
def sameItems (type : ElementType) : List type.Carrier → List type.Carrier → Bool
  | [], [] => true
  | x :: xs, y :: ys => type.same x y && sameItems type xs ys
  | _, _ => false

/-- Equality: of the same type with equal elements. -/
def same : Elements → Elements → Bool
  | untyped, untyped => true
  -- elements can be compared once their types are known to be equal
  | typed s xs, typed t ys => if h : s = t then sameItems t (h ▸ xs) ys else false
  | _, _ => false

/-- The handles of the objects among the elements. -/
def handles : Elements → List Handle
  | typed .object items => items.filterMap id
  | _ => []

end Elements

/-- A vector of elements of one type. -/
structure TypedVector where
  /-- The elements and their type. -/
  elements : Elements
  /-- Operations that change the size are refused. -/
  sizeLocked : Bool
  /-- The type, once declared, no longer changes. -/
  typeLocked : Bool
  /-- The class that object elements must be instances of. -/
  elementClass : Option String

namespace TypedVector

/-- The vector without a type, elements and locks. -/
def empty : TypedVector := ⟨.untyped, false, false, none⟩

instance : Inhabited TypedVector := ⟨empty⟩

/-- The empty vector of a type. -/
def ofType (type : ElementType) : TypedVector := { empty with elements := .typed type [] }

/-- The declared type. -/
def type? (v : TypedVector) : Option ElementType := v.elements.type?

/-- The number of elements. -/
def size (v : TypedVector) : Nat := v.elements.size

/-- The elements as values. -/
def values (v : TypedVector) : List Value := v.elements.values

/-- The handles that a vector keeps alive. -/
def handles (v : TypedVector) : List Handle := v.elements.handles

/-- Equality of vectors: elements, locks and element class. -/
def same (v w : TypedVector) : Bool :=
  v.elements.same w.elements && v.sizeLocked == w.sizeLocked && v.typeLocked == w.typeLocked &&
    v.elementClass == w.elementClass

/-! ## Type -/

/-- Declares or changes the type; every element has to convert. -/
def retype? (v : TypedVector) (type : ElementType) : Option TypedVector :=
  if v.type? = some type then some v
  else if v.type?.isSome && v.typeLocked then none
  else (Elements.ofValues? type v.values).map fun elements => { v with elements }

/-- Takes the type of a value when there is no type yet. -/
def adoptType? (v : TypedVector) (value : Value) : Option TypedVector :=
  if v.type?.isSome then some v
  else (ElementType.ofTag? value.tag).bind v.retype?

/-- Limits the elements to objects of a class, or lifts the limit. A vector without a type becomes
an object vector; a vector of another type is refused. -/
def restrictTo? (v : TypedVector) (name : Option String) : Option TypedVector :=
  if name.isNone then some { v with elementClass := name }
  else match v.elements with
    | .untyped => some { v with elements := .typed .object [], elementClass := name }
    | .typed .object _ => some { v with elementClass := name }
    | .typed _ _ => none

/-! ## Single elements -/

/-- The element at a position. -/
def get? (v : TypedVector) (index : Nat) : Option Value :=
  match v.elements with
  | .untyped => none
  | .typed type items => items[index]?.map type.write

/-- Stores a value at a position; the position behind the last element appends. -/
def set? (v : TypedVector) (index : Nat) (value : Value) : Option TypedVector :=
  -- no gaps, and no growth when the size is locked
  if v.size < index || (index == v.size && v.sizeLocked) then none
  else do
    let v ← v.adoptType? value
    match v.elements with
    | .untyped => none
    | .typed type items =>
      let x ← type.read? value
      let items := if index = items.length then items ++ [x] else items.set index x
      return { v with elements := .typed type items }

/-- The first position whose element equals the value after conversion. -/
def indexOf? (v : TypedVector) (value : Value) : Option Nat :=
  match v.elements with
  | .untyped => none
  | .typed type items => (type.read? value).bind fun x => items.findIdx? (type.same · x)

/-! ## Several elements -/

/-- Cuts off or fills up with zeros. -/
def resize? (v : TypedVector) (size : Nat) : Option TypedVector :=
  if size = v.size then some v
  else if v.sizeLocked then none
  else match v.elements with
    | .untyped => none
    | .typed type items =>
      let items := items.take size ++ List.replicate (size - items.length) type.zero
      some { v with elements := .typed type items }

/-- Replaces every element. A vector without a type takes the type of the first value. -/
def assign? (v : TypedVector) (values : List Value) : Option TypedVector :=
  if v.sizeLocked && values.length != v.size then none
  else match values with
    | [] =>
      -- no values: the type stays
      match v.elements with
      | .untyped => some v
      | .typed type _ => some { v with elements := .typed type [] }
    | first :: _ => do
      let type ← v.type?.or (ElementType.ofTag? first.tag)
      let elements ← Elements.ofValues? type values
      return { v with elements }

/-- Takes over the elements of another vector, and its type when there is none yet. -/
def copyFrom? (v other : TypedVector) : Option TypedVector :=
  if v.sizeLocked && other.size != v.size then none
  -- elements of the same type need no conversion
  else if v.type?.isNone || v.type? == other.type? then some { v with elements := other.elements }
  else v.assign? other.values

/-- Appends values. -/
def push? (v : TypedVector) (values : List Value) : Option TypedVector :=
  if v.sizeLocked then none
  else match values with
    | [] => some v
    | first :: _ =>
      match v.elements with
      | .untyped => do
        let type ← ElementType.ofTag? first.tag
        let elements ← Elements.ofValues? type values
        return { v with elements }
      | .typed type items => do
        let more ← type.readAll? values
        return { v with elements := .typed type (items ++ more) }

/-- Removes the last element; an empty vector has none to give. -/
def pop? (v : TypedVector) : Option (Value × TypedVector) :=
  if v.sizeLocked then none
  else match v.elements with
    | .untyped => none
    | .typed type items =>
      items.getLast?.map fun x => (type.write x, { v with elements := .typed type items.dropLast })

/-- The position that an index stands for: a negative one counts from the end, and all are clamped
to the vector. -/
def position (index : Int) (size : Nat) : Nat :=
  let resolved := if index < 0 then (size : Int) + index else index
  (max 0 (min resolved size)).toNat

/-- A copy of the elements between two positions; without an end, up to the last one. The copy is
free to grow. -/
def slice (v : TypedVector) (start : Int) (stop : Option Int) : TypedVector :=
  let first := position start v.size
  let last := max first (stop.elim v.size (position · v.size))
  let elements := match v.elements with
    | .untyped => .untyped
    | .typed type items => .typed type ((items.take last).drop first)
  { v with elements, sizeLocked := false }

/-- Removes elements and puts others in their place; without a count, all from the start on. The
elements that were removed come first in the answer. -/
def splice? (v : TypedVector) (start : Int) (count : Option Nat) (insert : List Value) :
    Option (List Value × TypedVector) :=
  let first := position start v.size
  let count := min (count.getD (v.size - first)) (v.size - first)
  -- a vector of locked size accepts a replacement of the same length
  if v.sizeLocked && count != insert.length then none
  else match v.elements, insert with
    | .untyped, [] => some ([], v)
    -- there is nothing to remove, and the first value decides about the type
    | .untyped, value :: _ => do
      let type ← ElementType.ofTag? value.tag
      let elements ← Elements.ofValues? type insert
      return ([], { v with elements })
    | .typed type items, insert => do
      let added ← type.readAll? insert
      let items' := items.take first ++ added ++ items.drop (first + count)
      return (((items.drop first).take count).map type.write,
        { v with elements := .typed type items' })

/-! ## Locks -/

/-- Locks or unlocks the size. -/
def lockSize (v : TypedVector) (locked : Bool) : TypedVector := { v with sizeLocked := locked }

/-- Locks or unlocks the type. -/
def lockType (v : TypedVector) (locked : Bool) : TypedVector := { v with typeLocked := locked }

end TypedVector

end ScriptBridge
