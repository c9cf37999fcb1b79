import ScriptBridge.TypedVector.Basic

/-!
# Native State

An instance of a class may carry native state. The program that embeds the bridge brings its own
kinds of state along; one kind extends another by holding a value of it as its base, so the state
of an instance is a chain of layers, outermost first. Typed vectors are the one kind of state that
the bridge itself provides, and extend nothing.

A layer answers questions on behalf of its base: each of its methods is given what the base
answers, and a layer that does not care passes that on.
-/

namespace ScriptBridge

/-- What the embedding program brings along: its layers of native state, its callbacks, and a
world of its own outside of the heap, which native code can change. -/
structure Platform where
  /-- One layer of native state. -/
  Layer : Type
  /-- What the program keeps outside of the heap. -/
  World : Type
  /-- The functions that the program offers to scripts. -/
  Callback : Type
  /-- The handles that a layer keeps alive, given those of its base. -/
  handles : Layer → List Handle → List Handle
  /-- Whether a layer keeps its object out of snapshots, given whether its base does. -/
  isTransient : Layer → Bool → Bool
  /-- What a layer does when its object is found unreachable, given what its base does. It may ask
  which objects are dying along with its own. -/
  finalize : Layer → (Handle → Bool) → (World → World) → World → World

/-- Native state: layers on a last one that extends nothing, or a typed vector. -/
inductive Native (L : Type) where
  /-- A typed vector. -/
  | vector (v : TypedVector)
  /-- A layer that extends nothing. -/
  | base (layer : L)
  /-- A layer that extends other native state. -/
  | derived (layer : L) (base : Native L)

namespace Native

variable {L : Type}

/-- Appends a base at the end of a chain of layers; a typed vector stays as it is. -/
def ofLayers? (vector? : Option TypedVector) : List L → Option (Native L)
  | [] => vector?.map vector
  | layer :: layers =>
    match ofLayers? vector? layers with
    | some rest => some (derived layer rest)
    | none => some (base layer)

/-- Changes every layer of a chain. -/
def map {M : Type} (f : L → M) : Native L → Native M
  | vector v => vector v
  | base layer => base (f layer)
  | derived layer rest => derived (f layer) (rest.map f)

/-- The outermost layer of a chain. -/
def top? : Native L → Option L
  | vector _ => none
  | base layer => some layer
  | derived layer _ => some layer

/-- The typed vector at the end of a chain. -/
def vector? : Native L → Option TypedVector
  | vector v => some v
  | base _ => none
  | derived _ rest => rest.vector?

/-- Replaces the typed vector at the end of a chain. -/
def setVector (v : TypedVector) : Native L → Native L
  | vector _ => vector v
  | base layer => base layer
  | derived layer rest => derived layer (rest.setVector v)

/-- The part of a chain from the first layer on that satisfies `kind`. -/
def find? (kind : L → Bool) : Native L → Option (Native L)
  | vector _ => none
  | base layer => if kind layer then some (base layer) else none
  | derived layer rest => if kind layer then some (derived layer rest) else rest.find? kind

/-- Replaces the part of a chain from the first layer on that satisfies `kind`. -/
def replace (kind : L → Bool) (part : Native L) : Native L → Native L
  | vector v => vector v
  | base layer => if kind layer then part else base layer
  | derived layer rest => if kind layer then part else derived layer (replace kind part rest)

/-- Replaces the outermost layer of a chain. -/
def setTop (layer : L) : Native L → Native L
  | vector v => vector v
  | base _ => base layer
  | derived _ rest => derived layer rest

end Native

/-! ## Facets -/

/-- A part of native state that native code asks for by its kind. -/
structure Facet (L : Type) (α : Type) where
  /-- The name of the kind in messages. -/
  name : String
  /-- The part, if the state has one of this kind. -/
  find? : Native L → Option α
  /-- Replaces the part. -/
  replace : α → Native L → Native L

namespace Facet

variable {L : Type}

/-- The typed vector at the end of a chain. -/
def vector : Facet L TypedVector := ⟨"TypedVector", Native.vector?, Native.setVector⟩

/-- The part of a chain from the first layer on that satisfies `kind`. -/
def part (name : String) (kind : L → Bool) : Facet L (Native L) :=
  ⟨name, Native.find? kind, Native.replace kind⟩

/-- The first layer of a chain that satisfies `kind`. -/
def layer (name : String) (kind : L → Bool) : Facet L L where
  name := name
  find? native := (native.find? kind).bind Native.top?
  replace layer native :=
    match native.find? kind with
    | some part => Native.replace kind (part.setTop layer) native
    | none => native

/-- The part of a receiver, which has to have it. -/
def demand {α : Type} (facet : Facet L α) (native : Native L) : Except ScriptError α :=
  match facet.find? native with
  | some part => .ok part
  | none => .error (.thrown ("receiver is not a " ++ facet.name))

end Facet

/-! ## Questions to native state -/

namespace Platform

variable (P : Platform)

/-- The handles that native state keeps alive. -/
def handlesOf : Native P.Layer → List Handle
  | .vector v => v.handles
  | .base layer => P.handles layer []
  | .derived layer rest => P.handles layer (handlesOf rest)

/-- Whether native state keeps its object out of snapshots. -/
def isTransientOf : Native P.Layer → Bool
  | .vector _ => false
  | .base layer => P.isTransient layer false
  | .derived layer rest => P.isTransient layer (isTransientOf rest)

/-- What native state does when its object is found unreachable. -/
def finalizeOf (dying : Handle → Bool) : Native P.Layer → P.World → P.World
  | .vector _ => id
  | .base layer => P.finalize layer dying id
  | .derived layer rest => P.finalize layer dying (finalizeOf dying rest)

end Platform

end ScriptBridge
