import ScriptBridge.Scenario.Stage
import ScriptBridge.Native

/-!
# Bags

A scenario brings native state along without writing native code: a layer is a bag of named slots
and of items. Bags of two kinds take part in everything that native state is asked about; bags of
the third kind leave every question to their base. The bags of fresh instances are filled from
templates.
-/

namespace ScriptBridge.Scenario

/-- The kinds of bags. -/
inductive BagKind where
  /-- A bag that answers for its contents. -/
  | alpha
  /-- A bag that answers for its contents, under another name. -/
  | beta
  /-- A bag that leaves every answer to its base. -/
  | bare
deriving DecidableEq, Repr

/-- The name of a kind. -/
def BagKind.name : BagKind → String
  | alpha => "Alpha"
  | beta => "Beta"
  | bare => "Bare"

/-- The kind with a given name. -/
def BagKind.ofName? (name : String) : Option BagKind :=
  [alpha, beta, bare].find? fun kind => kind.name == name

/-- A layer of native state: named slots and items. -/
structure Bag where
  /-- The kind. -/
  kind : BagKind
  /-- The name that is written into the journal. -/
  name : String
  /-- The slots, sorted by name. -/
  slots : List (String × Value)
  /-- The items. -/
  items : List Value
  /-- Whether the bag keeps its object out of snapshots. -/
  transient : Bool

/-- Writes `value` at `name` into slots that are sorted by name. -/
def insertSlot (name : String) (value : Value) : List (String × Value) → List (String × Value)
  | [] => [(name, value)]
  | (key, held) :: slots =>
    if key = name then (name, value) :: slots
    else if name < key then (name, value) :: (key, held) :: slots
    else (key, held) :: insertSlot name value slots

namespace Bag

/-- A bag with slots in whatever order. -/
def ofSlots (kind : BagKind) (name : String) (slots : List (String × Value)) (items : List Value)
    (transient : Bool) : Bag :=
  ⟨kind, name, slots.foldl (fun sorted (key, value) => insertSlot key value sorted) [], items,
    transient⟩

/-- The value in a slot. -/
def slot? (bag : Bag) (name : String) : Option Value := bag.slots.lookup name

/-- Writes a slot. -/
def setSlot (bag : Bag) (name : String) (value : Value) : Bag :=
  { bag with slots := insertSlot name value bag.slots }

/-- The handles in the slots and the items. -/
def handles (bag : Bag) : List Handle :=
  Value.handlesList (bag.slots.map Prod.snd) ++ Value.handlesList bag.items

end Bag

/-- What a bag is filled from: a bag with terms in the place of values. -/
structure BagTemplate where
  /-- The kind. -/
  kind : BagKind
  /-- The name that is written into the journal. -/
  name : String
  /-- The slots, in whatever order. -/
  slots : List (String × Term)
  /-- The items. -/
  items : List Term
  /-- Whether the bag keeps its object out of snapshots. -/
  transient : Bool

/-- The bag that a template stands for. -/
def BagTemplate.fill (template : BagTemplate) (bindings : Bindings) : Bag :=
  let slots := template.slots.map fun (name, term) => (name, term.value bindings)
  .ofSlots template.kind template.name slots (Term.values bindings template.items)
    template.transient

/-- Native state whose bags are filled from templates. -/
def freshNative (template : Native BagTemplate) (stage : Stage) : Native Bag :=
  template.map fun bag => bag.fill stage.bindings

/-! ## Bags as native state -/

/-- What a bag makes of the handles of its base. -/
def Bag.handlesOver (bag : Bag) (base : List Handle) : List Handle :=
  match bag.kind with
  | .bare => base
  | _ => base ++ bag.handles

/-- Whether a bag keeps its object out of snapshots, given whether its base does. -/
def Bag.isTransientOver (bag : Bag) (base : Bool) : Bool :=
  match bag.kind with
  | .bare => base
  | _ => bag.transient || base

/-- The objects in the slots of a bag, each with whether it is dying. -/
def Bag.dying (bag : Bag) (isDying : Handle → Bool) : List (String × Bool) :=
  bag.slots.filterMap fun (name, value) => value.object?.map fun h => (name, isDying h)

/-- A bag that is told that its object is dying notes this, and its base does the same. -/
def Bag.finalize (bag : Bag) (isDying : Handle → Bool) (base : Stage → Stage) (stage : Stage) :
    Stage :=
  match bag.kind with
  | .bare => base stage
  | _ => base (stage.record (.finalized bag.name (bag.dying isDying)))

/-- Whether native state has a part of a kind, given by its name. -/
def hasKind (name : String) (native : Native Bag) : Bool :=
  if name = (Facet.vector (L := Bag)).name then native.vector?.isSome
  else (native.find? fun bag => bag.kind.name == name).isSome

/-- The part of native state from the first bag of a kind on. -/
def BagKind.part (kind : BagKind) : Facet Bag (Native Bag) :=
  .part kind.name fun bag => bag.kind == kind

/-- The first bag of a kind. -/
def BagKind.facet (kind : BagKind) : Facet Bag Bag :=
  .layer kind.name fun bag => bag.kind == kind

end ScriptBridge.Scenario
