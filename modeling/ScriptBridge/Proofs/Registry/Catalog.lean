import ScriptBridge.Proofs.Registry.Declared
import ScriptBridge.Proofs.Realm.Reachable

/-!
# Registration in Place

A registry that is filled in place keeps its classes in a row, each with the number that it has been
given, and finds them through an index of their names. A registration looks at the row and at the
index and changes them step by step, and what it has changed by the time it fails would stay. It turns
out that nothing has been changed by then, and that the row is what the registrations of a registry
make it.

Main statements: `matches_register` (a registration in place and one that makes a new registry have
the same outcome), `climbs_hierarchy` and `Catalog.registrations_keep_order`.
-/

namespace ScriptBridge

open Registry (Registration)
open Realm (after)

variable {P : Platform}

/-- A class in a row of classes. -/
structure CatalogedClass (P : Platform) where
  /-- The number that the class was given. -/
  number : ClassNumber
  /-- The class. -/
  content : RegisteredClass P

/-- Classes with an index of their names, and the global functions. -/
structure Catalog (P : Platform) where
  /-- The classes, in the order of their registration. -/
  classes : Array (CatalogedClass P)
  /-- The numbers of the classes, by name. -/
  index : Table ClassNumber
  /-- The global functions. -/
  globals : Procedures P

/-- A step of registration, which may fail. -/
abbrev CatalogAction (P : Platform) (α : Type) := ExceptT RegistrationError (StateM (Catalog P)) α

namespace Catalog

/-! ## Registering -/

/-- Adds a class at the end of the row and its name to the index. -/
def push (outline : ClassOutline) (s : Catalog P) : ClassNumber × Catalog P :=
  let number : ClassNumber := ⟨s.classes.size⟩
  (number, { s with
    classes := s.classes.push ⟨number, .ofOutline outline⟩
    index := s.index.insert outline.name number })

/-- The catalog of the classes of plain objects and of arrays. -/
def builtins : Catalog P :=
  (push ⟨"Array", none, false, true⟩
    (push ⟨"Object", none, false, true⟩ ⟨#[], .empty, .empty⟩).2).2

/-- Registers a class under a new name, as an extension of `parent` if that is given. -/
def declareClass (name : String) (parent : Option String) (singleton : Bool) :
    CatalogAction P ClassNumber := do
  if (← get).index.contains name then throw (.duplicateClass name)
  let parent ← match parent with
    | none => pure none
    | some parentName =>
      match (← get).index.find? parentName with
      | some c => pure (some c)
      | none => throw (.unknownParent name parentName)
  modifyGet (push ⟨name, parent, singleton, false⟩)

/-- The class with a given number, which has to exist. -/
def demand (c : ClassNumber) : CatalogAction P (RegisteredClass P) := do
  match (← get).classes[c.index]? with
  | some d => return d.content
  | none => throw (.unknownClass ("#" ++ toString c.index))

/-- Changes a class where it stands. -/
def edit (c : ClassNumber) (f : RegisteredClass P → RegisteredClass P) : CatalogAction P Unit :=
  modify fun s => { s with
    classes := s.classes.modify c.index fun d => { d with content := f d.content } }

/-- Sets the native state of fresh instances of a class. -/
def setFresh (c : ClassNumber) (native : P.World → Native P.Layer) : CatalogAction P Unit := do
  let _ ← demand c
  edit c fun d => { d with fresh := some native }

/-- Binds a property. One without a setter becomes read-only. -/
def bindProperty (c : ClassNumber) (name : String) (accessor : Accessor P) (flags : PropertyFlags) :
    CatalogAction P Unit := do
  Registry.requireConsistentFlags name flags
  let d ← demand c
  if d.properties.contains name then throw (.propertyRedefinition d.outline.name name)
  let flags := if accessor.acceptsWrites then flags else flags.union .readonly
  edit c fun d => { d with properties := d.properties.insert name ⟨name, flags, accessor⟩ }

/-- Binds the elements of an array-like class. -/
def bindElements (c : ClassNumber) (accessor : ElementAccessor P) (flags : PropertyFlags) :
    CatalogAction P Unit := do
  Registry.requireConsistentFlags "[]" flags
  let d ← demand c
  if d.elements.isSome then throw (.propertyRedefinition d.outline.name "[]")
  edit c fun d => { d with elements := some ⟨flags, accessor⟩ }

/-- Adds a function to a table unless its name is taken, and tells whether it was added. -/
def addProcedure (functions : Procedures P) (name : String) (procedure : Procedure P) :
    Bool × Procedures P :=
  if functions.contains name then (false, functions) else (true, functions.insert name procedure)

/-- Binds a function on a class. The table of the class is written before its answer is looked at. -/
def bindFunction (c : ClassNumber) (name : String) (procedure : Procedure P) :
    CatalogAction P Unit := do
  let d ← demand c
  let (added, functions) := addProcedure d.functions name procedure
  edit c fun d => { d with functions }
  if !added then throw (.functionRedefinition d.outline.name name)

/-- Binds a function on a built-in class. -/
def bindBuiltinFunction (className name : String) (procedure : Procedure P) :
    CatalogAction P Unit := do
  let s ← get
  let some c := s.index.find? className | throw (.unknownClass className)
  if !(s.classes[c.index]?).any fun d => d.content.outline.builtin then
    throw (.notBuiltin className)
  bindFunction c name procedure

/-- Binds a global function. The table is written before its answer is looked at. -/
def bindGlobal (name : String) (procedure : Procedure P) : CatalogAction P Unit := do
  let added ← modifyGet fun s =>
    let (added, globals) := addProcedure s.globals name procedure
    (added, { s with globals })
  if !added then throw (.functionRedefinition "<global>" name)

/-- Carries out a registration. -/
def register : Registration P → CatalogAction P Unit
  | .declareClass name parent singleton => discard (declareClass name parent singleton)
  | .setFresh c native => setFresh c native
  | .bindProperty c name accessor flags => bindProperty c name accessor flags
  | .bindElements c accessor flags => bindElements c accessor flags
  | .bindFunction c name procedure => bindFunction c name procedure
  | .bindBuiltinFunction className name procedure => bindBuiltinFunction className name procedure
  | .bindGlobal name procedure => bindGlobal name procedure

/-- The catalog after a row of registrations, each of which may have failed. -/
def ofCalls (calls : List (Registration P)) : Catalog P :=
  calls.foldl (fun s call => after (register call) s) builtins

/-! ## Registrations in Place and Registrations -/

/-- The registry that a catalog stands for. -/
def registry (s : Catalog P) : Registry P := ⟨s.classes.map CatalogedClass.content, s.globals⟩

/-- The numbers of the classes are their positions, and the index finds what a search would find. -/
structure Indexed (s : Catalog P) : Prop where
  numbers : ∀ (i : Nat) (d : CatalogedClass P), s.classes[i]? = some d → d.number = ⟨i⟩
  index : ∀ name, s.index.find? name = s.registry.lookup? name

/-- What a call in place leaves behind when it succeeds is a catalog of what the registration makes;
when it fails, that is for the same reason, and the catalog is as it was before. -/
def Matches (s : Catalog P) (action : CatalogAction P Unit)
    (made : Except RegistrationError (Registry P)) : Prop :=
  (∃ s', Id.run (action.run.run s) = (.ok (), s') ∧ made = .ok s'.registry ∧ s'.Indexed) ∨
    ∃ error, Id.run (action.run.run s) = (.error error, s) ∧ made = .error error

theorem get?_registry (s : Catalog P) (c : ClassNumber) :
    s.registry.get? c = (s.classes[c.index]?).map CatalogedClass.content := by
  rw [Registry.get?, registry, Array.getElem?_map]

theorem registry_push (s : Catalog P) (outline : ClassOutline) :
    (push outline s).2.registry = s.registry.push outline := by
  simp [push, registry, Registry.push, Array.map_push]

theorem Indexed.push {s : Catalog P} (hs : s.Indexed) {outline : ClassOutline}
    (hfree : s.registry.lookup? outline.name = none) : (push outline s).2.Indexed := by
  constructor
  case numbers =>
    intro i d hget
    simp only [Catalog.push, Array.getElem?_push] at hget
    split at hget
    · next hi => rw [← Option.some.inj hget, hi]
    · exact hs.numbers i d hget
  case index =>
    intro name
    rw [registry_push, Registry.lookup?_push, ← hs.index]
    simp only [Catalog.push, Table.find?_insert]
    have hsize : s.registry.classes.size = s.classes.size := Array.size_map
    split
    · next hname =>
      subst hname
      rw [hs.index, hfree, if_pos rfl, hsize, Option.none_or]
    · next hname => rw [if_neg (Ne.symm hname), Option.or_none]

section

variable {s : Catalog P} {c : ClassNumber} {d : CatalogedClass P}
  {f : RegisteredClass P → RegisteredClass P}

theorem registry_edit (hget : s.classes[c.index]? = some d) :
    (after (edit c f) s).registry = s.registry.setClass c (f d.content) := by
  have hclasses : ((s.classes.modify c.index fun d => { d with content := f d.content }).map
      CatalogedClass.content) = (s.classes.map CatalogedClass.content).setIfInBounds c.index
        (f d.content) := by
    refine Array.ext_getElem? fun i => ?_
    rw [Array.getElem?_map, Array.getElem?_modify, Array.getElem?_setIfInBounds, Array.size_map,
      Array.getElem?_map]
    split
    · next hi =>
      subst hi
      rw [hget, if_pos (Array.getElem?_eq_some_iff.1 hget).1]
      rfl
    · rfl
  exact congrArg (fun classes => (⟨classes, s.globals⟩ : Registry P)) hclasses

/-- A class that is edited keeps its number and its name. -/
theorem Indexed.edit (hs : s.Indexed) (hget : s.classes[c.index]? = some d)
    (houtline : (f d.content).outline = d.content.outline) : (after (edit c f) s).Indexed := by
  constructor
  case numbers =>
    intro i e hi
    have hi' : (s.classes.modify c.index fun d => { d with content := f d.content })[i]? = some e := hi
    rw [Array.getElem?_modify] at hi'
    split at hi'
    · obtain ⟨e', he', rfl⟩ := Option.map_eq_some_iff.1 hi'
      exact hs.numbers i e' he'
    · exact hs.numbers i e hi'
  case index =>
    intro name
    have hindex : (after (Catalog.edit c f) s).index = s.index := rfl
    have hregistered : s.registry.get? c = some d.content := by rw [get?_registry, hget, Option.map_some]
    rw [hindex, hs.index, registry_edit hget, Registry.lookup?, Registry.lookup?,
      Registry.tree_setClass hregistered houtline]

/-- The rest of a call that has found its class. -/
theorem matches_demand {next : RegisteredClass P → CatalogAction P Unit}
    {make : RegisteredClass P → Except RegistrationError (Registry P)}
    (h : ∀ d, s.classes[c.index]? = some d → Matches s (next d.content) (make d.content)) :
    Matches s (demand c >>= next) (s.registry.demand c >>= make) := by
  have hrun : Id.run ((demand c >>= next).run.run s) = Id.run (((match s.classes[c.index]? with
      | some d => (pure d.content : CatalogAction P (RegisteredClass P))
      | none => throw (.unknownClass ("#" ++ toString c.index))) >>= next).run.run s) := rfl
  rw [Matches, hrun, Registry.demand, get?_registry]
  cases hget : s.classes[c.index]? with
  | some d => exact h d hget
  | none => exact Or.inr ⟨_, rfl, rfl⟩

/-- The rest of a call whose flags have been looked at. -/
theorem matches_flags {property : String} {flags : PropertyFlags} {next : CatalogAction P Unit}
    {make : Except RegistrationError (Registry P)} (h : Matches s next make) :
    Matches s (Registry.requireConsistentFlags property flags >>= fun _ => next)
      (Registry.requireConsistentFlags property flags >>= fun _ => make) := by
  cases Registry.requireConsistentFlags property flags with
  | ok _ => exact h
  | error error => exact Or.inr ⟨error, rfl, rfl⟩

/-- Putting back what is there changes nothing. -/
theorem after_edit_self (hget : s.classes[c.index]? = some d) (hf : f d.content = d.content) :
    after (edit c f) s = s := by
  have hclasses : (s.classes.modify c.index fun d => { d with content := f d.content }) =
      s.classes := by
    refine Array.ext_getElem? fun i => ?_
    rw [Array.getElem?_modify]
    split
    · next hi =>
      subst hi
      rw [hget, Option.map_some, hf]
    · rfl
  exact congrArg (fun classes => { s with classes }) hclasses

/-- A class that has been found receives a member. -/
theorem matches_edit (hs : s.Indexed) (hget : s.classes[c.index]? = some d)
    (houtline : (f d.content).outline = d.content.outline) :
    Matches s (edit c f) (.ok (s.registry.setClass c (f d.content))) :=
  Or.inl ⟨after (edit c f) s, rfl, by rw [registry_edit hget], hs.edit hget houtline⟩

end

section

variable {s : Catalog P}

theorem matches_push (hs : s.Indexed) {name : String} (hfree : s.registry.lookup? name = none)
    (parent : Option ClassNumber) (singleton : Bool) :
    Matches s (discard (modifyGet (push ⟨name, parent, singleton, false⟩)))
      (.ok (s.registry.push ⟨name, parent, singleton, false⟩)) :=
  Or.inl ⟨(push _ s).2, rfl, by rw [registry_push], hs.push hfree⟩

theorem matches_bindFunction (hs : s.Indexed) (c : ClassNumber) (name : String)
    (procedure : Procedure P) :
    Matches s (bindFunction c name procedure) (s.registry.bindFunction c name procedure) := by
  refine matches_demand fun d hget => ?_
  by_cases htaken : d.content.functions.contains name = true
  -- the table that is written back is the one that was there
  · simp only [addProcedure, if_pos htaken]
    have hsame : after (edit c fun d' => { d' with functions := d.content.functions }) s = s :=
      after_edit_self hget rfl
    exact Or.inr ⟨_, congrArg (Prod.mk _) hsame, rfl⟩
  · simp only [addProcedure, if_neg htaken]
    exact matches_edit (f := fun d' => { d' with
      functions := d.content.functions.insert name procedure }) hs hget rfl

theorem matches_register (hs : s.Indexed) (call : Registration P) :
    Matches s (register call) (s.registry.register call) := by
  cases call with
  | declareClass name parent singleton =>
    -- the index finds what the tree of classes finds
    have htree : ∀ name, s.registry.tree.lookup? name = s.index.find? name :=
      fun name => (hs.index name).symm
    simp only [register, Registry.register, Registry.declareClass, declareClass, htree]
    show Matches s (discard (if s.index.contains name = true then _ else _)) _
    by_cases htaken : s.index.contains name = true
    · have htaken' : (s.index.find? name).isSome = true := htaken
      rw [if_pos htaken, if_pos htaken']
      exact Or.inr ⟨_, rfl, rfl⟩
    · have hfree : s.index.find? name = none := Option.not_isSome_iff_eq_none.1 htaken
      rw [if_neg htaken, hfree, if_neg (by simp)]
      cases parent with
      | none => exact matches_push hs (hs.index name ▸ hfree) none singleton
      | some parentName =>
        show Matches s (discard (match s.index.find? parentName with
          | some c => _
          | none => _)) _
        dsimp only
        cases s.index.find? parentName with
        | some c => exact matches_push hs (hs.index name ▸ hfree) (some c) singleton
        | none => exact Or.inr ⟨_, rfl, rfl⟩
  | setFresh c native =>
    exact matches_demand fun d hget => matches_edit hs hget rfl
  | bindProperty c name accessor flags =>
    refine matches_flags (matches_demand fun d hget => ?_)
    dsimp only
    split
    · exact Or.inr ⟨_, rfl, rfl⟩
    · exact matches_edit hs hget rfl
  | bindElements c accessor flags =>
    refine matches_flags (matches_demand fun d hget => ?_)
    dsimp only
    split
    · exact Or.inr ⟨_, rfl, rfl⟩
    · exact matches_edit hs hget rfl
  | bindFunction c name procedure => exact matches_bindFunction hs c name procedure
  | bindBuiltinFunction className name procedure =>
    have hlookup : s.registry.tree.lookup? className = s.index.find? className :=
      (hs.index className).symm
    simp only [register, Registry.register, Registry.bindBuiltinFunction, bindBuiltinFunction, hlookup]
    show Matches s (match s.index.find? className with
      | some c => if (!(s.classes[c.index]?).any fun d => d.content.outline.builtin) = true then _
        else bindFunction c name procedure
      | _ => _) _
    cases s.index.find? className with
    | none => exact Or.inr ⟨_, rfl, rfl⟩
    | some c =>
      -- the tree tells of the same outline as the catalog does
      have houtline : s.registry.tree.get? c =
          (s.classes[c.index]?).map fun d => d.content.outline := by
        simp only [Registry.tree, registry, ClassTree.get?, Array.getElem?_map, Option.map_map]
        rfl
      dsimp only
      rw [houtline]
      cases s.classes[c.index]? with
      | none => exact Or.inr ⟨_, rfl, rfl⟩
      | some d =>
        dsimp only [Option.map_some, Option.any_some]
        by_cases hbuiltin : d.content.outline.builtin = true
        · rw [if_neg (by simp [hbuiltin]), if_pos hbuiltin]
          exact matches_bindFunction hs c name procedure
        · rw [if_pos (by simp [hbuiltin]), if_neg hbuiltin]
          exact Or.inr ⟨_, rfl, rfl⟩
  | bindGlobal name procedure =>
    -- a global is the only call that does not touch a class
    have hrun : Id.run ((bindGlobal name procedure).run.run s) =
        Id.run ((if !(addProcedure s.globals name procedure).1 then
            throw (.functionRedefinition "<global>" name) else pure () : CatalogAction P Unit).run.run
          { s with globals := (addProcedure s.globals name procedure).2 }) := rfl
    have hglobals : s.registry.globals = s.globals := rfl
    rw [register, Registry.register, Registry.bindGlobal, hglobals, Matches, hrun]
    by_cases htaken : s.globals.contains name = true
    · simp only [addProcedure, if_pos htaken]
      exact Or.inr ⟨_, rfl, rfl⟩
    · simp only [addProcedure, if_neg htaken]
      exact Or.inl ⟨{ s with globals := s.globals.insert name procedure }, rfl, rfl, hs.numbers,
        hs.index⟩

end

/-! ## Catalogs that Have Been Filled -/

theorem indexed_builtins : (builtins : Catalog P).Indexed := by
  have hnone : ∀ name, (⟨#[], .empty, .empty⟩ : Catalog P).registry.lookup? name = none := by
    simp [registry, Registry.lookup?, ClassTree.lookup?, Registry.tree]
  have hempty : (⟨#[], .empty, .empty⟩ : Catalog P).Indexed :=
    ⟨fun i d hget => by simp at hget, fun name => (hnone name).symm⟩
  refine (hempty.push (hnone _)).push ?_
  rw [registry_push, Registry.lookup?_push, hnone]
  rfl

theorem registry_builtins : (builtins : Catalog P).registry = .builtins := by
  have hempty : (⟨#[], .empty, .empty⟩ : Catalog P).registry = ⟨#[], .empty⟩ := by simp [registry]
  rw [builtins, registry_push, registry_push, hempty, Registry.builtins]

/-- A catalog that has been filled stands for a registry that has been filled. -/
theorem declared_ofCalls (calls : List (Registration P)) :
    (ofCalls calls).Indexed ∧ (ofCalls calls).registry.Declared := by
  unfold ofCalls
  have hstart : (builtins : Catalog P).Indexed ∧ (builtins : Catalog P).registry.Declared :=
    ⟨indexed_builtins, registry_builtins ▸ .builtins⟩
  generalize (builtins : Catalog P) = s at hstart ⊢
  induction calls generalizing s with
  | nil => exact hstart
  | cons call calls ih =>
    obtain ⟨hs, hdeclared⟩ := hstart
    refine ih (after (register call) s) ?_
    rcases matches_register hs call with ⟨s', hrun, hmade, hs'⟩ | ⟨error, hrun, -⟩
    · have hafter : after (register call) s = s' := congrArg Prod.snd hrun
      rw [hafter]
      exact ⟨hs', .register hdeclared hmade⟩
    · have hafter : after (register call) s = s := congrArg Prod.snd hrun
      rw [hafter]
      exact ⟨hs, hdeclared⟩

/-- What holds of the classes of a catalog. -/
structure Ordered (s : Catalog P) : Prop where
  /-- The index leads from a name to the one position of a class of this name. -/
  index : ∀ name (c : ClassNumber), s.index.find? name = some c ↔
    ∃ d : CatalogedClass P, s.classes[c.index]? = some d ∧ d.content.outline.name = name
  /-- The number of a class is its position. -/
  numbers : ∀ (i : Nat) (d : CatalogedClass P), s.classes[i]? = some d → d.number = ⟨i⟩
  /-- A class extends one that comes before it. -/
  parents : ∀ (i : Nat) (d : CatalogedClass P) (parent : ClassNumber), s.classes[i]? = some d →
    d.content.outline.parent = some parent → parent.index < i
  /-- No property is both early and late. -/
  phases : ∀ (i : Nat) (d : CatalogedClass P), s.classes[i]? = some d → ∀ b ∈ d.content.properties.values,
    ¬ (b.flags.contains .early = true ∧ b.flags.contains .late = true)
  /-- No elements are both early and late. -/
  elements : ∀ (i : Nat) (d : CatalogedClass P) (b : BoundElements P), s.classes[i]? = some d →
    d.content.elements = some b →
    ¬ (b.flags.contains .early = true ∧ b.flags.contains .late = true)
  /-- A property without a setter is read-only. -/
  readonly : ∀ (i : Nat) (d : CatalogedClass P), s.classes[i]? = some d →
    ∀ b ∈ d.content.properties.values, b.accessor.acceptsWrites = false →
      b.flags.contains .readonly = true
  /-- The classes of plain objects and of arrays are built in, and no others. -/
  builtin : ∀ (i : Nat) (d : CatalogedClass P), s.classes[i]? = some d →
    (d.content.outline.builtin = true ↔
      d.content.outline.name = "Object" ∨ d.content.outline.name = "Array")

theorem Indexed.ordered {s : Catalog P} (hs : s.Indexed) (hdeclared : s.registry.Declared) :
    s.Ordered := by
  have hsound := hdeclared.sound
  -- a class of the catalog is one of the registry, which is sound
  have hclass : ∀ (i : Nat) (d : CatalogedClass P), s.classes[i]? = some d →
      s.registry.get? ⟨i⟩ = some d.content ∧ Registry.ClassSound ⟨i⟩ d.content := by
    intro i d hget
    have hregistered : s.registry.get? ⟨i⟩ = some d.content := by
      rw [get?_registry, hget, Option.map_some]
    exact ⟨hregistered, hsound.classes _ _ hregistered⟩
  have hproperty : ∀ (i : Nat) (d : CatalogedClass P), s.classes[i]? = some d →
      ∀ b ∈ d.content.properties.values, Registry.InOrder b := by
    intro i d hget b hb
    obtain ⟨entry, hentry, rfl⟩ := List.mem_map.1 hb
    exact (hclass i d hget).2.properties entry hentry
  constructor
  case index =>
    intro name c
    rw [hs.index]
    constructor
    · intro hlookup
      obtain ⟨content, hget, hname⟩ := Registry.exists_of_lookup? hlookup
      rw [get?_registry] at hget
      obtain ⟨d, hd, rfl⟩ := Option.map_eq_some_iff.1 hget
      exact ⟨d, hd, hname⟩
    · rintro ⟨d, hget, rfl⟩
      exact hdeclared.lookup?_outline (hclass c.index d hget).1
  case numbers => exact hs.numbers
  case parents => exact fun i d parent hget hparent => (hclass i d hget).2.parent parent hparent
  case phases => exact fun i d hget b hb => (hproperty i d hget b hb).phase
  case elements => exact fun i d b hget hb => (hclass i d hget).2.elements b hb
  case readonly => exact fun i d hget b hb => (hproperty i d hget b hb).readonly
  case builtin =>
    intro i d hget
    obtain ⟨hregistered, hd⟩ := hclass i d hget
    obtain ⟨object, hobject, hname⟩ := hsound.object
    obtain ⟨array, harray, haname⟩ := hsound.array
    constructor
    · intro hbuiltin
      have hlt : i < 2 := hd.builtin hbuiltin
      -- the two classes that are built in come first
      obtain rfl | rfl : i = 0 ∨ i = 1 := by omega
      · left
        rw [← Option.some.inj (hobject.symm.trans hregistered), hname]
      · right
        rw [← Option.some.inj (harray.symm.trans hregistered), haname]
    · -- each of the two names is found at one position only
      have hfound := hdeclared.lookup?_outline hregistered
      have hnumber : ∀ {c : ClassNumber} {e : RegisteredClass P}, s.registry.get? c = some e →
          d.content.outline.name = e.outline.name → d.content = e := by
        intro c e hc hsame
        rw [hsame, hdeclared.lookup?_outline hc, Option.some.injEq] at hfound
        rw [hfound, hregistered] at hc
        exact Option.some.inj hc
      rintro (hobjectName | harrayName)
      · rw [hnumber hobject (hobjectName.trans (congrArg ClassOutline.name hname).symm), hname]
      · rw [hnumber harray (harrayName.trans (congrArg ClassOutline.name haname).symm), haname]

/-! ## The Way to the Ancestors -/

/-- The way up from a class: each class on it is followed by the one that it extends, until there is
none. -/
inductive Climbs (s : Catalog P) : Option ClassNumber → List ClassNumber → Prop
  /-- There is nothing to extend. -/
  | stop : Climbs s none []
  /-- There is no class with the number. -/
  | lost {c : ClassNumber} : s.classes[c.index]? = none → Climbs s (some c) []
  /-- A class, and from there on upwards. -/
  | up {c : ClassNumber} {d : CatalogedClass P} {chain : List ClassNumber} :
      s.classes[c.index]? = some d → Climbs s d.content.outline.parent chain →
      Climbs s (some c) (c :: chain)

section

variable {s : Catalog P} {c? : Option ClassNumber} {chain chain' : List ClassNumber}

theorem Climbs.unique (h : Climbs s c? chain) (h' : Climbs s c? chain') : chain = chain' := by
  induction h generalizing chain' with
  | stop => cases h'; rfl
  | lost hnone =>
    cases h' with
    | lost => rfl
    | up hget => rw [hnone] at hget; cases hget
  | up hget _ ih =>
    cases h' with
    | lost hnone => rw [hnone] at hget; cases hget
    | up hget' h' =>
      rw [hget] at hget'
      obtain rfl := Option.some.inj hget'
      rw [ih h']

/-- The numbers on the way up get smaller. -/
theorem Climbs.descends (hs : s.Ordered) (h : Climbs s c? chain) :
    (∀ c, c? = some c → ∀ k ∈ chain, k.index ≤ c.index) ∧
      chain.Pairwise fun a b => b.index < a.index := by
  induction h with
  | stop => simp
  | lost => simp
  | @up c d chain hget hrest ih =>
    obtain ⟨hbelow, hchain⟩ := ih
    have hless : ∀ k ∈ chain, k.index < c.index := by
      cases hparent : d.content.outline.parent with
      | none =>
        rw [hparent] at hrest
        cases hrest
        simp
      | some parent =>
        intro k hk
        exact Nat.lt_of_le_of_lt (hbelow parent hparent k hk) (hs.parents _ d parent hget hparent)
    refine ⟨?_, List.pairwise_cons.2 ⟨hless, hchain⟩⟩
    rintro _ ⟨⟩ k hk
    rcases List.mem_cons.1 hk with rfl | hk
    · exact Nat.le_refl _
    · exact Nat.le_of_lt (hless k hk)

/-- No class is met twice on the way up. -/
theorem Climbs.nodup (hs : s.Ordered) (h : Climbs s c? chain) : chain.Nodup := by
  refine (h.descends hs).2.imp ?_
  rintro a _ hless rfl
  exact Nat.lt_irrefl _ hless

/-- The way up ends at a class that extends none. -/
theorem Climbs.root (hs : s.Ordered) (h : Climbs s c? chain) {last : ClassNumber}
    (hlast : last ∈ chain.getLast?) :
    ∃ d : CatalogedClass P, s.classes[last.index]? = some d ∧ d.content.outline.parent = none := by
  induction h with
  | stop => simp at hlast
  | lost => simp at hlast
  | @up c d chain hget hrest ih =>
    generalize hparent : d.content.outline.parent = parent at hrest
    cases hrest with
    | stop =>
      obtain rfl := Option.some.inj hlast
      exact ⟨d, hget, hparent⟩
    -- the class that is extended comes before and so is there
    | lost hnone =>
      have hless := hs.parents _ d _ hget hparent
      have hlt := (Array.getElem?_eq_some_iff.1 hget).1
      rw [Array.getElem?_eq_none_iff] at hnone
      omega
    | up => exact ih (by rwa [List.getLast?_cons_cons] at hlast)

/-- The hierarchy of a class is the way up from it. -/
theorem climbs_hierarchy (hs : s.Ordered) (c : ClassNumber) :
    Climbs s (some c) (s.registry.hierarchy c) := by
  obtain ⟨index⟩ := c
  have houtline : s.registry.tree.outlines[index]? =
      (s.classes[index]?).map fun d => d.content.outline := by
    simp only [Registry.tree, registry, Array.getElem?_map, Option.map_map]
    rfl
  rw [Registry.hierarchy, ClassTree.hierarchy, ClassTree.ancestry, houtline]
  cases hget : s.classes[index]? with
  | none => exact .lost hget
  | some d =>
    refine .up hget ?_
    dsimp only [Option.map_some]
    cases hparent : d.content.outline.parent with
    | none => exact .stop
    | some parent =>
      have hless := hs.parents _ d parent hget hparent
      dsimp only
      rw [if_pos hless]
      exact climbs_hierarchy hs parent
termination_by c.index

end

/-- Whatever is registered in whatever order: a registration that fails leaves everything as it was,
one that succeeds makes what the registration of a registry makes; the classes are in order; and
from every number there is one way up, without repetition, which ends at a root. -/
theorem registrations_keep_order (calls : List (Registration P)) :
    let s := ofCalls calls
    (∀ call error, (Id.run ((register call).run.run s)).1 = .error error →
      after (register call) s = s) ∧
    (∀ call, Matches s (register call) (s.registry.register call)) ∧
    s.Ordered ∧
    ∀ c, Climbs s (some c) (s.registry.hierarchy c) ∧
      (∀ chain, Climbs s (some c) chain → chain = s.registry.hierarchy c) ∧
      (s.registry.hierarchy c).Nodup ∧
      ∀ last ∈ (s.registry.hierarchy c).getLast?, ∃ d : CatalogedClass P,
        s.classes[last.index]? = some d ∧ d.content.outline.parent = none := by
  obtain ⟨hs, hdeclared⟩ := declared_ofCalls calls
  have hordered := hs.ordered hdeclared
  refine ⟨fun call error herror => ?_, matches_register hs, hordered, fun c => ?_⟩
  · rcases matches_register hs call with ⟨s', hrun, -⟩ | ⟨error', hrun, -⟩
    · rw [hrun] at herror
      cases herror
    · exact congrArg Prod.snd hrun
  · have hclimbs := climbs_hierarchy hordered c
    exact ⟨hclimbs, fun chain hchain => hchain.unique hclimbs, hclimbs.nodup hordered,
      fun last => hclimbs.root hordered⟩

end Catalog

end ScriptBridge
