import ScriptBridge.Proofs.TypedVector.Class
import ScriptBridge.Proofs.Snapshot.Room

/-!
# What is Saved for a Vector

A typed vector without an element class is saved as a node with five entries: its type by name, no
class, the elements one by one, and the locks. The number of elements is not stored, and neither in
snapshots nor in copies does anything else come in between, since elements that are not objects have
nothing inside of them.

Main statement: `Realm.save_vector`.
-/

namespace ScriptBridge

open Snapshot (Entry)

variable {P : Platform}

namespace TypedVector

/-- What is saved for the value of an element. -/
def scalarEntry (value : Value) : Entry := (Saving.scalar? value).getD .null

/-- What is saved for a vector, in the order in which it is saved. -/
def savedEntries (v : TypedVector) : List (String × Entry) :=
  [("type", v.type?.elim .null fun type => .string type.name), ("elementClass", .null),
    ("data", .array (v.values.map scalarEntry)), ("lockedType", .bool v.typeLocked),
    ("lockedSize", .bool v.sizeLocked)]

/-- The node of a vector. -/
def savedNode (v : TypedVector) : Snapshot.Node := ⟨some className, none, .ofList v.savedEntries⟩

/-- The snapshot of a vector. -/
def image (v : TypedVector) : Snapshot := ⟨#[v.savedNode], .node 0⟩

/-- A value of an element that is not an object has an entry of its own. -/
theorem scalar?_write {type : ElementType} (h : type ≠ .object) (x : type.Carrier) :
    Saving.scalar? (type.write x) = some (scalarEntry (type.write x)) := by
  cases type with
  | object => exact absurd rfl h
  | bool | byte | int | float | double | string => rfl

theorem scalar?_of_mem {v : TypedVector} (h : v.type? ≠ some .object) {value : Value}
    (hvalue : value ∈ v.values) : Saving.scalar? value = some (scalarEntry value) := by
  obtain ⟨elements, sizeLocked, typeLocked, elementClass⟩ := v
  cases elements with
  | untyped => exact absurd hvalue List.not_mem_nil
  | typed type items =>
    obtain ⟨x, -, rfl⟩ := List.mem_map.1 hvalue
    exact scalar?_write (fun htype => h (congrArg some htype)) x

end TypedVector

/-! ## Reading the Properties -/

theorem Facet.demand_vector {native : Native P.Layer} {v : TypedVector} (hv : native.vector? = some v) :
    Facet.vector.demand native = .ok v := by
  have hfind : Facet.vector.find? native = some v := hv
  unfold Facet.demand
  rw [hfind]

namespace TypedVector.Members

variable {native : Native P.Layer} {v : TypedVector}

theorem get_dynamic (hv : native.vector? = some v) (tag : Tag) (get : TypedVector → Value)
    (set : Value → Surroundings P → TypedVector → Except ScriptError TypedVector) :
    (dynamic tag get set).get native = .ok (get v) := by
  show Facet.vector.demand native >>= _ = _
  rw [Facet.demand_vector hv]
  rfl

theorem get_fixed (hv : native.vector? = some v) (target : Target) (get : TypedVector → Value)
    (set : Value → TypedVector → Except ScriptError TypedVector) :
    (fixed (P := P) target get set).get native = .ok (get v) :=
  get_dynamic hv target.tag get fun _ _ => .ok

end TypedVector.Members

namespace Realm

/-- An object is a typed vector without fields, around native state. -/
structure IsVector (r : Realm P) (c : ClassNumber) (h : Handle) (native : Native P.Layer) : Prop where
  knows : r.registry.KnowsVectors c
  get? : r.heap.get? h = some ⟨.instanceOf c (some native), .empty⟩

variable {r : Realm P} {c : ClassNumber} {h : Handle} {native : Native P.Layer} {v : TypedVector}

theorem IsVector.property (hv : r.IsVector c h native) {name : String} {binding : BoundProperty P}
    (hbinding : TypedVector.Members.table.find? name = some binding) :
    r.property h name = binding.accessor.get native := by
  have hfound : r.binding? ⟨.instanceOf c (some native), .empty⟩ name = some binding :=
    (hv.knows.property name).trans hbinding
  unfold Realm.property
  simp only [hv.get?, hfound]
  rfl

theorem IsVector.classOf? (hv : r.IsVector c h native) : r.classOf? h = some c := by
  rw [Realm.classOf?, hv.get?]
  rfl

theorem IsVector.singleton (hv : r.IsVector c h native) : r.isSingletonInstance h = false := by
  obtain ⟨d, hd, houtline⟩ := hv.knows.outline
  rw [isSingletonInstance, hv.classOf?, Option.bind_some, hd, Option.any_some, houtline]

end Realm

/-! ## Saving -/

namespace Saving

open TypedVector (scalarEntry)

variable {r : Realm P} {c : ClassNumber} {h : Handle} {native : Native P.Layer} {v : TypedVector}
  {mask? : Option (List String)}

/-- A mask that shares nothing. -/
def Maskless (mask? : Option (List String)) : Prop := mask? = none ∨ mask? = some []

theorem Maskless.shared? (hmask : Maskless mask?) (name : String) (value : Value) :
    shared? mask? name value = none := by
  rcases hmask with rfl | rfl <;> rfl

theorem Maskless.addEntry (hmask : Maskless mask?) {inner : Value → SavingM (Option Entry)}
    {value : Value} {entry : Entry} (hinner : inner value = pure (some entry)) (entries : Table Entry)
    (name : String) : addEntry mask? inner entries name value = pure (entries.insert name entry) := by
  unfold Saving.addEntry
  rw [hmask.shared?]
  dsimp only
  rw [hinner, pure_bind]

theorem saveWith_scalar (inner? : Option Inner) (path : List Handle) {value : Value} {entry : Entry}
    (hscalar : scalar? value = some entry) :
    saveWith r mask? inner? path value = pure (some entry) := by
  cases value with
  | null | bool | byte | int | float | double | string =>
    obtain rfl := Option.some.inj hscalar
    rfl
  | _ => cases hscalar

theorem save_scalar (room : Nat) (path : List Handle) {value : Value} {entry : Entry}
    (hscalar : scalar? value = some entry) : save r mask? room path value = pure (some entry) := by
  cases room <;> exact saveWith_scalar _ path hscalar

/-- Items that nothing lies inside of are saved one by one. -/
theorem mapM_scalars (room : Nat) (path : List Handle) {values : List Value}
    (hscalar : ∀ value ∈ values, scalar? value = some (scalarEntry value)) :
    (values.mapM fun item => do return (← save r mask? room path item).getD .null : SavingM _) =
      pure (values.map scalarEntry) := by
  induction values with
  | nil => rfl
  | cons value values ih =>
    rw [List.mapM_cons, save_scalar room path (hscalar value List.mem_cons_self), pure_bind, pure_bind,
      ih fun other hother => hscalar other (List.mem_cons_of_mem _ hother), pure_bind]
    rfl

theorem save_list (room : Nat) (path : List Handle) {values : List Value}
    (hscalar : ∀ value ∈ values, scalar? value = some (scalarEntry value)) :
    save r mask? (room + 1) path (.ofList values) = pure (some (.array (values.map scalarEntry))) := by
  show (do return some (← saveArray r (some (save r mask? room)) path none values)) = _
  have harray : saveArray r (some (save r mask? room)) path none values =
      pure (.array (values.map scalarEntry)) := by
    unfold saveArray
    show (do
      let entries ← values.mapM fun item => do return (← save r mask? room path item).getD .null
      return Entry.array entries) = _
    rw [mapM_scalars room path hscalar, pure_bind]
  rw [harray, pure_bind]

/-- Adds one property of an instance to its entries. -/
def addProperty (r : Realm P) (mask? : Option (List String)) (inner : Value → SavingM (Option Entry))
    (h : Handle) (entries : Table Entry) (binding : BoundProperty P) : SavingM (Table Entry) :=
  if isSaved mask? binding && !Snapshot.isReserved binding.name then
    match r.property h binding.name with
    | .ok value => addEntry mask? inner entries binding.name value
    | .error error => throw (.script error)
  else return entries

theorem addProperties_eq_foldlM (r : Realm P) (mask? : Option (List String))
    (inner : Value → SavingM (Option Entry)) (h : Handle) (c : ClassNumber) (entries : Table Entry) :
    addProperties r mask? inner h c entries =
      (r.registry.visibleProperties c).foldlM (addProperty r mask? inner h) entries := rfl

theorem addProperty_saved {inner : Value → SavingM (Option Entry)} {binding : BoundProperty P}
    {value : Value} {entry : Entry} (hmask : Maskless mask?)
    (hsaved : (isSaved mask? binding && !Snapshot.isReserved binding.name) = true)
    (hproperty : r.property h binding.name = .ok value) (hinner : inner value = pure (some entry))
    (entries : Table Entry) :
    addProperty r mask? inner h entries binding = pure (entries.insert binding.name entry) := by
  unfold addProperty
  rw [if_pos hsaved, hproperty]
  exact hmask.addEntry hinner entries binding.name

theorem addProperty_left {inner : Value → SavingM (Option Entry)} {binding : BoundProperty P}
    (hleft : (isSaved mask? binding && !Snapshot.isReserved binding.name) = false)
    (entries : Table Entry) : addProperty r mask? inner h entries binding = pure entries := by
  unfold addProperty
  rw [hleft]
  rfl

/-- Of the properties of a vector all are saved but the number of elements. -/
theorem isSaved_bindings (hmask : Maskless mask?) :
    (TypedVector.Members.bindings (P := P)).map (fun binding =>
      isSaved mask? binding && !Snapshot.isReserved binding.name) =
        [true, true, true, false, true, true] := by
  rcases hmask with rfl | rfl <;> cbv

/-- The properties of a vector are saved one by one. -/
theorem addProperties_vector (hv : r.IsVector c h native) (hnative : native.vector? = some v)
    (hclass : v.elementClass = none)
    (hscalar : ∀ value ∈ v.values, scalar? value = some (scalarEntry value))
    (hmask : Maskless mask?) (room : Nat) :
    addProperties r mask? (save r mask? (room + 1) []) h c .empty = pure (.ofList v.savedEntries) := by
  have hread {name : String} {binding : BoundProperty P} {value : Value}
      (hbinding : TypedVector.Members.table.find? name = some binding)
      (hget : binding.accessor.get native = .ok value) : r.property h name = .ok value :=
    (hv.property hbinding).trans hget
  have htype : r.property h "type" = .ok (v.type?.elim .null fun type => .string type.name) :=
    hread rfl (TypedVector.Members.get_dynamic hnative _ _ _)
  have helementClass : r.property h "elementClass" = .ok .null :=
    hread rfl ((TypedVector.Members.get_dynamic hnative _ _ _).trans (by rw [hclass]; rfl))
  have hdata : r.property h "data" = .ok (.ofList v.values) :=
    hread rfl (TypedVector.Members.get_dynamic hnative _ _ _)
  have htypeLocked : r.property h "lockedType" = .ok (.bool v.typeLocked) :=
    hread rfl (TypedVector.Members.get_fixed hnative _ _ _)
  have hsizeLocked : r.property h "lockedSize" = .ok (.bool v.sizeLocked) :=
    hread rfl (TypedVector.Members.get_fixed hnative _ _ _)
  have hname : save r mask? (room + 1) [] (v.type?.elim .null fun type => .string type.name) =
      pure (some (v.type?.elim .null fun type => .string type.name)) := by
    cases v.type? <;> rfl
  have hlist : save r mask? (room + 1) [] (.ofList v.values) =
      pure (some (.array (v.values.map scalarEntry))) := save_list room [] hscalar
  have hsaved := isSaved_bindings (P := P) hmask
  rw [addProperties_eq_foldlM, hv.knows.visible]
  simp only [TypedVector.Members.bindings, TypedVector.Members.properties, List.map_cons, List.map_nil,
    List.foldlM_cons, List.foldlM_nil, List.cons.injEq, and_true] at hsaved ⊢
  obtain ⟨hsaved₁, hsaved₂, hsaved₃, hleft, hsaved₄, hsaved₅⟩ := hsaved
  rw [addProperty_saved hmask hsaved₁ htype hname, pure_bind,
    addProperty_saved hmask hsaved₂ helementClass rfl, pure_bind,
    addProperty_saved hmask hsaved₃ hdata hlist, pure_bind, addProperty_left hleft, pure_bind,
    addProperty_saved hmask hsaved₄ htypeLocked rfl, pure_bind,
    addProperty_saved hmask hsaved₅ hsizeLocked rfl, pure_bind]
  rfl

/-- An object that has not been saved yet is saved as a node. -/
theorem run_saveObject_vector (hv : r.IsVector c h native) (hnative : native.vector? = some v)
    (hclass : v.elementClass = none) (htype : v.type? ≠ some .object) (hmask : Maskless mask?)
    {force : Bool} (hforce : force = true ∨ P.isTransientOf native = false) (room : Nat) :
    (saveObject r mask? (some (save r mask? (room + 1))) [] h force).run ⟨#[], [], 0⟩ =
      .ok (some (.node 0), ⟨#[v.savedNode], [(h, 0)], 0⟩) := by
  obtain ⟨d, hd, houtline⟩ := hv.knows.outline
  have hkept :
      (!force && isTransient (⟨.instanceOf c (some native), .empty⟩ : ScriptObject P)) = false := by
    rcases hforce with rfl | hforce
    · rfl
    · show (!force && (P.isTransientOf native || false)) = false
      rw [hforce, Bool.or_false, Bool.and_false]
  have hproperties := addProperties_vector hv hnative hclass
    (fun value => TypedVector.scalar?_of_mem htype) hmask room
  have hregistered : registered? r (⟨.instanceOf c (some native), .empty⟩ : ScriptObject P) =
      some (c, TypedVector.className) := by
    show ((r.registry.get? c).bind fun d => _) = _
    rw [hd, Option.bind_some, houtline]
    rfl
  have hentries : makeEntries r mask? (save r mask? (room + 1) []) h
      (⟨.instanceOf c (some native), .empty⟩ : ScriptObject P) = pure (.ofList v.savedEntries) := by
    unfold makeEntries
    rw [hregistered, Option.elim_some, hproperties, pure_bind]
    rfl
  rw [saveObject_eq_saveNew]
  show (saveNew r mask? (save r mask? (room + 1) []) h force).run ⟨#[], [], 0⟩ = _
  unfold saveNew
  rw [hv.get?]
  dsimp only
  rw [hkept, if_neg Bool.false_ne_true, hv.singleton, if_neg Bool.false_ne_true, run_makeNode,
    hregistered, hentries]
  rfl

end Saving

/-- What is saved for a vector, whether to be kept or for a copy that shares nothing. -/
theorem Realm.save_vector {r : Realm P} {c : ClassNumber} {h : Handle} {native : Native P.Layer}
    {v : TypedVector} (hv : r.IsVector c h native) (hnative : native.vector? = some v)
    (hclass : v.elementClass = none) (htype : v.type? ≠ some .object) {mask? : Option (List String)}
    (hmask : Saving.Maskless mask?) {force : Bool}
    (hforce : force = true ∨ P.isTransientOf native = false) (hroom : 2 ≤ r.options.depthLimit) :
    r.save (.object h) force mask? = .ok v.image := by
  obtain ⟨room, hlimit⟩ := Nat.exists_eq_add_of_le' hroom
  have hroot : Saving.saveRoot r mask? force (.object h) =
      Saving.saveObject r mask? (some (Saving.save r mask? (room + 1))) [] h force := by
    unfold Saving.saveRoot
    have hnode : (Value.object h).object?.filter
        (fun h => ((r.heap.get? h).bind ScriptObject.items?).isNone) = some h := by
      show (some h).filter _ = some h
      rw [Option.filter_some, hv.get?]
      rfl
    rw [hnode, hlimit]
    rfl
  unfold Realm.save
  rw [hroot, Saving.run_saveObject_vector hv hnative hclass htype hmask hforce room]
  rfl

end ScriptBridge
