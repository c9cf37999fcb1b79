import ScriptBridge.Proofs.Heap.Changes
import ScriptBridge.Proofs.Realm.Reachable

/-!
# What Operations Change

Reading aside, an operation on objects changes the heap as `Heap.Revision` says, within bounds that are
known beforehand: a write edits the object that it goes to, and makes nothing and edits nothing else
unless the value brings the items of an array along. Protections and singletons are left alone.

Main statements: `alters_putProperty`, `alters_assignElement` and `publishSingleton_cases`.
-/

namespace ScriptBridge

variable {P : Platform}

/-! ## Fresh Instances -/

/-- The class of what has a form: functions have none. -/
def ObjectForm.classNumber? : ObjectForm P → Option ClassNumber
  | .plain => some .object
  | .array _ => some .array
  | .instanceOf c _ => some c
  | .function _ => none

theorem ScriptObject.classNumber?_nature (o : ScriptObject P) :
    o.nature.classNumber? = o.form.classNumber? := by
  obtain ⟨form, fields⟩ := o
  cases form <;> rfl

theorem ScriptObject.Continues.classNumber? {o o' : ScriptObject P} (h : o.Continues o') :
    o'.form.classNumber? = o.form.classNumber? := by
  rw [← o'.classNumber?_nature, h.nature, o.classNumber?_nature]

namespace Realm

/-- The class of an object depends on what it is. -/
theorem classOf?_eq (r : Realm P) (h : Handle) :
    r.classOf? h = (r.heap.nature? h).bind ObjectForm.classNumber? := by
  show ((r.heap.get? h).bind fun object => object.form.classNumber?) =
    ((r.heap.get? h).map ScriptObject.nature).bind ObjectForm.classNumber?
  cases r.heap.get? h with
  | none => rfl
  | some object => exact object.classNumber?_nature.symm

/-- What a new instance of a class is. -/
def freshForm (r : Realm P) (c : ClassNumber) : ObjectForm P :=
  if c = .object then .plain
  else if c = .array then .array #[]
  else .instanceOf c ((r.registry.resolveFresh? c).map fun fresh => fresh r.world)

/-- An instance is made in one piece, without fields. -/
theorem instantiate_eq (c : ClassNumber) (r : Realm P) :
    r.instantiate c = r.allocate (.ofForm (r.freshForm c)) := by
  unfold instantiate freshForm
  split
  · rfl
  · split
    · rfl
    · rfl

theorem classNumber?_freshForm (r : Realm P) (c : ClassNumber) :
    (r.freshForm c).classNumber? = some c := by
  unfold freshForm
  split
  · next hc => rw [hc]; rfl
  · split
    · next hc => rw [hc]; rfl
    · rfl

theorem function?_freshForm (r : Realm P) (c : ClassNumber) :
    (ScriptObject.ofForm (r.freshForm c)).function? = none := by
  unfold freshForm
  split
  · rfl
  · split <;> rfl

end Realm

/-- An object is no instance, or one of a registered class that is no singleton class. -/
def Registry.Common (registry : Registry P) (object : ScriptObject P) : Prop :=
  ∀ c, object.class? = some c → ∃ d, registry.get? c = some d ∧ d.outline.singleton = false

theorem Registry.common_of_class? {registry : Registry P} {object : ScriptObject P}
    (h : object.class? = none) : registry.Common object := by
  intro c hc
  rw [h] at hc
  cases hc

theorem Realm.class?_freshForm {r : Realm P} {c k : ClassNumber}
    (h : (ScriptObject.ofForm (r.freshForm c)).class? = some k) : k = c := by
  unfold freshForm at h
  split at h
  · cases h
  · split at h
    · cases h
    · exact (Option.some.inj h).symm

/-- A new instance of a class that has been found under its name and is no singleton class. -/
theorem Realm.common_freshForm {r : Realm P} {c : ClassNumber} {name : String}
    (hclass : r.registry.lookup? name = some c)
    (hsingle : ¬ ((r.registry.get? c).any fun d => d.outline.singleton) = true) :
    r.registry.Common (.ofForm (r.freshForm c)) := by
  intro k hk
  obtain rfl := class?_freshForm hk
  obtain ⟨d, hget, -⟩ := Registry.exists_of_lookup? hclass
  rw [hget, Option.any_some] at hsingle
  exact ⟨d, hget, Bool.eq_false_iff.2 hsingle⟩

/-- An object has native state if the new instances of its class have some. -/
def Registry.Furnishes (registry : Registry P) (object : ScriptObject P) : Prop :=
  ∀ c, object.class? = some c → (registry.resolveFresh? c).isSome = true →
    object.native?.isSome = true

theorem Registry.furnishes_of_class? {registry : Registry P} {object : ScriptObject P}
    (h : object.class? = none) : registry.Furnishes object := by
  intro c hc
  rw [h] at hc
  cases hc

/-- An edit does not take native state away. -/
theorem Registry.Furnishes.continues {registry : Registry P} {object object' : ScriptObject P}
    (h : registry.Furnishes object) (hon : object.Continues object') :
    registry.Furnishes object' := by
  intro c hc hfresh
  rw [ScriptObject.class?_eq_of_nature_eq hon.nature] at hc
  exact hon.native (h c hc hfresh)

theorem Realm.furnishes_freshForm (r : Realm P) (c : ClassNumber) :
    r.registry.Furnishes (.ofForm (r.freshForm c)) := by
  unfold freshForm
  split
  · exact Registry.furnishes_of_class? rfl
  · split
    · exact Registry.furnishes_of_class? rfl
    · rintro k hk hfresh
      obtain rfl := Option.some.inj hk
      show Option.isSome (Option.map _ _) = true
      rw [Option.isSome_map]
      exact hfresh

end ScriptBridge

namespace ScriptBridge.Realm

open Heap (Storable Stores)

variable {P : Platform} {edits : Handle → Prop} {makes : ScriptObject P → Prop}

/-- A realm changes by edits and new objects within bounds, and no protection changes. -/
structure Alters (edits : Handle → Prop) (makes : ScriptObject P → Prop) (r r' : Realm P) : Prop where
  /-- Objects are edited or made. -/
  revisions : r.heap.Revisions edits makes r'.heap
  /-- The protections stay as they are. -/
  roots : r'.collector.roots = r.collector.roots
  /-- No singleton is installed. -/
  singletons : r'.singletons = r.singletons

theorem Alters.heap {r r' : Realm P} (h : Alters edits makes r r') :
    r.heap.Changes edits makes r'.heap :=
  h.revisions.changes

theorem Alters.refl (r : Realm P) : Alters edits makes r r := ⟨.refl, rfl, rfl⟩

theorem Alters.trans {a b c : Realm P} (h : Alters edits makes a b) (h' : Alters edits makes b c) :
    Alters edits makes a c :=
  ⟨h.revisions.trans h'.revisions, h'.roots.trans h.roots, h'.singletons.trans h.singletons⟩

theorem Alters.imp {edits' : Handle → Prop} {makes' : ScriptObject P → Prop} {r r' : Realm P}
    (h : Alters edits makes r r') (hedits : ∀ k, edits k → edits' k)
    (hmakes : ∀ object, makes object → makes' object) : Alters edits' makes' r r' :=
  ⟨h.revisions.imp hedits hmakes, h.roots, h.singletons⟩

/-! ## Making and Editing -/

theorem alters_modifyObject {h : Handle} {f : ScriptObject P → ScriptObject P} (hh : edits h)
    (hf : ∀ object : ScriptObject P, object.Continues (f object)) (r : Realm P) :
    Alters edits makes r (r.modifyObject h f) :=
  ⟨.single (.modify hh hf), rfl, rfl⟩

theorem alters_allocate {object : ScriptObject P} (hobject : makes object) (r : Realm P) :
    Alters edits makes r (r.allocate object).2 :=
  ⟨.single (.allocate hobject), rfl, rfl⟩

theorem alters_store {value : Value} (hvalue : Storable edits makes value) (r : Realm P) :
    Alters edits makes r (r.store value).2 :=
  ⟨r.heap.revisions_store hvalue, rfl, rfl⟩

theorem alters_newArray (items : List Value) (hall : Stores edits makes) (r : Realm P) :
    Alters edits makes r (r.newArray items).2 :=
  ⟨(r.heap.revisions_storeAll items hall).tail (.allocate (hall.makes _)), rfl, rfl⟩

theorem alters_instantiate {c : ClassNumber} {r : Realm P}
    (hmakes : makes (.ofForm (r.freshForm c))) : Alters edits makes r (r.instantiate c).2 := by
  rw [instantiate_eq]
  exact alters_allocate hmakes r

/-- An object is wrapped around native state only if its class is not built in. -/
theorem alters_wrapNative {name : String} {native : Native P.Layer} {r : Realm P}
    (hmakes : ∀ c d, r.registry.lookup? name = some c → r.registry.get? c = some d →
      d.outline.builtin = false → makes (.ofForm (.instanceOf c (some native)))) :
    Alters edits makes r (after (wrapNative name native) r) := by
  unfold wrapNative
  refine after_get ?_
  cases hclass : r.registry.lookup? name with
  | none => exact Alters.refl r
  | some c =>
    dsimp only
    split
    · exact Alters.refl r
    · next hown =>
      cases hget : r.registry.get? c with
      | none => simp [hget] at hown
      | some d => exact alters_allocate (hmakes c d hclass hget (by simpa [hget] using hown)) r

theorem alters_onNative {α : Type} {h : Handle} (hh : edits h) (deserializing : Bool)
    (step : Surroundings P → NativeAction P α) (r : Realm P) :
    Alters edits makes r (after (onNative h deserializing step) r) := by
  unfold onNative
  refine after_get (after_lift_bind Alters.refl fun native => ?_)
  split
  next answer receiver _ =>
    refine after_bind (R := Alters edits makes) Alters.trans ?_ fun _ =>
      after_lift Alters.refl answer
    exact ⟨.single (.modify hh fun object => object.continues_setNative _), rfl, rfl⟩

/-- Native state is that of a live instance. -/
theorem get?_of_native {r : Realm P} {h : Handle} {native : Native P.Layer}
    (hnative : r.native h = .ok native) :
    ∃ object, r.heap.get? h = some object ∧ object.native? = some native := by
  unfold Realm.native at hnative
  split at hnative
  · cases hnative
  · next object hget =>
    split at hnative
    · next found hfound =>
      rw [← Except.ok.inj hnative]
      exact ⟨object, hget, hfound⟩
    · cases hnative

/-- Native state is that of an instance of some class. -/
theorem instance_of_native {r : Realm P} {h : Handle} {native : Native P.Layer}
    (hnative : r.native h = .ok native) :
    ∃ c fields, r.heap.get? h = some ⟨.instanceOf c (some native), fields⟩ := by
  obtain ⟨⟨form, fields⟩, hget, hobject⟩ := get?_of_native hnative
  cases form with
  | instanceOf c held =>
    obtain rfl : held = some native := hobject
    exact ⟨c, fields, hget⟩
  | _ => cases hobject

/-! ## Writes -/

theorem alters_setField {h : Handle} (hh : edits h) (name : String) {value : Value}
    (hvalue : Storable edits makes value) (r : Realm P) :
    Alters edits makes r (after (setField h name value) r) :=
  (alters_store hvalue r).trans
    (alters_modifyObject hh (fun object => object.continues_setField _ _) _)

theorem alters_setLength {h : Handle} (hh : edits h) (size : Nat) (value : Value) (r : Realm P) :
    Alters edits makes r (after (setLength h size value) r) := by
  unfold setLength
  refine after_lift_bind Alters.refl fun answer => ?_
  split
  · next length =>
    have hresize : Alters edits makes r
        (r.modifyObject h (·.mapItems (resized · length.toNatClampNeg))) :=
      alters_modifyObject hh (fun object => object.continues_mapItems _) r
    split
    · exact Alters.refl r
    · dsimp only
      split
      · exact Alters.refl r
      · exact hresize
  · exact Alters.refl r

/-- Setting the length of an array changes its items, or nothing. -/
theorem heap_setLength_cases (h : Handle) (size : Nat) (value : Value) (r : Realm P) :
    (after (setLength h size value) r).heap = r.heap ∨
    ∃ n, (after (setLength h size value) r).heap = r.heap.modify h (·.mapItems (resized · n)) := by
  let R : Realm P → Realm P → Prop := fun a b =>
    b.heap = a.heap ∨ ∃ n, b.heap = a.heap.modify h (·.mapItems (resized · n))
  show R r (after (setLength h size value) r)
  unfold setLength
  refine after_lift_bind (R := R) (fun _ => Or.inl rfl) fun answer => ?_
  split
  · next length =>
    have hresize : R r (r.modifyObject h (·.mapItems (resized · length.toNatClampNeg))) :=
      Or.inr ⟨_, rfl⟩
    split
    · exact Or.inl rfl
    · dsimp only
      split
      · exact Or.inl rfl
      · exact hresize
  · exact Or.inl rfl

theorem store_of_isInline (r : Realm P) {value : Value} (hvalue : value.isInline = false) :
    r.store value = (value, r) := by
  cases value <;> first | rfl | cases hvalue

theorem heap_setField (h : Handle) (name : String) {value : Value} (hvalue : value.isInline = false)
    (r : Realm P) :
    (after (setField h name value) r).heap = r.heap.modify h (·.setField name value) := by
  show (Realm.modifyObject h (·.setField name (r.store value).1) (r.store value).2).heap = _
  rw [store_of_isInline r hvalue]
  rfl

/-- Where no class binds the name, a write goes into the field, or sets the length of an array. -/
theorem heap_putProperty_cases {r : Realm P} {h : Handle} {object : ScriptObject P}
    (hget : r.heap.get? h = some object) {name : String}
    (hfree : r.binding? object name = none) {value : Value} (hvalue : value.isInline = false)
    (deserializing : Bool) :
    (after (putProperty h name value deserializing) r).heap = r.heap ∨
    (∃ n, (after (putProperty h name value deserializing) r).heap =
      r.heap.modify h (·.mapItems (resized · n))) ∨
    (after (putProperty h name value deserializing) r).heap =
      r.heap.modify h (·.setField name value) := by
  let R : Realm P → Realm P → Prop := fun a b =>
    b.heap = a.heap ∨ (∃ n, b.heap = a.heap.modify h (·.mapItems (resized · n))) ∨
      b.heap = a.heap.modify h (·.setField name value)
  show R r (after (putProperty h name value deserializing) r)
  unfold putProperty
  refine after_get (R := R) ?_
  simp only [hget, hfree]
  split
  · rcases heap_setLength_cases h _ value r with hsame | hresized
    · exact Or.inl hsame
    · exact Or.inr (Or.inl hresized)
  · exact Or.inr (Or.inr (heap_setField h _ hvalue r))

/-- A write into a field of something that is no array. -/
theorem heap_putProperty_of_field {r : Realm P} {h : Handle} {object : ScriptObject P}
    (hget : r.heap.get? h = some object) {name : String} (hfree : r.binding? object name = none)
    (hitems : object.items? = none) {value : Value} (hvalue : value.isInline = false)
    (deserializing : Bool) :
    (after (putProperty h name value deserializing) r).heap =
      r.heap.modify h (·.setField name value) := by
  unfold putProperty
  let R : Realm P → Realm P → Prop := fun a b => b.heap = a.heap.modify h (·.setField name value)
  refine after_get (R := R) ?_
  simp only [hget, hfree, hitems, Option.map_none]
  exact heap_setField h name hvalue r

/-- Where no class binds elements, a write goes into the items of an array or into a field. -/
theorem heap_assignElement_cases {r : Realm P} {h : Handle} {object : ScriptObject P}
    (hget : r.heap.get? h = some object)
    (hfree : r.elements? object = none) (index : Nat) {value : Value}
    (hvalue : value.isInline = false) :
    (after (assignElement h index value) r).heap = r.heap ∨
    (after (assignElement h index value) r).heap =
      r.heap.modify h (·.mapItems (withItem · index value)) ∨
    (after (assignElement h index value) r).heap =
      r.heap.modify h (·.setField (toString index) value) := by
  let R : Realm P → Realm P → Prop := fun a b =>
    b.heap = a.heap ∨ b.heap = a.heap.modify h (·.mapItems (withItem · index value)) ∨
      b.heap = a.heap.modify h (·.setField (toString index) value)
  show R r (after (assignElement h index value) r)
  unfold assignElement
  refine after_get (R := R) ?_
  simp only [hget, hfree]
  have hstore : ∀ next : Value → Action P Bool,
      after (modifyGet (store value) >>= next) r = after (next value) r := by
    intro next
    show after (next (r.store value).1) (r.store value).2 = _
    rw [store_of_isInline r hvalue]
  rw [hstore]
  refine after_get (R := R) ?_
  simp only [hget]
  cases object.items?.map Array.size with
  | none => exact Or.inr (Or.inr rfl)
  | some size =>
    dsimp only
    split
    · exact Or.inl rfl
    · exact Or.inr (Or.inl rfl)

/-- A property is written by an edit of its object, besides what it takes to store the value. -/
theorem alters_putProperty {h : Handle} (hh : edits h) (name : String) {value : Value}
    (hvalue : Storable edits makes value) (deserializing : Bool) (r : Realm P) :
    Alters edits makes r (after (putProperty h name value deserializing) r) := by
  unfold putProperty
  refine after_get ?_
  cases hget : r.heap.get? h with
  | none => exact Alters.refl r
  | some object =>
    dsimp only
    cases r.binding? object name with
    | some binding =>
      dsimp only
      split
      · exact Alters.refl r
      · exact alters_onNative hh deserializing _ r
    | none =>
      dsimp only
      split
      · exact alters_setLength hh _ value r
      · exact alters_setField hh _ hvalue r

/-- An element is written by an edit of its object, besides what it takes to store the value. -/
theorem alters_assignElement {h : Handle} (hh : edits h) (index : Nat) {value : Value}
    (hvalue : Storable edits makes value) (r : Realm P) :
    Alters edits makes r (after (assignElement h index value) r) := by
  unfold assignElement
  refine after_get ?_
  cases hget : r.heap.get? h with
  | none => exact Alters.refl r
  | some object =>
    dsimp only
    cases r.elements? object with
    | some elements => exact alters_onNative hh false _ r
    | none =>
      refine after_modifyGet (R := Alters edits makes) Alters.trans (alters_store hvalue r)
        (after_get ?_)
      cases (r.store value).2.heap.get? h with
      | none => exact Alters.refl _
      | some object' =>
        dsimp only
        cases object'.items?.map Array.size with
        | none => exact alters_modifyObject hh (fun object => object.continues_setField _ _) _
        | some size =>
          dsimp only
          split
          · exact Alters.refl _
          · exact alters_modifyObject hh (fun object => object.continues_mapItems _) _

/-! ## Operations of any Kind -/

/-- Any object may be edited, and anything may be made. -/
abbrev Freely : Realm P → Realm P → Prop := Alters (fun _ => True) (fun _ => True)

theorem freely_wrapNative (name : String) (native : Native P.Layer) (r : Realm P) :
    Freely r (after (wrapNative name native) r) :=
  alters_wrapNative fun _ _ _ _ _ => trivial

theorem freely_instantiate (c : ClassNumber) (r : Realm P) : Freely r (r.instantiate c).2 :=
  alters_instantiate trivial

/-- The realm in which an instance has been made, protected and noted as that of its class. -/
def installed (r : Realm P) (c : ClassNumber) : Realm P :=
  { (r.instantiate c).2.protect (r.instantiate c).1 with
    singletons := (c, (r.instantiate c).1) :: r.singletons }

/-- A singleton is published once: its instance is made, protected and noted, and then its global
variable is written. -/
theorem publishSingleton_cases (name : String) (r : Realm P) :
    after (publishSingleton name) r = r ∨
    ∃ c, r.registry.lookup? name = some c ∧ r.singletons.lookup c = none ∧
      after (publishSingleton name) r =
        after (assignProperty r.globals name (.object (r.instantiate c).1)) (r.installed c) := by
  unfold publishSingleton
  cases hclass : r.registry.lookup? name with
  | none =>
    left
    refine after_get (R := fun _ r' => r' = r) ?_
    rw [hclass]
    rfl
  | some c =>
    cases hfound : r.singletons.lookup c with
    | some h =>
      left
      refine after_get (R := fun _ r' => r' = r) ?_
      simp only [hclass, hfound]
      rfl
    | none =>
      right
      refine ⟨c, rfl, hfound, ?_⟩
      let write : Action P Unit := assignProperty r.globals name (.object (r.instantiate c).1)
      have hdone : ∀ noted : Realm P,
          after (write >>= fun _ => (pure (r.instantiate c).1 : Action P Handle)) noted =
            after write noted :=
        fun noted => after_bind_pure write _ noted
      have hsingletons : (r.instantiate c).2.singletons = r.singletons :=
        (freely_instantiate c r).singletons
      refine after_get (R := fun _ r' => r' = after write (r.installed c)) ?_
      simp only [hclass, hfound]
      unfold installed
      rw [← hsingletons]
      exact hdone _

end ScriptBridge.Realm
