import ScriptBridge.Proofs.TypedVector.Declared
import ScriptBridge.Proofs.Realm.Calls

/-!
# Vectors that Fit their Element Classes

A realm conforms when every vector in it holds instances of its element class only. Operations on
vectors look at what they are given, so a realm that conforms still does after any of them; the one
exception is naming a class while there are objects in the vector already, which nobody looks at.
`ScriptStep` is an operation as scripts have it at hand, where a class is only named if the objects
that are there are instances of it.

Main statement: `ScriptStep.conserves`.
-/

namespace ScriptBridge

open Realm (after after_get after_bind after_lift_bind after_lift after_lift_bind_of_ok Evolves)

variable {P : Platform} {α : Type}

/-! ## Vectors in a Heap -/

/-- The vector in the native state of an object. -/
def ScriptObject.vector? (object : ScriptObject P) : Option TypedVector :=
  object.native?.bind Native.vector?

/-- Every layer of native state keeps alive what its base does. -/
def Platform.TracesBase (P : Platform) : Prop :=
  ∀ layer handles, ∀ k ∈ handles, k ∈ P.handles layer handles

theorem Platform.TracesBase.mem_handlesOf (hP : P.TracesBase) {native : Native P.Layer}
    {v : TypedVector} (hv : native.vector? = some v) {k : Handle} (hk : k ∈ v.handles) :
    k ∈ P.handlesOf native := by
  induction native with
  | vector w =>
    obtain rfl : w = v := Option.some.inj hv
    exact hk
  | base layer => cases hv
  | derived layer rest ih => exact hP layer _ k (ih hv)

namespace Heap

/-- The vector behind a handle. -/
def vector? (heap : Heap P) (h : Handle) : Option TypedVector :=
  (heap.get? h).bind ScriptObject.vector?

/-- Every vector holds instances of its element class only. -/
def Conforms (heap : Heap P) (classes : ClassTree) : Prop :=
  ∀ h v, heap.vector? h = some v → v.Fits ⟨false, heap, classes⟩

variable {heap heap' : Heap P} {classes : ClassTree}

/-- An instance stays one as long as it stays what it is. -/
theorem isInstanceOf_mono {k : Handle} {d d' : Bool} {name : String}
    (hk : ∀ nature, heap.nature? k = some nature → heap'.nature? k = some nature)
    (h : (Surroundings.mk d heap classes).isInstanceOf k name = true) :
    (Surroundings.mk d' heap' classes).isInstanceOf k name = true := by
  cases hget : heap.get? k with
  | none => simp [Surroundings.isInstanceOf, hget] at h
  | some object =>
    obtain ⟨object', hget', hnature⟩ := Option.map_eq_some_iff.1
      (hk object.nature (by rw [nature?, hget, Option.map_some]))
    simp only [Surroundings.isInstanceOf, hget, hget', Option.bind_some] at h ⊢
    rw [ScriptObject.class?_eq_of_nature_eq hnature]
    exact h

theorem fits_of_changes {edits : Handle → Prop} {makes : ScriptObject P → Prop} {v : TypedVector}
    (hchanges : heap.Changes edits makes heap') (hwf : heap.WellFormed)
    (hbound : heap'.capacity ≤ UInt32.size) (hv : v.Fits ⟨false, heap, classes⟩) :
    v.Fits ⟨false, heap', classes⟩ :=
  fun name hname k hk =>
    isInstanceOf_mono (fun _ => hchanges.nature? hwf hbound) (hv name hname k hk)

theorem Conforms.modify (hheap : heap.Conforms classes) (hwf : heap.WellFormed)
    (hbound : heap.capacity ≤ UInt32.size) {h : Handle} {f : ScriptObject P → ScriptObject P}
    (hnature : ∀ object, (f object).nature = object.nature)
    (hf : ∀ v, (heap.modify h f).vector? h = some v → v.Fits ⟨false, heap, classes⟩) :
    (heap.modify h f).Conforms classes := by
  have hchanges : heap.Changes (fun _ => True) (fun _ => True) (heap.modify h f) :=
    .single (.modify trivial hnature)
  have hbound' : (heap.modify h f).capacity ≤ UInt32.size := by rwa [capacity_modify]
  intro k v hv
  apply fits_of_changes hchanges hwf hbound'
  by_cases hk : k = h
  · subst hk
    exact hf v hv
  · rw [vector?, get?_modify, if_neg hk] at hv
    exact hheap k v hv

theorem Conforms.allocate (hheap : heap.Conforms classes) (hwf : heap.WellFormed)
    {object : ScriptObject P} (hbound : (heap.allocate object).2.capacity ≤ UInt32.size)
    (hobject : ∀ v, object.vector? = some v → v.Fits ⟨false, heap, classes⟩) :
    (heap.allocate object).2.Conforms classes := by
  have hchanges : heap.Changes (fun _ => True) (fun _ => True) (heap.allocate object).2 :=
    .single (.allocate trivial)
  intro k v hv
  apply fits_of_changes hchanges hwf hbound
  rw [vector?, hwf.get?_allocate (hasRoom_of_capacity_allocate hwf hbound)] at hv
  split at hv
  · exact hobject v hv
  · exact hheap k v hv

theorem vector?_setField (object : ScriptObject P) (name : String) (value : Value) :
    (object.setField name value).vector? = object.vector? := rfl

theorem vector?_mapItems (object : ScriptObject P) (f : Array Value → Array Value) :
    (object.mapItems f).vector? = object.vector? := by
  obtain ⟨form, fields⟩ := object
  cases form <;> rfl

theorem vector?_of_get? {h : Handle} {object : ScriptObject P} (hget : heap.get? h = some object) :
    heap.vector? h = object.vector? := by
  rw [vector?, hget, Option.bind_some]

/-- An edit that leaves native state alone. -/
theorem vector?_modify (heap : Heap P) (h : Handle) {f : ScriptObject P → ScriptObject P}
    (hf : ∀ object, (f object).vector? = object.vector?) (k : Handle) :
    (heap.modify h f).vector? k = heap.vector? k := by
  rw [vector?, vector?, get?_modify]
  split
  · next hk =>
    subst hk
    cases heap.get? k with
    | none => rfl
    | some object => exact hf object
  · rfl

theorem Conforms.storeArray (hheap : heap.Conforms classes) (hwf : heap.WellFormed)
    {origin : Option Handle} {items : List Value}
    (hbound : (heap.storeArray origin items).2.capacity ≤ UInt32.size) :
    (heap.storeArray origin items).2.Conforms classes := by
  unfold Heap.storeArray at hbound ⊢
  split
  · next h _ _ hmatch =>
    simp only [hmatch, capacity_modify] at hbound
    refine hheap.modify hwf hbound (fun object => object.nature_mapItems _) fun v hv => ?_
    rw [vector?_modify heap h fun object => vector?_mapItems object _] at hv
    exact hheap h v hv
  · next hmatch =>
    split at hbound
    · next h items fields hmatch' => exact absurd hmatch' (hmatch h items fields)
    · exact hheap.allocate hwf hbound fun v hv => nomatch hv

mutual

theorem Conforms.store {heap : Heap P} (hheap : heap.Conforms classes) (hwf : heap.WellFormed)
    (value : Value) (hbound : (heap.store value).2.capacity ≤ UInt32.size) :
    (heap.store value).2.Conforms classes := by
  cases value with
  | array origin items =>
    have hall := heap.changes_storeAll items
    have hlast := (heap.storeAll items).2.changes_storeArray origin (heap.storeAll items).1
    have hbound : ((heap.storeAll items).2.storeArray origin (heap.storeAll items).1).2.capacity ≤
        UInt32.size := hbound
    have hmiddle := Nat.le_trans hlast.capacity_le hbound
    exact Conforms.storeArray (hheap.storeAll hwf items hmiddle) (hall.wellFormed hwf hmiddle) hbound
  | _ => exact hheap

theorem Conforms.storeAll {heap : Heap P} (hheap : heap.Conforms classes) (hwf : heap.WellFormed)
    (values : List Value) (hbound : (heap.storeAll values).2.capacity ≤ UInt32.size) :
    (heap.storeAll values).2.Conforms classes := by
  cases values with
  | nil => exact hheap
  | cons value rest =>
    have hfirst := heap.changes_store value
    have hrest := (heap.store value).2.changes_storeAll rest
    have hbound : ((heap.store value).2.storeAll rest).2.capacity ≤ UInt32.size := hbound
    have hmiddle := Nat.le_trans hrest.capacity_le hbound
    exact Conforms.storeAll (hheap.store hwf value hmiddle) (hfirst.wellFormed hwf hmiddle) rest
      hbound

end

end Heap

/-! ## Operations -/

namespace Realm

open NativeAction (Turns Spares)

/-- What native code gets to see of a realm. -/
def surroundings (r : Realm P) : Surroundings P := ⟨false, r.heap, r.registry.tree⟩

/-- Every vector holds instances of its element class only. -/
def Conforming (r : Realm P) : Prop := ∀ h v, r.heap.vector? h = some v → v.Fits r.surroundings

/-- If a write goes to the member that names a class for the elements of a vector, the elements are
instances of this class already. -/
def Allows (r : Realm P) (h : Handle) (name : String) (value : Value) : Prop :=
  ∀ object v b, r.heap.get? h = some object → object.vector? = some v →
    r.binding? object name = some b →
    (name, b.accessor, b.flags) ∈ TypedVector.Members.properties →
    v.Allows r.surroundings name value

/-- A realm changes in order, and if it has conformed it still does, as long as nothing but the members
of the class of typed vectors gets at vectors. -/
structure Conserves (r r' : Realm P) : Prop where
  evolves : Evolves r r'
  conforming : r.registry.LeavesVectors → r.heap.WellFormed → r.heap.Slotted →
    r'.heap.capacity ≤ UInt32.size → r.Conforming → r'.Conforming

instance : Course (Conserves (P := P)) where
  refl r := ⟨Evolves.refl r, fun _ _ _ _ h => h⟩
  trans h h' := by
    refine ⟨h.evolves.trans h'.evolves, fun hregistry hwf hslotted hbound hr => ?_⟩
    have hmiddle := Nat.le_trans h'.evolves.heap.capacity hbound
    obtain ⟨hwf', hslotted'⟩ := h.evolves.heap.sound hwf hslotted hmiddle
    rw [← h.evolves.registry] at hregistry
    exact h'.conforming hregistry hwf' hslotted' hbound
      (h.conforming (h.evolves.registry ▸ hregistry) hwf hslotted hmiddle hr)

variable {r r' : Realm P}

/-- What does not touch the heap conserves a realm. -/
theorem Conserves.of_heap_eq (hevolves : Evolves r r') (hheap : r'.heap = r.heap) :
    Conserves r r' := by
  refine ⟨hevolves, fun _ _ _ _ hr => ?_⟩
  unfold Conforming surroundings at hr ⊢
  rw [hheap, hevolves.registry]
  exact hr

theorem conserves_modifyObject (hevolves : Evolves r r') {h : Handle}
    {f : ScriptObject P → ScriptObject P} (hheap : r'.heap = r.heap.modify h f)
    (hnature : ∀ object, (f object).nature = object.nature)
    (hf : r.registry.LeavesVectors → r.Conforming → ∀ v, r'.heap.vector? h = some v →
      v.Fits r.surroundings) : Conserves r r' := by
  refine ⟨hevolves, fun hregistry hwf _ hbound hr => ?_⟩
  rw [hheap, Heap.capacity_modify] at hbound
  have hf := hf hregistry hr
  unfold Conforming surroundings
  rw [hheap] at hf ⊢
  rw [hevolves.registry]
  exact Heap.Conforms.modify hr hwf hbound hnature hf

/-- An edit that leaves native state alone. -/
theorem conserves_modifyObject_of_vector? (hevolves : Evolves r r') {h : Handle}
    {f : ScriptObject P → ScriptObject P} (hheap : r'.heap = r.heap.modify h f)
    (hnature : ∀ object, (f object).nature = object.nature)
    (hf : ∀ object, (f object).vector? = object.vector?) : Conserves r r' := by
  refine conserves_modifyObject hevolves hheap hnature fun _ hr v hv => ?_
  rw [hheap, Heap.vector?_modify r.heap h hf] at hv
  exact hr h v hv

theorem conserves_allocate {object : ScriptObject P} (hslotted : object.Slotted)
    (hobject : r.registry.LeavesVectors → r.Conforming → ∀ v, object.vector? = some v →
      v.Fits r.surroundings) : Conserves r (r.allocate object).2 :=
  ⟨evolves_allocate hslotted r, fun hregistry hwf _ hbound hr =>
    Heap.Conforms.allocate hr hwf hbound (hobject hregistry hr)⟩

theorem conserves_ofForm {form : ObjectForm P} (hslotted : (ScriptObject.ofForm form).Slotted)
    (hform : (ScriptObject.ofForm form).native? = none) (r : Realm P) :
    Conserves r (r.allocate (.ofForm form)).2 := by
  refine conserves_allocate hslotted fun _ _ v hv => ?_
  rw [ScriptObject.vector?, hform] at hv
  cases hv

theorem conserves_store (value : Value) (r : Realm P) : Conserves r (r.store value).2 :=
  ⟨evolves_store value r, fun _ hwf _ hbound hr => Heap.Conforms.store hr hwf value hbound⟩

theorem conserves_newObject (r : Realm P) : Conserves r r.newObject.2 :=
  conserves_ofForm (Heap.slotted_ofForm (by simp)) rfl r

theorem conserves_newFunction (name : String) (body : FunctionBody P) (r : Realm P) :
    Conserves r (r.newFunction name body).2 :=
  conserves_ofForm (Heap.slotted_ofForm (by simp)) rfl r

theorem conserves_newArray (items : List Value) (r : Realm P) :
    Conserves r (r.newArray items).2 := by
  refine ⟨evolves_newArray items r, fun _ hwf _ hbound hr => ?_⟩
  have hchanges := r.heap.changes_storeAll items
  have hbound : ((r.heap.storeAll items).2.allocate
      (.ofForm (.array (r.heap.storeAll items).1.toArray))).2.capacity ≤ UInt32.size := hbound
  have hmiddle := Nat.le_trans (Heap.capacity_allocate _ _) hbound
  exact Heap.Conforms.allocate (Heap.Conforms.storeAll hr hwf items hmiddle)
    (hchanges.wellFormed hwf hmiddle) hbound fun v hv => nomatch hv

theorem slotted_freshForm (r : Realm P) (c : ClassNumber) :
    (ScriptObject.ofForm (r.freshForm c)).Slotted := by
  unfold freshForm
  split
  · exact Heap.slotted_ofForm (by simp)
  · split <;> exact Heap.slotted_ofForm (by simp)

/-- The vector of a new instance holds no objects. -/
theorem handles_freshForm (hregistry : r.registry.LeavesVectors) {c : ClassNumber} {v : TypedVector}
    (hv : (ScriptObject.ofForm (r.freshForm c)).vector? = some v) : v.handles = [] := by
  obtain ⟨native, hnative, hv⟩ := Option.bind_eq_some_iff.1 hv
  unfold freshForm at hnative
  split at hnative
  · cases hnative
  · split at hnative
    · cases hnative
    · obtain ⟨fresh, hfresh, rfl⟩ := Option.map_eq_some_iff.1 hnative
      exact hregistry.fresh hfresh r.world v hv

theorem conserves_instantiate (c : ClassNumber) (r : Realm P) :
    Conserves r (r.instantiate c).2 := by
  rw [instantiate_eq]
  refine conserves_allocate (slotted_freshForm r c) fun hregistry _ v hv name _ k hk => ?_
  rw [handles_freshForm hregistry hv] at hk
  cases hk

theorem conserves_setField (h : Handle) (name : String) (value : Value) (r : Realm P) :
    Conserves r (after (setField h name value) r) := by
  have hslot : (r.store value).1.isInline = false := (Heap.grows_store r.heap value).1
  refine Course.trans (conserves_store value r) (conserves_modifyObject_of_vector?
    (evolves_modifyObject h (fun _ hobject => Heap.slotted_setField hobject name hslot) _) rfl ?_ ?_)
  · exact fun object => object.nature_setField _ _
  · exact fun object => Heap.vector?_setField object _ _

theorem conserves_setLength (h : Handle) (size : Nat) (value : Value) (r : Realm P) :
    Conserves r (after (setLength h size value) r) := by
  have hevolves := evolves_setLength h size value r
  rcases heap_setLength_cases h size value r with hsame | ⟨n, hresized⟩
  · exact .of_heap_eq hevolves hsame
  · exact conserves_modifyObject_of_vector? hevolves hresized (fun object => object.nature_mapItems _)
      fun object => Heap.vector?_mapItems object _

theorem vector?_of_nativeAs {h : Handle} {v : TypedVector} (hv : r.nativeAs .vector h = .ok v) :
    r.heap.vector? h = some v := by
  obtain ⟨native, hnative, hv⟩ := Registry.except_bind_eq_ok hv
  obtain ⟨object, hget, hobject⟩ := get?_of_native hnative
  have hfind : Facet.vector.find? native = native.vector? := rfl
  rw [hfind] at hv
  rw [Heap.vector?_of_get? hget, ScriptObject.vector?, hobject, Option.bind_some]
  cases hvector : native.vector? with
  | none =>
    rw [hvector] at hv
    cases hv
  | some w =>
    rw [hvector] at hv
    rw [Except.ok.inj hv]

theorem vector?_setNative {object : ScriptObject P} {native : Native P.Layer} {v : TypedVector}
    (h : (object.setNative native).vector? = some v) (hnative : object.native?.isSome = true) :
    native.vector? = some v := by
  obtain ⟨form, fields⟩ := object
  cases form with
  | instanceOf => exact h
  | _ => cases hnative

/-- The vector that native code leaves behind comes from the one that was there when it started. -/
theorem exists_vector?_onNative {rel : TypedVector → TypedVector → Prop} (hrefl : ∀ v, rel v v)
    {h : Handle} {deserializing : Bool} {step : Surroundings P → NativeAction P α}
    (hstep : Turns (step ⟨deserializing, r.heap, r.registry.tree⟩) rel) {v' : TypedVector}
    (hv' : (after (onNative h deserializing step) r).heap.vector? h = some v') :
    ∃ v, r.heap.vector? h = some v ∧ rel v v' := by
  have hrun := congrArg Prod.snd (run_onNative h deserializing step r)
  cases hnative : r.native h with
  | error error =>
    rw [hnative] at hrun
    rw [show (after (onNative h deserializing step) r).heap = r.heap from
      congrArg Realm.heap hrun] at hv'
    exact ⟨v', hv', hrefl v'⟩
  | ok native =>
    rw [hnative] at hrun
    obtain ⟨object, hget, hobject⟩ := get?_of_native hnative
    have hget' := Heap.get?_modify r.heap h h (fun object => object.setNative
      (after (step ⟨deserializing, r.heap, r.registry.tree⟩) ⟨native, r.world⟩).native)
    rw [if_pos rfl, hget, Option.map_some] at hget'
    rw [show (after (onNative h deserializing step) r).heap = _ from congrArg Realm.heap hrun] at hv'
    obtain ⟨v, hv, hrel⟩ := hstep ⟨native, r.world⟩ v' (vector?_setNative
      ((Heap.vector?_of_get? hget').symm.trans hv') (by rw [hobject, Option.isSome_some]))
    refine ⟨v, ?_, hrel⟩
    rw [Heap.vector?_of_get? hget, ScriptObject.vector?, hobject, Option.bind_some, hv]

/-- Native code conserves a realm if it does not spoil the vector that it gets at. -/
theorem conserves_onNative (h : Handle) (deserializing : Bool)
    {step : Surroundings P → NativeAction P α}
    (hstep : r.registry.LeavesVectors → Turns (step ⟨deserializing, r.heap, r.registry.tree⟩)
      fun v v' => r.heap.vector? h = some v → v.Fits r.surroundings → v'.Fits r.surroundings) :
    Conserves r (after (onNative h deserializing step) r) := by
  have hevolves := evolves_onNative h deserializing step r
  have hrun := congrArg Prod.snd (run_onNative h deserializing step r)
  cases hnative : r.native h with
  | error error =>
    rw [hnative] at hrun
    exact .of_heap_eq hevolves (congrArg Realm.heap hrun)
  | ok native =>
    rw [hnative] at hrun
    refine conserves_modifyObject hevolves (congrArg Realm.heap hrun)
      (fun object => object.nature_setNative _) fun hregistry hr v' hv' => ?_
    obtain ⟨v, hbefore, hkeeps⟩ :=
      exists_vector?_onNative (fun v _ hfits => hfits) (hstep hregistry) hv'
    exact hkeeps hbefore (hr h v hbefore)

/-- A vector goes back as a step has left it. -/
theorem conserves_onPart (h : Handle) {step : TypedVector → Surroundings P → α × TypedVector}
    (hstep : ∀ v, v.Fits r.surroundings → (step v r.surroundings).2.Fits r.surroundings) :
    Conserves r (after (onPart .vector h step) r) := by
  refine conserves_onNative h false fun _ receiver => ?_
  have hrefl : NativeAction.Turned (fun v v' => r.heap.vector? h = some v →
      v.Fits r.surroundings → v'.Fits r.surroundings) receiver receiver :=
    .refl (fun _ _ hv => hv) receiver
  refine after_get ?_
  have hfind : Facet.vector.find? receiver.native = receiver.native.vector? := rfl
  rw [hfind]
  cases hv : receiver.native.vector? with
  | none => exact hrefl
  | some v =>
    intro v' hv'
    have hmade : (receiver.native.setVector (step v r.surroundings).2).vector? = some v' := hv'
    rw [Native.vector?_setVector, hv, Option.map_some, Option.some.injEq] at hmade
    subst hmade
    exact ⟨v, hv, fun _ => hstep v⟩

/-! ## Writes -/

theorem allows_of_ne_string {h : Handle} {name : String} {value : Value}
    (hvalue : ∀ text, value ≠ .string text) : r.Allows h name value :=
  fun _ _ _ _ _ _ _ text _ heq => absurd heq (hvalue text)

/-- A text is seen as it is, and nothing else is seen as a text. -/
theorem eq_string_of_expand {value : Value} {text : String} (h : r.expand value = .string text) :
    value = .string text := by
  unfold Realm.expand Heap.expand at h
  cases value with
  | object k =>
    rw [Heap.expandOn] at h
    split at h
    · cases h
    · split at h
      · cases h
      · split at h <;> cases h
  | array origin items =>
    rw [Heap.expandOn] at h
    cases h
  | _ =>
    rw [Heap.expandOn] at h
    · exact h
    all_goals simp

theorem conserves_putProperty {h : Handle} {name : String} {value : Value}
    (hallows : r.Allows h name value) (deserializing : Bool) :
    Conserves r (after (putProperty h name value deserializing) r) := by
  unfold putProperty
  refine after_get ?_
  cases hget : r.heap.get? h with
  | none => exact Course.refl r
  | some object =>
    dsimp only
    cases hbinding : r.binding? object name with
    | some binding =>
      dsimp only
      split
      · exact Course.refl r
      · refine conserves_onNative h deserializing fun hregistry => ?_
        obtain ⟨c, -, hresolve⟩ := Option.bind_eq_some_iff.1 hbinding
        rcases hregistry.property hresolve with hspares | hmember
        · exact (hspares _ _).turns fun _ _ => id
        · refine (TypedVector.Members.turns_property hmember (r.expand value) _).imp ?_
          intro v v' hkeeps hv
          rw [Heap.vector?_of_get? hget] at hv
          refine hkeeps fun cls hname hvalue => ?_
          exact hallows object v binding hget hv hbinding hmember cls hname (eq_string_of_expand hvalue)
    | none =>
      dsimp only
      split
      · exact conserves_setLength h _ value r
      · exact conserves_setField h _ value r

theorem conserves_assignElement (h : Handle) (index : Nat) (value : Value) (r : Realm P) :
    Conserves r (after (assignElement h index value) r) := by
  unfold assignElement
  refine after_get ?_
  cases hget : r.heap.get? h with
  | none => exact Course.refl r
  | some object =>
    dsimp only
    cases helements : r.elements? object with
    | some elements =>
      refine conserves_onNative h false fun hregistry => ?_
      obtain ⟨c, -, hresolve⟩ := Option.bind_eq_some_iff.1 helements
      -- the elements are none of vectors, or those of vectors as they are built in
      rcases hregistry.elements hresolve with hspares | hmember
      · exact (hspares _ _ _).turns fun _ _ => id
      · rw [hmember]
        exact (TypedVector.Members.turns_elements index (r.expand value) _).imp
          fun _ _ hkeeps _ => hkeeps
    | none =>
      -- an array in the value is made first, and then its handle is written
      have hslot : (r.store value).1.isInline = false := (Heap.grows_store r.heap value).1
      refine after_modifyGet (R := Conserves) Course.trans (conserves_store value r) (after_get ?_)
      cases (r.store value).2.heap.get? h with
      | none => exact Course.refl _
      | some object' =>
        dsimp only
        cases object'.items?.map Array.size with
        | none =>
          exact conserves_modifyObject_of_vector?
            (evolves_modifyObject h (fun _ hobject => Heap.slotted_setField hobject _ hslot) _) rfl
            (fun object => object.nature_setField _ _) fun object => Heap.vector?_setField object _ _
        | some size =>
          dsimp only
          split
          · exact Course.refl _
          · refine conserves_modifyObject_of_vector? (evolves_modifyObject h
              (fun _ hobject => Heap.slotted_mapItems hobject ?_) _) rfl
              (fun object => object.nature_mapItems _) fun object => Heap.vector?_mapItems object _
            exact fun items hitems => isInline_withItem hitems index hslot

/-- An object is wrapped around native state that fits. -/
theorem conserves_wrapNative (name : String) {native : Native P.Layer}
    (hnative : r.Conforming → ∀ v, native.vector? = some v → v.Fits r.surroundings) :
    Conserves r (after (wrapNative name native) r) := by
  unfold wrapNative
  refine after_get ?_
  cases r.registry.lookup? name with
  | none => exact Course.refl r
  | some c =>
    dsimp only
    split
    · exact Course.refl r
    · exact conserves_allocate (Heap.slotted_ofForm (by simp)) fun _ => hnative

theorem conserves_publishSingleton (name : String) (r : Realm P) :
    Conserves r (after (publishSingleton name) r) := by
  unfold publishSingleton
  refine after_get ?_
  cases r.registry.lookup? name with
  | none => exact Course.refl r
  | some c =>
    dsimp only
    cases r.singletons.lookup c with
    | some h => exact Course.refl r
    | none =>
      refine after_bind (R := Conserves) Course.trans (conserves_instantiate c r) fun h => ?_
      refine after_bind (R := Conserves) Course.trans
        (.of_heap_eq ⟨rfl, rfl, Heap.Grows.refl⟩ rfl) fun _ => ?_
      refine after_bind (R := Conserves) Course.trans ?_ fun _ => after_pure Course.refl h
      exact conserves_putProperty (allows_of_ne_string fun _ => Value.noConfusion) false

/-! ## Collections -/

/-- What survives a collection keeps the objects in its vector alive. -/
theorem conserves_collect (hP : P.TracesBase) (r : Realm P) : Conserves r r.collect.2 := by
  refine ⟨evolves_collect r, fun _ hwf _ _ hr h v hv name hname k hk => ?_⟩
  obtain ⟨object, hget, hvector⟩ := Option.bind_eq_some_iff.1 hv
  have hreach : r.heap.Reaches r.collector.roots.handles h := by
    by_contra hgone
    rw [(get?_collect hwf h).2 hgone] at hget
    cases hget
  rw [(get?_collect hwf h).1 hreach] at hget
  have hinstance := hr h v (by rw [Heap.vector?_of_get? hget, hvector]) name hname k hk
  -- an instance is there, and the vector leads to it
  obtain ⟨native, hnative, hv⟩ := Option.bind_eq_some_iff.1 hvector
  cases hkget : r.heap.get? k with
  | none => simp [surroundings, Surroundings.isInstanceOf, hkget] at hinstance
  | some target =>
    have hmem : k ∈ object.handles := by
      obtain ⟨form, fields⟩ := object
      cases form with
      | instanceOf c native? =>
        obtain rfl : native? = some native := hnative
        exact List.mem_append_right _ (hP.mem_handlesOf hv hk)
      | _ => cases hnative
    have hsame := (get?_collect hwf k).1 (.step hreach hget hmem hkget)
    refine Heap.isInstanceOf_mono (fun nature hnature => ?_) hinstance
    rw [Heap.nature?, hsame]
    exact hnature

theorem conserves_finishFrame (hP : P.TracesBase) (r : Realm P) : Conserves r r.finishFrame.2 := by
  have hcleared : Conserves r { r with pending := [] } :=
    .of_heap_eq ⟨rfl, rfl, Heap.Grows.refl⟩ rfl
  show Conserves r (if r.collector.isDue then ({ r with pending := [] } : Realm P).collect.2
    else { r with pending := [] })
  split
  · exact Course.trans hcleared (conserves_collect hP _)
  · exact hcleared

end Realm

/-! ## Functions of Typed Vectors -/

namespace VectorMethod

open Realm (Conserves Acts acts_pure acts_throw conserves_onPart)

/-- What an operation makes of a vector that fits does so as well, if what it is given is admitted. -/
theorem fits_of_admitted {m : Surroundings P} {v v' : TypedVector} {given : List Value}
    {made : Option TypedVector} (hv : v.Fits m)
    (h : (if v.admits m given then made else none) = some v')
    (hmade : ∀ w, made = some w → v.Draws given w) : v'.Fits m := by
  by_cases hadmits : v.admits m given = true
  · rw [if_pos hadmits] at h
    exact (hmade v' h).fits hv hadmits
  · rw [if_neg hadmits] at h
    cases h

theorem conserves_runPush (this : Handle) (call : Invocation) (r : Realm P) :
    Conserves r (after (runPush this call) r) := by
  refine conserves_onPart this fun v hv => ?_
  split
  · next v' hpush => exact fits_of_admitted hv hpush fun w hw => TypedVector.draws_push? hw
  · exact hv

theorem conserves_runPop (this : Handle) (r : Realm P) :
    Conserves r (after (runPop this) r) := by
  refine conserves_onPart this fun v hv => ?_
  split
  · exact hv
  · split
    · next value v' hpop => exact (TypedVector.draws_pop? hpop).fits_of_nil hv
    · exact hv

theorem conserves_runSplice (this : Handle) (call : Invocation) (r : Realm P) :
    Conserves r (after (runSplice this call) r) := by
  unfold runSplice
  cases twoNumbers? call 1 with
  | none => exact Course.refl r
  | some range =>
    refine conserves_onPart this fun v hv => ?_
    split
    · next removed v' hsplice =>
      by_cases hadmits : v.admits r.surroundings (call.arguments.drop 2) = true
      · rw [if_pos hadmits] at hsplice
        exact (TypedVector.draws_splice? hsplice).fits hv hadmits
      · rw [if_neg hadmits] at hsplice
        cases hsplice
    · exact hv

theorem conserves_runSet (this : Handle) (call : Invocation) (r : Realm P) :
    Conserves r (after (runSet this call) r) := by
  unfold runSet
  split
  · refine conserves_onPart this fun v hv => ?_
    split
    · next v' hassign => exact fits_of_admitted hv hassign fun w hw => TypedVector.draws_assign? hw
    · exact hv
  · split
    · exact Course.refl r
    · refine after_get (after_lift_bind Course.refl fun source => ?_)
      refine conserves_onPart this fun v hv => ?_
      split
      · next v' hcopy => exact fits_of_admitted hv hcopy fun w hw => TypedVector.draws_copyFrom? hw
      · exact hv
  · exact Course.refl r

/-- A part of a vector that fits does so as well. -/
theorem conserves_runSlice (this : Handle) (call : Invocation) (r : Realm P) :
    Conserves r (after (runSlice this call) r) := by
  unfold runSlice
  cases twoNumbers? call 0 with
  | none => exact Course.refl r
  | some range =>
    refine after_get (after_lift_bind_of_ok Course.refl fun v hv => ?_)
    refine after_bind (R := Conserves) Course.trans ?_ fun _ => Course.refl _
    refine Realm.conserves_wrapNative _ fun hr w hw => ?_
    obtain rfl := Option.some.inj hw
    exact (TypedVector.draws_slice v _ _).fits_of_nil (hr this v (Realm.vector?_of_nativeAs hv))

theorem conserves_run (method : VectorMethod) (this : Option Handle) (call : Invocation) :
    Acts (Conserves (P := P)) id (method.run this call) := by
  unfold run
  cases this with
  | none => exact acts_throw _
  | some this =>
    cases method with
    | push => exact Acts.bind (conserves_runPush this call) fun _ => acts_pure _
    | pop => exact Acts.bind (conserves_runPop this) fun _ => acts_pure _
    | slice => exact Acts.bind (conserves_runSlice this call) fun _ => acts_pure _
    | splice => exact Acts.bind (conserves_runSplice this call) fun _ => acts_pure _
    | set => exact Acts.bind (conserves_runSet this call) fun _ => acts_pure _
    | indexOf => exact (acts_runIndexOf this call).bind fun _ => acts_pure _
    | toArray => exact (acts_runToArray this).bind fun _ => acts_pure _

end VectorMethod

namespace Realm

open NativeAction (Spares)

/-! ## Operations of Scripts -/

/-- An operation of a realm as scripts have it at hand, or one of the embedding program that leaves
vectors alone. A class is named for the elements of a vector only if the objects in the vector are
instances of it. -/
inductive ScriptStep : Realm P → Realm P → Prop
  | newObject (r : Realm P) : ScriptStep r r.newObject.2
  | newArray (items : List Value) (r : Realm P) : ScriptStep r (r.newArray items).2
  | newFunction (name : String) (body : FunctionBody P) (r : Realm P) :
      ScriptStep r (r.newFunction name body).2
  | store (value : Value) (r : Realm P) : ScriptStep r (r.store value).2
  | instantiate (c : ClassNumber) (r : Realm P) : ScriptStep r (r.instantiate c).2
  | publishSingleton (name : String) (r : Realm P) :
      ScriptStep r (after (publishSingleton name) r)
  | putProperty (h : Handle) (name : String) (value : Value) (deserializing : Bool) (r : Realm P) :
      r.Allows h name value → ScriptStep r (after (putProperty h name value deserializing) r)
  | assignElement (h : Handle) (index : Nat) (value : Value) (r : Realm P) :
      ScriptStep r (after (assignElement h index value) r)
  | callVector (method : VectorMethod) (this : Option Handle) (call : Invocation) (r : Realm P) :
      ScriptStep r (after (method.run this call) r)
  | wrapNative (name : String) (native : Native P.Layer) (r : Realm P) :
      native.vector? = none → ScriptStep r (after (wrapNative name native) r)
  | onNative {α : Type} (h : Handle) (step : Surroundings P → NativeAction P α) (r : Realm P) :
      (∀ m, Spares (step m)) → ScriptStep r (after (onNative h false step) r)
  | protect (h : Handle) (r : Realm P) : ScriptStep r (r.protect h)
  | unprotect (h : Handle) (r : Realm P) : ScriptStep r (r.unprotect h).2
  | collect (r : Realm P) : ScriptStep r r.collect.2
  | report (error : ScriptError) (r : Realm P) : ScriptStep r (r.report error)
  | finishFrame (r : Realm P) : ScriptStep r r.finishFrame.2
  | world (w : P.World) (r : Realm P) : ScriptStep r { r with world := w }

/-- An operation of scripts keeps a realm conforming. -/
theorem ScriptStep.conserves (hP : P.TracesBase) {r r' : Realm P} (h : ScriptStep r r') :
    Conserves r r' := by
  cases h with
  | newObject => exact conserves_newObject r
  | newArray items => exact conserves_newArray items r
  | newFunction name body => exact conserves_newFunction name body r
  | store value => exact conserves_store value r
  | instantiate c => exact conserves_instantiate c r
  | publishSingleton name => exact conserves_publishSingleton name r
  | putProperty h name value deserializing _ hallows => exact conserves_putProperty hallows deserializing
  | assignElement h index value => exact conserves_assignElement h index value r
  | callVector method this call => exact method.conserves_run this call r
  | wrapNative name native _ hnone =>
    refine conserves_wrapNative name fun _ v hv => ?_
    rw [hnone] at hv
    cases hv
  | onNative h step _ hspares =>
    exact conserves_onNative h false fun _ => (hspares _).turns fun _ _ => id
  | protect h => exact .of_heap_eq ⟨rfl, rfl, Heap.Grows.refl⟩ rfl
  | unprotect h => exact .of_heap_eq ⟨rfl, rfl, Heap.Grows.refl⟩ rfl
  | collect => exact conserves_collect hP r
  | report error => exact .of_heap_eq ⟨rfl, rfl, Heap.Grows.refl⟩ rfl
  | finishFrame => exact conserves_finishFrame hP r
  | world w => exact .of_heap_eq ⟨rfl, rfl, Heap.Grows.refl⟩ rfl

/-- In a new realm there are no vectors. -/
theorem conforming_ofRegistry (registry : Registry P) (options : Options) (world : P.World) :
    (ofRegistry registry options world).Conforming := by
  have hwf : (Heap.empty : Heap P).WellFormed := Heap.wellFormed_empty
  have hempty : (Heap.empty : Heap P).Conforms registry.tree := by
    intro h v hv
    simp [Heap.vector?, Heap.get?, Heap.slot?, Heap.empty] at hv
  have hcapacity : ((Heap.empty : Heap P).allocate (.ofForm .plain)).2.capacity = 1 := rfl
  refine hempty.allocate hwf (by rw [hcapacity]; decide) fun v hv => ?_
  cases hv

end Realm

end ScriptBridge
