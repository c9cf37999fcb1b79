import ScriptBridge.Proofs.Heap.SlotForm
import Mathlib.Logic.Relation

/-!
# Changes of a Heap

Apart from a collection, a heap changes in two ways only: an object is added, or an object is edited
and stays what it is. `Change` says so, with a bound on the objects that may be edited and on those
that may be added; what a run of changes can do follows from what one change can do. A `Revision` may
ask more of an edit; the edits of a realm also leave no instance without its native state.

Main statements: `Changes.nature?` (nothing is lost, and everything stays what it is),
`Changes.get?_of_issued` (what may not be edited stays as it is, and no handle that was given out
comes to life again), `Changes.made` (what is new is of the kind that may be added) and
`Revisions.origin` (the same of revisions, for what was there before as well).
-/

namespace ScriptBridge

variable {P : Platform}

/-- What an object is, whatever it holds: plain, an array, an instance of a class, or a function. -/
def ScriptObject.nature (o : ScriptObject P) : ObjectForm P :=
  match o.form with
  | .array _ => .array #[]
  | .instanceOf cls _ => .instanceOf cls none
  | form => form

@[simp] theorem ScriptObject.nature_setField (o : ScriptObject P) (name : String) (value : Value) :
    (o.setField name value).nature = o.nature := rfl

@[simp] theorem ScriptObject.nature_mapItems (o : ScriptObject P) (f : Array Value → Array Value) :
    (o.mapItems f).nature = o.nature := by
  obtain ⟨form, fields⟩ := o
  cases form <;> rfl

@[simp] theorem ScriptObject.nature_setNative (o : ScriptObject P) (native : Native P.Layer) :
    (o.setNative native).nature = o.nature := by
  obtain ⟨form, fields⟩ := o
  cases form <;> rfl

theorem ScriptObject.class?_eq_of_nature_eq {o o' : ScriptObject P} (h : o'.nature = o.nature) :
    o'.class? = o.class? := by
  obtain ⟨form, fields⟩ := o
  obtain ⟨form', fields'⟩ := o'
  cases form <;> cases form' <;> simp_all [ScriptObject.nature, ScriptObject.class?]

/-- What an object goes on to be when it is edited: it stays what it is, and keeps its native state if it
has any. -/
structure ScriptObject.Continues (o o' : ScriptObject P) : Prop where
  nature : o'.nature = o.nature
  native : o.native?.isSome = true → o'.native?.isSome = true

theorem ScriptObject.Continues.refl (o : ScriptObject P) : o.Continues o := ⟨rfl, id⟩

theorem ScriptObject.Continues.trans {o o' o'' : ScriptObject P} (h : o.Continues o')
    (h' : o'.Continues o'') : o.Continues o'' :=
  ⟨h'.nature.trans h.nature, h'.native ∘ h.native⟩

theorem ScriptObject.continues_setField (o : ScriptObject P) (name : String) (value : Value) :
    o.Continues (o.setField name value) := ⟨rfl, id⟩

theorem ScriptObject.continues_mapItems (o : ScriptObject P) (f : Array Value → Array Value) :
    o.Continues (o.mapItems f) := by
  refine ⟨o.nature_mapItems f, ?_⟩
  obtain ⟨form, fields⟩ := o
  cases form <;> exact id

theorem ScriptObject.continues_setNative (o : ScriptObject P) (native : Native P.Layer) :
    o.Continues (o.setNative native) := by
  refine ⟨o.nature_setNative native, ?_⟩
  obtain ⟨form, fields⟩ := o
  cases form <;> intro h <;> first | rfl | exact h

theorem ScriptObject.items?_of_native? {o : ScriptObject P} (h : o.native?.isSome = true) :
    o.items? = none := by
  obtain ⟨form, fields⟩ := o
  cases form <;> first | rfl | cases h

theorem ScriptObject.function?_eq_of_nature_eq {o o' : ScriptObject P} (h : o'.nature = o.nature) :
    o'.function? = o.function? := by
  obtain ⟨form, fields⟩ := o
  obtain ⟨form', fields'⟩ := o'
  cases form <;> cases form' <;> simp_all [ScriptObject.nature, ScriptObject.function?]

namespace Heap

/-- What the object behind a handle is. -/
def nature? (heap : Heap P) (h : Handle) : Option (ObjectForm P) :=
  (heap.get? h).map ScriptObject.nature

/-- A handle leads to an object that is no function. -/
def HasObject (heap : Heap P) (h : Handle) : Prop :=
  ∃ object, heap.get? h = some object ∧ object.function? = none

theorem hasObject_congr {heap heap' : Heap P} {h : Handle}
    (hnature : heap'.nature? h = heap.nature? h) :
    heap'.HasObject h ↔ heap.HasObject h := by
  unfold nature? at hnature
  unfold HasObject
  cases hget : heap.get? h <;> cases hget' : heap'.get? h <;> simp [hget, hget'] at hnature ⊢
  rw [ScriptObject.function?_eq_of_nature_eq hnature]

/-- A handle that may have been given out: its slot is there, and it is not the handle that an empty
slot is going to give out. -/
def Issued (heap : Heap P) (h : Handle) : Prop :=
  ∃ slot, heap.slots[h.index.toNat]? = some slot ∧
    (slot.object = none → slot.generation ≠ h.generation)

theorem issued_of_get? {heap : Heap P} {h : Handle} {object : ScriptObject P}
    (hget : heap.get? h = some object) : heap.Issued h :=
  ⟨_, get?_eq_some_iff.1 hget, fun hnone => by simp at hnone⟩

/-- The handle of a new object has not been given out before. -/
theorem WellFormed.not_issued_allocate {heap : Heap P} (hwf : heap.WellFormed)
    (hroom : heap.HasRoom 1) (object : ScriptObject P) : ¬ heap.Issued (heap.allocate object).1 := by
  rintro ⟨slot, hslot, hstale⟩
  -- its slot was empty and of its generation, or not there at all
  rcases hwf.slot_before_allocate hroom object with hempty | ⟨hlast, -⟩
  · rw [hempty] at hslot
    obtain rfl := Option.some.inj hslot
    exact hstale rfl rfl
  · rw [hlast, Array.getElem?_eq_none (Nat.le_refl _)] at hslot
    cases hslot

/-! ## One Change -/

/-- A change of a heap that frees nothing: an object that may be made is added, or an object that may
be edited is edited. -/
inductive Change (edits : Handle → Prop) (makes : ScriptObject P → Prop) : Heap P → Heap P → Prop
  | allocate {heap : Heap P} {object : ScriptObject P} :
      makes object → Change edits makes heap (heap.allocate object).2
  | modify {heap : Heap P} {h : Handle} {f : ScriptObject P → ScriptObject P} :
      edits h → (∀ object, (f object).nature = object.nature) →
      Change edits makes heap (heap.modify h f)

/-- A run of changes. -/
abbrev Changes (edits : Handle → Prop) (makes : ScriptObject P → Prop) : Heap P → Heap P → Prop :=
  Relation.ReflTransGen (Change edits makes)

/-- A change with a bound on what an edit may make of an object. -/
inductive Revision (keeps : ScriptObject P → ScriptObject P → Prop) (edits : Handle → Prop)
    (makes : ScriptObject P → Prop) : Heap P → Heap P → Prop
  | allocate {heap : Heap P} {object : ScriptObject P} :
      makes object → Revision keeps edits makes heap (heap.allocate object).2
  | modify {heap : Heap P} {h : Handle} {f : ScriptObject P → ScriptObject P} :
      edits h → (∀ object, keeps object (f object)) →
      Revision keeps edits makes heap (heap.modify h f)

/-- A run of changes that leave no instance without its native state. -/
abbrev Revisions (edits : Handle → Prop) (makes : ScriptObject P → Prop) : Heap P → Heap P → Prop :=
  Relation.ReflTransGen (Revision ScriptObject.Continues edits makes)

variable {keeps : ScriptObject P → ScriptObject P → Prop} {edits edits' : Handle → Prop}
  {makes makes' : ScriptObject P → Prop} {a b heap heap' : Heap P}

theorem change_iff : Change edits makes a b ↔
    Revision (fun o o' => o'.nature = o.nature) edits makes a b := by
  constructor
  · rintro (hobject | ⟨hh, hf⟩)
    · exact .allocate hobject
    · exact .modify hh hf
  · rintro (hobject | ⟨hh, hf⟩)
    · exact .allocate hobject
    · exact .modify hh hf

theorem Revision.imp (h : Revision keeps edits makes a b) (hedits : ∀ k, edits k → edits' k)
    (hmakes : ∀ object, makes object → makes' object) : Revision keeps edits' makes' a b := by
  cases h with
  | allocate hobject => exact .allocate (hmakes _ hobject)
  | modify hh hf => exact .modify (hedits _ hh) hf

theorem Revisions.imp (h : Revisions edits makes a b) (hedits : ∀ k, edits k → edits' k)
    (hmakes : ∀ object, makes object → makes' object) : Revisions edits' makes' a b :=
  Relation.ReflTransGen.mono (fun _ _ hrevision => Revision.imp hrevision hedits hmakes) a b h

theorem Revision.change (h : Revision ScriptObject.Continues edits makes a b) :
    Change edits makes a b := by
  cases h with
  | allocate hobject => exact .allocate hobject
  | modify hh hf => exact .modify hh fun object => (hf object).nature

/-- Every run of revisions is one of changes. -/
theorem Revisions.changes (h : Revisions edits makes a b) : Changes edits makes a b :=
  Relation.ReflTransGen.mono (fun _ _ hrevision => Revision.change hrevision) a b h

theorem Change.imp (h : Change edits makes a b) (hedits : ∀ k, edits k → edits' k)
    (hmakes : ∀ object, makes object → makes' object) : Change edits' makes' a b :=
  change_iff.2 ((change_iff.1 h).imp hedits hmakes)

theorem Changes.imp (h : Changes edits makes a b) (hedits : ∀ k, edits k → edits' k)
    (hmakes : ∀ object, makes object → makes' object) : Changes edits' makes' a b :=
  Relation.ReflTransGen.mono (fun _ _ hchange => Change.imp hchange hedits hmakes) a b h

theorem capacity_modify (heap : Heap P) (h : Handle) (f : ScriptObject P → ScriptObject P) :
    (heap.modify h f).capacity = heap.capacity := by
  obtain ⟨object, -, hmodify⟩ | ⟨-, hmodify⟩ := heap.modify_cases h f <;>
    simp [capacity, hmodify]

theorem Change.capacity_le (h : Change edits makes a b) : a.capacity ≤ b.capacity := by
  cases h with
  | allocate => exact a.capacity_allocate _
  | modify => exact Nat.le_of_eq (a.capacity_modify _ _).symm

theorem Change.wellFormed (h : Change edits makes a b) (hwf : a.WellFormed)
    (hbound : b.capacity ≤ UInt32.size) : b.WellFormed := by
  cases h with
  | allocate => exact hwf.allocate (hasRoom_of_capacity_allocate hwf hbound) _
  | modify => exact hwf.modify _ _

/-- What may be behind a handle after a change: what was there, possibly edited, or an object that
was added. -/
theorem Revision.get?_cases (h : Revision keeps edits makes a b) (hwf : a.WellFormed)
    (hbound : b.capacity ≤ UInt32.size) (k : Handle) :
    (b.get? k = a.get? k) ∨
    (edits k ∧ ∃ object object', a.get? k = some object ∧ b.get? k = some object' ∧
      keeps object object') ∨
    (¬ a.Issued k ∧ ∃ object, makes object ∧ b.get? k = some object) := by
  cases h with
  | @allocate object hobject =>
    have hroom := hasRoom_of_capacity_allocate hwf hbound
    rw [hwf.get?_allocate hroom]
    split
    · next hk =>
      subst hk
      exact Or.inr (Or.inr ⟨hwf.not_issued_allocate hroom object, object, hobject, rfl⟩)
    · exact Or.inl rfl
  | @modify h f hedit hf =>
    rw [get?_modify]
    split
    · next hk =>
      subst hk
      cases hget : a.get? k with
      | none => exact Or.inl rfl
      | some object => exact Or.inr (Or.inl ⟨hedit, object, f object, rfl, rfl, hf object⟩)
    · exact Or.inl rfl

theorem Change.get?_cases (h : Change edits makes a b) (hwf : a.WellFormed)
    (hbound : b.capacity ≤ UInt32.size) (k : Handle) :
    (b.get? k = a.get? k) ∨
    (edits k ∧ ∃ object object', a.get? k = some object ∧ b.get? k = some object' ∧
      object'.nature = object.nature) ∨
    (¬ a.Issued k ∧ ∃ object, makes object ∧ b.get? k = some object) :=
  (change_iff.1 h).get?_cases hwf hbound k

theorem Change.issued (h : Change edits makes a b) (hwf : a.WellFormed)
    (hbound : b.capacity ≤ UInt32.size) {k : Handle} (hk : a.Issued k) : b.Issued k := by
  obtain ⟨slot, hslot, hstale⟩ := hk
  cases h with
  | @allocate object hobject =>
    have hroom := hasRoom_of_capacity_allocate hwf hbound
    unfold Issued
    rw [hwf.slots_allocate hroom]
    split
    · exact ⟨_, rfl, fun hnone => by simp at hnone⟩
    · exact ⟨slot, hslot, hstale⟩
  | @modify h f hedit hf =>
    unfold Issued
    rw [slots_modify, hslot, Option.map_some]
    by_cases hhere : k.index.toNat = h.index.toNat ∧ slot.generation = h.generation
    · rw [if_pos hhere]
      exact ⟨_, rfl, fun hnone => hstale (by simpa using hnone)⟩
    · rw [if_neg hhere]
      exact ⟨slot, rfl, hstale⟩

/-! ## Runs of Changes -/

theorem Changes.capacity_le (h : Changes edits makes heap heap') :
    heap.capacity ≤ heap'.capacity := by
  induction h with
  | refl => exact Nat.le_refl _
  | tail _ hchange ih => exact Nat.le_trans ih hchange.capacity_le

/-- What each change keeps, as long as 32 bits tell the slots apart, is kept by a run of them. -/
theorem Changes.induct {I : Heap P → Prop} (h : Changes edits makes heap heap')
    (hwf : heap.WellFormed) (hbound : heap'.capacity ≤ UInt32.size) (hstart : I heap)
    (hstep : ∀ a b, Change edits makes a b → a.WellFormed → b.capacity ≤ UInt32.size → I a → I b) :
    heap'.WellFormed ∧ I heap' := by
  induction h with
  | refl => exact ⟨hwf, hstart⟩
  | tail _ hchange ih =>
    obtain ⟨hwf', hI⟩ := ih (Nat.le_trans hchange.capacity_le hbound)
    exact ⟨hchange.wellFormed hwf' hbound, hstep _ _ hchange hwf' hbound hI⟩

theorem Changes.wellFormed (h : Changes edits makes heap heap') (hwf : heap.WellFormed)
    (hbound : heap'.capacity ≤ UInt32.size) : heap'.WellFormed :=
  (h.induct (I := fun _ => True) hwf hbound trivial fun _ _ _ _ _ _ => trivial).1

/-- A handle that has been given out remains so. -/
theorem Changes.issued (h : Changes edits makes heap heap') (hwf : heap.WellFormed)
    (hbound : heap'.capacity ≤ UInt32.size) {k : Handle} (hk : heap.Issued k) : heap'.Issued k :=
  (h.induct (I := fun other => other.Issued k) hwf hbound hk
    fun _ _ hchange hwf hbound hk => hchange.issued hwf hbound hk).2

/-- Nothing is lost, and everything stays what it is. -/
theorem Changes.nature? (h : Changes edits makes heap heap') (hwf : heap.WellFormed)
    (hbound : heap'.capacity ≤ UInt32.size) {k : Handle} {nature : ObjectForm P}
    (hk : heap.nature? k = some nature) : heap'.nature? k = some nature := by
  refine (h.induct (I := fun heap => heap.nature? k = some nature) hwf hbound hk ?_).2
  intro a b hchange hwf hbound hk
  obtain ⟨object, hget, hnature⟩ := Option.map_eq_some_iff.1 hk
  rcases hchange.get?_cases hwf hbound k with hsame | ⟨-, other, edited, hother, hedited, hstays⟩ |
    ⟨hnew, -⟩
  · rw [Heap.nature?, hsame]
    exact hk
  · obtain rfl := Option.some.inj (hget.symm.trans hother)
    rw [Heap.nature?, hedited, Option.map_some, hstays, hnature]
  · exact absurd (issued_of_get? hget) hnew

/-- What may not be edited stays as it is, and a handle that has been given out does not come to life
again. -/
theorem Changes.get?_of_issued (h : Changes edits makes heap heap') (hwf : heap.WellFormed)
    (hbound : heap'.capacity ≤ UInt32.size) {k : Handle} (hk : heap.Issued k) (hedits : ¬ edits k) :
    heap'.Issued k ∧ heap'.get? k = heap.get? k := by
  refine (h.induct (I := fun other => other.Issued k ∧ other.get? k = heap.get? k) hwf hbound
    ⟨hk, rfl⟩ ?_).2
  rintro a b hchange hwf hbound ⟨hissued, hget⟩
  refine ⟨hchange.issued hwf hbound hissued, ?_⟩
  rcases hchange.get?_cases hwf hbound k with hsame | ⟨hedit, -⟩ | ⟨hnew, -⟩
  · rw [hsame, hget]
  · exact absurd hedit hedits
  · exact absurd hissued hnew

/-- What is new is of the kind that may be made. -/
theorem Changes.made (h : Changes edits makes heap heap') (hwf : heap.WellFormed)
    (hbound : heap'.capacity ≤ UInt32.size)
    (hmakes : ∀ object object', makes object → object'.nature = object.nature → makes object')
    {k : Handle} (hdead : heap.get? k = none) {object : ScriptObject P}
    (hk : heap'.get? k = some object) : makes object := by
  have hall := (h.induct (I := fun other => ∀ object, other.get? k = some object → makes object) hwf
    hbound (fun object hobject => by rw [hdead] at hobject; cases hobject) ?_).2
  · exact hall object hk
  intro a b hchange hwf hbound hmade object hobject
  rcases hchange.get?_cases hwf hbound k with hsame | ⟨-, other, edited, hother, hedited, hstays⟩ |
    ⟨-, new, hnew, hget⟩
  · exact hmade object (hsame ▸ hobject)
  · obtain rfl := Option.some.inj (hobject.symm.trans hedited)
    exact hmakes other object (hmade other hother) hstays
  · obtain rfl := Option.some.inj (hobject.symm.trans hget)
    exact hnew

/-- Where nothing is made, everything is what it was. -/
theorem Changes.nature?_eq (h : Changes edits (fun _ => False) heap heap') (hwf : heap.WellFormed)
    (hbound : heap'.capacity ≤ UInt32.size) (k : Handle) : heap'.nature? k = heap.nature? k := by
  cases hk : heap.nature? k with
  | some nature => exact h.nature? hwf hbound hk
  | none =>
    rw [Heap.nature?, Option.map_eq_none_iff] at hk ⊢
    rw [Option.eq_none_iff_forall_ne_some]
    intro object hobject
    exact h.made hwf hbound (fun _ _ hfalse _ => hfalse) hk hobject

/-! ## Runs of Revisions -/

/-- What each revision keeps, as long as 32 bits tell the slots apart, is kept by a run of them. -/
theorem Revisions.induct {I : Heap P → Prop} (h : Revisions edits makes heap heap')
    (hwf : heap.WellFormed) (hbound : heap'.capacity ≤ UInt32.size) (hstart : I heap)
    (hstep : ∀ a b, Revision ScriptObject.Continues edits makes a b → a.WellFormed →
      b.capacity ≤ UInt32.size → I a → I b) : I heap' := by
  induction h with
  | refl => exact hstart
  | tail hrun hrevision ih =>
    have hbefore := Nat.le_trans hrevision.change.capacity_le hbound
    exact hstep _ _ hrevision (Revisions.changes hrun |>.wellFormed hwf hbefore) hbound (ih hbefore)

/-- What was there goes on. -/
theorem Revisions.continues (h : Revisions edits makes heap heap') (hwf : heap.WellFormed)
    (hbound : heap'.capacity ≤ UInt32.size) {k : Handle} {object : ScriptObject P}
    (hk : heap.get? k = some object) :
    ∃ object', heap'.get? k = some object' ∧ object.Continues object' := by
  refine h.induct (I := fun other => ∃ object', other.get? k = some object' ∧
    object.Continues object') hwf hbound ⟨object, hk, .refl object⟩ ?_
  rintro a b hrevision hwf hbound ⟨before, hget, hcontinues⟩
  rcases hrevision.get?_cases hwf hbound k with hsame | ⟨-, other, edited, hother, hedited, hon⟩ |
    ⟨hnew, -⟩
  · exact ⟨before, hsame.trans hget, hcontinues⟩
  · obtain rfl := Option.some.inj (hget.symm.trans hother)
    exact ⟨edited, hedited, hcontinues.trans hon⟩
  · exact absurd (issued_of_get? hget) hnew

/-- What is there has been there before and has gone on, or goes back to an object that may be
made. -/
theorem Revisions.origin (h : Revisions edits makes heap heap') (hwf : heap.WellFormed)
    (hbound : heap'.capacity ≤ UInt32.size) {k : Handle} {object' : ScriptObject P}
    (hk : heap'.get? k = some object') :
    (∃ object, heap.get? k = some object ∧ object.Continues object') ∨
      ∃ object, makes object ∧ object.Continues object' := by
  refine h.induct (I := fun other => ∀ object', other.get? k = some object' →
    (∃ object, heap.get? k = some object ∧ object.Continues object') ∨
      ∃ object, makes object ∧ object.Continues object') hwf hbound
    (fun object hobject => Or.inl ⟨object, hobject, .refl object⟩) ?_ object' hk
  intro a b hrevision hwf hbound hbefore object' hk
  rcases hrevision.get?_cases hwf hbound k with hsame | ⟨-, other, edited, hother, hedited, hon⟩ |
    ⟨-, new, hnew, hget⟩
  · exact hbefore object' (hsame ▸ hk)
  · obtain rfl := Option.some.inj (hk.symm.trans hedited)
    refine (hbefore other hother).imp ?_ ?_
    · rintro ⟨object, hobject, hcontinues⟩
      exact ⟨object, hobject, hcontinues.trans hon⟩
    · rintro ⟨object, hobject, hcontinues⟩
      exact ⟨object, hobject, hcontinues.trans hon⟩
  · obtain rfl := Option.some.inj (hk.symm.trans hget)
    exact Or.inr ⟨object', hnew, .refl object'⟩

/-! ## Storing -/

/-- Whatever items a value brings along can be stored: everything may be edited, and arrays may be
made. -/
structure Stores (edits : Handle → Prop) (makes : ScriptObject P → Prop) : Prop where
  edits : ∀ h, edits h
  makes : ∀ items, makes (.ofForm (.array items))

theorem stores_freely : Stores (fun _ => True) (fun _ : ScriptObject P => True) :=
  ⟨fun _ => trivial, fun _ => trivial⟩

/-- A value that can be stored with such changes: one without items of its own, unless all items can
be stored. -/
def Storable (edits : Handle → Prop) (makes : ScriptObject P → Prop) (value : Value) : Prop :=
  value.isInline = false ∨ Stores edits makes

theorem revisions_storeArray (heap : Heap P) (origin : Option Handle) (items : List Value)
    (hall : Stores edits makes) : Revisions edits makes heap (heap.storeArray origin items).2 := by
  unfold storeArray
  split
  · exact .single (.modify (hall.edits _) fun object => object.continues_mapItems _)
  · exact .single (.allocate (hall.makes _))

mutual

theorem revisions_storeInline (heap : Heap P) (value : Value) (hall : Stores edits makes) :
    Revisions edits makes heap (heap.store value).2 := by
  cases value with
  | array origin items =>
    exact (revisions_storeAll heap items hall).trans (revisions_storeArray _ origin _ hall)
  | _ => exact .refl

theorem revisions_storeAll (heap : Heap P) (values : List Value) (hall : Stores edits makes) :
    Revisions edits makes heap (heap.storeAll values).2 := by
  cases values with
  | nil => exact .refl
  | cons value rest =>
    exact (revisions_storeInline heap value hall).trans
      (revisions_storeAll (heap.store value).2 rest hall)

end

theorem store_of_isInline (heap : Heap P) {value : Value} (hvalue : value.isInline = false) :
    heap.store value = (value, heap) := by
  cases value <;> first | rfl | cases hvalue

theorem revisions_store (heap : Heap P) {value : Value} (hvalue : Storable edits makes value) :
    Revisions edits makes heap (heap.store value).2 := by
  rcases hvalue with hvalue | hall
  · rw [heap.store_of_isInline hvalue]
  · exact revisions_storeInline heap value hall

/-- Whatever is stored, the heap changes by new arrays and by edits. -/
theorem changes_store (heap : Heap P) (value : Value) :
    Changes (fun _ => True) (fun _ => True) heap (heap.store value).2 :=
  (heap.revisions_storeInline value stores_freely).changes

theorem changes_storeAll (heap : Heap P) (values : List Value) :
    Changes (fun _ => True) (fun _ => True) heap (heap.storeAll values).2 :=
  (heap.revisions_storeAll values stores_freely).changes

theorem changes_storeArray (heap : Heap P) (origin : Option Handle) (items : List Value) :
    Changes (fun _ => True) (fun _ => True) heap (heap.storeArray origin items).2 :=
  (heap.revisions_storeArray origin items stores_freely).changes

end Heap

end ScriptBridge
