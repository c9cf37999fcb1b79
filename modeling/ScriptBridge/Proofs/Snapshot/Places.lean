import ScriptBridge.Proofs.Realm.Changes
import ScriptBridge.Snapshot.Loading

/-!
# Places

A graph that is being built is seen as a number of places, the fields of objects and the items of
arrays, each of which holds a value or nothing yet. A write changes one place; a new object has no
place that holds anything.
-/

namespace ScriptBridge

variable {P : Platform}

/-- The object or the array that a place is part of. -/
def Place.owner : Place → Handle
  | .property owner _ => owner
  | .item array _ => array

/-- What an object is, whatever its places hold. -/
def ScriptObject.kind (o : ScriptObject P) : ObjectForm P :=
  match o.form with
  | .array _ => .array #[]
  | form => form

/-- What an object holds in one of its places. -/
def ScriptObject.at? (o : ScriptObject P) : Place → Option Value
  | .property _ name => o.fields.find? name
  | .item _ index => o.items?.bind fun items => items[index]?

/-- An object after a write into one of its places. -/
def Place.write (p : Place) (v : Value) (o : ScriptObject P) : ScriptObject P :=
  match p with
  | .property _ name => o.setField name v
  | .item _ index => o.mapItems (Realm.withItem · index v)

@[simp] theorem ScriptObject.kind_write (p : Place) (v : Value) (o : ScriptObject P) :
    (p.write v o).kind = o.kind := by
  obtain ⟨form, fields⟩ := o
  cases p <;> cases form <;> rfl

theorem Realm.getElem?_withItem {items : Array Value} {i : Nat} (hi : i ≤ items.size) (v : Value)
    (j : Nat) : (Realm.withItem items i v)[j]? = if j = i then some v else items[j]? := by
  unfold Realm.withItem
  split
  · next hlt =>
    rw [Array.getElem?_setIfInBounds]
    by_cases hj : j = i
    · simp [hj, hlt]
    · simp [hj, Ne.symm hj]
  · next hge =>
    obtain rfl : i = items.size := by omega
    simp [Array.getElem?_push]

namespace Heap

/-- What a place holds. -/
def at? (heap : Heap P) (p : Place) : Option Value :=
  (heap.get? p.owner).bind fun object => object.at? p

/-- What the object behind a handle is. -/
def kind? (heap : Heap P) (h : Handle) : Option (ObjectForm P) :=
  (heap.get? h).map ScriptObject.kind

/-- A field of a plain object, or an item of an array that leaves no gap before it. -/
def Writable (heap : Heap P) : Place → Prop
  | .property owner _ => heap.kind? owner = some .plain
  | .item array index =>
    ∃ items fields, heap.get? array = some ⟨.array items, fields⟩ ∧ index ≤ items.size

/-- The heap after a write into a place. -/
def put (heap : Heap P) (p : Place) (v : Value) : Heap P := heap.modify p.owner (p.write v)

section

variable {heap : Heap P} {h : Handle} {p q : Place} {v : Value}

theorem contains_iff_kind? : heap.contains h = true ↔ ∃ kind, heap.kind? h = some kind := by
  rw [contains_iff, kind?]
  simp

theorem get?_of_kind?_plain (hkind : heap.kind? h = some .plain) :
    ∃ fields, heap.get? h = some ⟨.plain, fields⟩ := by
  obtain ⟨⟨form, fields⟩, hget, hform⟩ := Option.map_eq_some_iff.1 hkind
  cases form with
  | plain => exact ⟨fields, hget⟩
  | array items => simp [ScriptObject.kind] at hform
  | instanceOf cls native => simp [ScriptObject.kind] at hform
  | function f => simp [ScriptObject.kind] at hform

theorem get?_of_kind?_array (hkind : heap.kind? h = some (.array #[])) :
    ∃ items fields, heap.get? h = some ⟨.array items, fields⟩ := by
  obtain ⟨⟨form, fields⟩, hget, hform⟩ := Option.map_eq_some_iff.1 hkind
  cases form with
  | plain => simp [ScriptObject.kind] at hform
  | array items => exact ⟨items, fields, hget⟩
  | instanceOf cls native => simp [ScriptObject.kind] at hform
  | function f => simp [ScriptObject.kind] at hform

theorem get?_of_kind?_function {f : FunctionObject P} (hkind : heap.kind? h = some (.function f)) :
    ∃ fields, heap.get? h = some ⟨.function f, fields⟩ := by
  obtain ⟨⟨form, fields⟩, hget, hform⟩ := Option.map_eq_some_iff.1 hkind
  cases form with
  | plain => simp [ScriptObject.kind] at hform
  | array items => simp [ScriptObject.kind] at hform
  | instanceOf cls native => simp [ScriptObject.kind] at hform
  | function g =>
    obtain rfl : g = f := ObjectForm.function.inj hform
    exact ⟨fields, hget⟩

/-- A place that holds something is part of an object. -/
theorem contains_of_at? (hat : heap.at? p = some v) : heap.contains p.owner = true := by
  obtain ⟨object, hget, -⟩ := Option.bind_eq_some_iff.1 hat
  exact contains_iff.2 ⟨object, hget⟩

/-- The item after those that an array holds can be written. -/
theorem writable_item {i : Nat} (hkind : heap.kind? h = some (.array #[]))
    (hbefore : ∀ j, j < i → ∃ v, heap.at? (.item h j) = some v) : heap.Writable (.item h i) := by
  obtain ⟨items, fields, hget⟩ := get?_of_kind?_array hkind
  refine ⟨items, fields, hget, ?_⟩
  cases i with
  | zero => exact Nat.zero_le _
  | succ j =>
    obtain ⟨v, hat⟩ := hbefore j (Nat.lt_succ_self j)
    simp only [at?, Place.owner, hget, Option.bind_some, ScriptObject.at?, ScriptObject.items?] at hat
    exact (Array.getElem?_eq_some_iff.1 hat).1

/-! ## Writes -/

theorem get?_put (heap : Heap P) (p : Place) (v : Value) (h : Handle) :
    (heap.put p v).get? h = if h = p.owner then (heap.get? p.owner).map (p.write v)
      else heap.get? h :=
  get?_modify heap p.owner h (p.write v)

@[simp] theorem kind?_put (heap : Heap P) (p : Place) (v : Value) (h : Handle) :
    (heap.put p v).kind? h = heap.kind? h := by
  rw [kind?, get?_put, kind?]
  split
  · next heq =>
    subst heq
    cases heap.get? p.owner <;> simp
  · rfl

theorem at?_put_self (hp : heap.Writable p) : (heap.put p v).at? p = some v := by
  cases p with
  | property owner name =>
    obtain ⟨fields, hget⟩ := get?_of_kind?_plain hp
    simp [at?, get?_put, Place.owner, hget, Place.write, ScriptObject.setField, ScriptObject.at?,
      Table.find?_insert]
  | item array index =>
    obtain ⟨items, fields, hget, hindex⟩ := hp
    simp [at?, get?_put, Place.owner, hget, Place.write, ScriptObject.mapItems, ScriptObject.at?,
      ScriptObject.items?, Realm.getElem?_withItem hindex]

theorem at?_put_of_ne (hp : heap.Writable p) (hne : q ≠ p) :
    (heap.put p v).at? q = heap.at? q := by
  rw [at?, get?_put, at?]
  split
  · next ho =>
    cases p with
    | property owner name =>
      obtain ⟨fields, hget⟩ := get?_of_kind?_plain hp
      cases q with
      | property other key =>
        obtain rfl : other = owner := ho
        have hkey : key ≠ name := fun e => hne (by rw [e])
        simp [Place.owner, hget, Place.write, ScriptObject.setField, ScriptObject.at?,
          Table.find?_insert, hkey]
      | item other j =>
        obtain rfl : other = owner := ho
        simp [Place.owner, hget, Place.write, ScriptObject.setField, ScriptObject.at?,
          ScriptObject.items?]
    | item array index =>
      obtain ⟨items, fields, hget, hindex⟩ := hp
      cases q with
      | property other key =>
        obtain rfl : other = array := ho
        simp [Place.owner, hget, Place.write, ScriptObject.mapItems, ScriptObject.at?]
      | item other j =>
        obtain rfl : other = array := ho
        have hj : j ≠ index := fun e => hne (by rw [e])
        simp [Place.owner, hget, Place.write, ScriptObject.mapItems, ScriptObject.at?,
          ScriptObject.items?, Realm.getElem?_withItem hindex, hj]
  · rfl

/-- A write that repeats what a place holds changes no place. -/
theorem at?_put_same (hp : heap.Writable p) (hat : heap.at? p = some v) (q : Place) :
    (heap.put p v).at? q = heap.at? q := by
  by_cases hq : q = p
  · rw [hq, at?_put_self hp, hat]
  · exact at?_put_of_ne hp hq

theorem Writable.put (hq : heap.Writable q) (p : Place) (v : Value) : (heap.put p v).Writable q := by
  cases q with
  | property owner name => exact (kind?_put heap p v owner).trans hq
  | item array index =>
    obtain ⟨items, fields, hget, hindex⟩ := hq
    by_cases ho : array = p.owner
    · cases p with
      | property owner name =>
        obtain rfl : array = owner := ho
        refine ⟨items, fields.insert name v, ?_, hindex⟩
        simp [get?_put, Place.owner, hget, Place.write, ScriptObject.setField]
      | item other j =>
        obtain rfl : array = other := ho
        refine ⟨Realm.withItem items j v, fields, ?_, ?_⟩
        · simp [get?_put, Place.owner, hget, Place.write, ScriptObject.mapItems]
        · unfold Realm.withItem
          split
          · simpa using hindex
          · simp
            omega
    · exact ⟨items, fields, by rw [get?_put, if_neg ho, hget], hindex⟩

theorem WellFormed.put (hwf : heap.WellFormed) (p : Place) (v : Value) :
    (heap.put p v).WellFormed := hwf.modify _ _

theorem hasRoom_put {n : Nat} : (heap.put p v).HasRoom n ↔ heap.HasRoom n := hasRoom_modify

/-! ## New objects -/

theorem kind?_allocate (hwf : heap.WellFormed) (hroom : heap.HasRoom 1) (object : ScriptObject P)
    (k : Handle) : (heap.allocate object).2.kind? k =
      if k = (heap.allocate object).1 then some object.kind else heap.kind? k := by
  rw [kind?, hwf.get?_allocate hroom, kind?]
  split <;> rfl

/-- A new handle did not resolve before. -/
theorem contains_before_allocate (hwf : heap.WellFormed) (hroom : heap.HasRoom 1)
    (object : ScriptObject P) : heap.contains (heap.allocate object).1 = false :=
  contains_eq_false_iff.2 (hwf.get?_before_allocate hroom object rfl)

theorem get?_allocate_of_contains (hwf : heap.WellFormed) (hroom : heap.HasRoom 1)
    (object : ScriptObject P) {k : Handle} (hk : heap.contains k = true) :
    (heap.allocate object).2.get? k = heap.get? k := by
  rw [hwf.get?_allocate hroom, if_neg]
  rintro rfl
  rw [contains_before_allocate hwf hroom object] at hk
  exact Bool.noConfusion hk

/-- A new object that is empty has no place that holds anything. -/
theorem at?_allocate (hwf : heap.WellFormed) (hroom : heap.HasRoom 1) {object : ScriptObject P}
    (hempty : ∀ p, object.at? p = none) (p : Place) :
    (heap.allocate object).2.at? p = heap.at? p := by
  rw [at?, hwf.get?_allocate hroom, at?]
  split
  · next ho =>
    have hdead := contains_before_allocate hwf hroom object
    rw [← ho, contains_eq_false_iff] at hdead
    rw [hdead, Option.bind_some, hempty, Option.bind_none]
  · rfl

theorem Writable.allocate (hp : heap.Writable p) (hwf : heap.WellFormed) (hroom : heap.HasRoom 1)
    (object : ScriptObject P) : (heap.allocate object).2.Writable p := by
  cases p with
  | property owner name =>
    have hlive : heap.contains owner = true := contains_iff_kind?.2 ⟨_, hp⟩
    show (heap.allocate object).2.kind? owner = some .plain
    rw [kind?, get?_allocate_of_contains hwf hroom object hlive]
    exact hp
  | item array index =>
    obtain ⟨items, fields, hget, hindex⟩ := hp
    refine ⟨items, fields, ?_, hindex⟩
    rw [get?_allocate_of_contains hwf hroom object (contains_iff.2 ⟨_, hget⟩), hget]

end

end Heap

/-! ## Actions of the realm -/

namespace Realm

variable {r : Realm P} {h : Handle} {value : Value}

/-- The realm after a write into a place. -/
def put (r : Realm P) (p : Place) (v : Value) : Realm P := r.modifyObject p.owner (p.write v)

theorem run_get {α : Type} (next : Realm P → Action P α) (r : Realm P) :
    Id.run ((get >>= next).run.run r) = Id.run ((next r).run.run r) := rfl

theorem run_modifyGet {α β : Type} (f : Realm P → α × Realm P) (next : α → Action P β)
    (r : Realm P) : Id.run ((modifyGet f >>= next).run.run r) =
      Id.run ((next (f r).1).run.run (f r).2) := rfl

/-- A field is written when no class binds its name: the value is stored, and what stands in a slot
for it stands in the field. -/
theorem run_putField {object : ScriptObject P} (hget : r.heap.get? h = some object) {name : String}
    (hfree : r.binding? object name = none)
    (hlength : object.items?.isSome = true → name ≠ "length") (value : Value)
    (deserializing : Bool) :
    Id.run ((putProperty h name value deserializing).run.run r) =
      (.ok (), (r.store value).2.modifyObject h (·.setField name (r.store value).1)) := by
  unfold putProperty
  rw [run_get]
  simp only [hget, hfree]
  cases hitems : object.items? with
  | none => rfl
  | some items =>
    have hname : name ≠ "length" := hlength (by rw [hitems, Option.isSome_some])
    simp only [Option.map_some]
    split
    · exact absurd rfl hname
    · rfl

/-- A property of a plain object is always written. -/
theorem run_putProperty (hkind : r.heap.kind? h = some .plain) (name : String)
    (hvalue : value.isInline = false) (deserializing : Bool) :
    Id.run ((putProperty h name value deserializing).run.run r) =
      (.ok (), r.put (.property h name) value) := by
  obtain ⟨fields, hget⟩ := Heap.get?_of_kind?_plain hkind
  rw [run_putField hget rfl (fun hitems => absurd hitems Bool.false_ne_true) value deserializing,
    store_of_isInline r hvalue]
  rfl

/-- An item is always written when this leaves no gap. -/
theorem run_assignElement {index : Nat} (hp : r.heap.Writable (.item h index))
    (hvalue : value.isInline = false) :
    Id.run ((assignElement h index value).run.run r) = (.ok true, r.put (.item h index) value) := by
  obtain ⟨items, fields, hget, hindex⟩ := hp
  have helements : r.elements? ⟨.array items, fields⟩ = none := rfl
  have hitems : (⟨.array items, fields⟩ : ScriptObject P).items? = some items := rfl
  have hnear : ¬items.size + maxPadding < index + 1 := by
    rw [maxPadding]
    omega
  unfold assignElement
  rw [run_get]
  simp only [hget, helements]
  rw [run_modifyGet, store_of_isInline r hvalue, run_get]
  simp only [hget, hitems, Option.map_some, if_neg hnear]
  rfl

end Realm

end ScriptBridge
