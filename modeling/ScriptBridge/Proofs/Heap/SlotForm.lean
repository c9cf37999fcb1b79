import ScriptBridge.Proofs.Heap.WellFormed
import ScriptBridge.Heap.Collector

/-!
# Slot Form

Inside of the heap arrays are referred to by handle only. Every operation on objects keeps a heap
that way, as long as values are stored before they are written into an object; this is what a heap
can grow into, as `Grows` says of two heaps.

Main statements: `grows_store` and `grows_collect`.
-/

namespace ScriptBridge

variable {P : Platform}

/-- Whether a value carries the items of an array along. -/
def Value.isInline : Value → Bool
  | .array _ _ => true
  | _ => false

/-- The values in the slots of an object: its fields, then its items. -/
def ScriptObject.slots (o : ScriptObject P) : List Value :=
  o.fields.values ++ (o.items?.elim [] Array.toList)

/-- No slot of an object carries the items of an array along. -/
def ScriptObject.Slotted (o : ScriptObject P) : Prop := ∀ v ∈ o.slots, v.isInline = false

namespace Heap

/-- Inside of the heap arrays are referred to by handle. -/
def Slotted (heap : Heap P) : Prop := ∀ h object, heap.get? h = some object → object.Slotted

/-- What a heap can become: it loses no slots, and unless it has more of them than 32 bits tell
apart, it stays well formed and in slot form. -/
structure Grows (heap heap' : Heap P) : Prop where
  /-- No slot is lost. -/
  capacity : heap.capacity ≤ heap'.capacity
  /-- A heap that is well formed and in slot form stays so. -/
  sound : heap.WellFormed → heap.Slotted → heap'.capacity ≤ UInt32.size →
    heap'.WellFormed ∧ heap'.Slotted

theorem Grows.refl {heap : Heap P} : Grows heap heap := ⟨Nat.le_refl _, fun hwf hs _ => ⟨hwf, hs⟩⟩

theorem Grows.trans {a b c : Heap P} (h : Grows a b) (h' : Grows b c) : Grows a c := by
  refine ⟨Nat.le_trans h.capacity h'.capacity, fun hwf hs hbound => ?_⟩
  obtain ⟨hwf', hs'⟩ := h.sound hwf hs (Nat.le_trans h'.capacity hbound)
  exact h'.sound hwf' hs' hbound

/-! ## Objects -/

theorem capacity_allocate (heap : Heap P) (object : ScriptObject P) :
    heap.capacity ≤ (heap.allocate object).2.capacity := by
  unfold capacity
  cases hfree : heap.free with
  | nil => simp [allocate, hfree]
  | cons index free => simp [allocate, hfree]

/-- An allocation that has not made too many slots has found room. -/
theorem hasRoom_of_capacity_allocate {heap : Heap P} (hwf : heap.WellFormed)
    {object : ScriptObject P} (h : (heap.allocate object).2.capacity ≤ UInt32.size) :
    heap.HasRoom 1 := by
  unfold HasRoom
  cases hfree : heap.free with
  | nil =>
    simp only [allocate, hfree, Heap.capacity, Array.size_push] at h
    simpa [Heap.capacity] using h
  | cons index free =>
    have hbound := hwf.bounded
    simpa [Heap.capacity] using hbound

theorem grows_allocate (heap : Heap P) {object : ScriptObject P} (hobject : object.Slotted) :
    Grows heap (heap.allocate object).2 := by
  refine ⟨heap.capacity_allocate object, fun hwf hs hbound => ?_⟩
  have hroom := hasRoom_of_capacity_allocate hwf hbound
  refine ⟨hwf.allocate hroom object, fun h other hget => ?_⟩
  rw [hwf.get?_allocate hroom] at hget
  split at hget
  · rw [← Option.some.inj hget]
    exact hobject
  · exact hs h other hget

theorem grows_modify (heap : Heap P) (h : Handle) {f : ScriptObject P → ScriptObject P}
    (hf : ∀ object, object.Slotted → (f object).Slotted) : Grows heap (heap.modify h f) := by
  refine ⟨?_, fun hwf hs _ => ⟨hwf.modify h f, fun k other hget => ?_⟩⟩
  · obtain ⟨object, -, hmodify⟩ | ⟨-, hmodify⟩ := heap.modify_cases h f <;>
      simp [capacity, hmodify]
  · rw [get?_modify] at hget
    split at hget
    · obtain ⟨object, hobject, rfl⟩ := Option.map_eq_some_iff.1 hget
      exact hf object (hs h object hobject)
    · exact hs k other hget

theorem grows_release (heap : Heap P) (h : Handle) : Grows heap (heap.release h).2 := by
  refine ⟨?_, fun hwf hs _ => ⟨hwf.release h, fun k other hget => ?_⟩⟩
  · obtain ⟨object, -, hrelease⟩ | ⟨-, hrelease⟩ := heap.release_cases h <;>
      simp [capacity, hrelease]
  · rw [get?_release] at hget
    split at hget
    · cases hget
    · exact hs k other hget

/-! ## Slots -/

theorem slotted_ofForm {form : ObjectForm P}
    (hform : ∀ items, form = .array items → ∀ v ∈ items.toList, v.isInline = false) :
    (ScriptObject.ofForm form).Slotted := by
  intro v hv
  cases form with
  | array items => exact hform items rfl v (by simpa [ScriptObject.slots, ScriptObject.ofForm,
      ScriptObject.items?, Table.empty, Table.values] using hv)
  | _ => simp [ScriptObject.slots, ScriptObject.ofForm, ScriptObject.items?, Table.empty,
      Table.values] at hv

theorem slotted_setField {object : ScriptObject P} (hobject : object.Slotted) (name : String)
    {value : Value} (hvalue : value.isInline = false) : (object.setField name value).Slotted := by
  intro v hv
  rcases List.mem_append.1 hv with hv | hv
  · obtain ⟨entry, hentry, rfl⟩ := List.mem_map.1 hv
    rcases Table.mem_entries_insert hentry with rfl | hentry
    · exact hvalue
    · exact hobject _ (List.mem_append_left _ (List.mem_map_of_mem hentry))
  · exact hobject v (List.mem_append_right _ hv)

theorem slotted_mapItems {object : ScriptObject P} (hobject : object.Slotted)
    {f : Array Value → Array Value}
    (hf : ∀ items : Array Value, (∀ v ∈ items.toList, v.isInline = false) →
      ∀ v ∈ (f items).toList, v.isInline = false) : (object.mapItems f).Slotted := by
  obtain ⟨form, fields⟩ := object
  cases form with
  | array items =>
    intro v hv
    rcases List.mem_append.1 hv with hv | hv
    · exact hobject v (List.mem_append_left _ hv)
    · exact hf items (fun w hw => hobject w (List.mem_append_right _ hw)) v hv
  | _ => exact hobject

theorem slotted_setNative {object : ScriptObject P} (hobject : object.Slotted)
    (native : Native P.Layer) : (object.setNative native).Slotted := by
  obtain ⟨form, fields⟩ := object
  cases form <;> exact hobject

/-! ## Storing -/

theorem grows_storeArray (heap : Heap P) (origin : Option Handle) {items : List Value}
    (hitems : ∀ v ∈ items, v.isInline = false) : Grows heap (heap.storeArray origin items).2 := by
  have hnew : Grows heap (heap.allocate (.ofForm (.array items.toArray))).2 :=
    heap.grows_allocate (slotted_ofForm fun items' hitems' v hv => by
      cases hitems'
      exact hitems v hv)
  unfold storeArray
  split
  · exact heap.grows_modify _ fun object hobject => slotted_mapItems hobject fun _ _ v hv =>
      hitems v hv
  · exact hnew

mutual

/-- Storing a value keeps the heap in slot form, and what comes out may be written into a slot. -/
theorem grows_store (heap : Heap P) (value : Value) :
    (heap.store value).1.isInline = false ∧ Grows heap (heap.store value).2 := by
  cases value with
  | array origin items =>
    obtain ⟨hslots, hgrows⟩ := grows_storeAll heap items
    exact ⟨rfl, hgrows.trans (grows_storeArray _ origin hslots)⟩
  | _ => exact ⟨rfl, Grows.refl⟩

theorem grows_storeAll (heap : Heap P) (values : List Value) :
    (∀ v ∈ (heap.storeAll values).1, v.isInline = false) ∧
      Grows heap (heap.storeAll values).2 := by
  cases values with
  | nil => exact ⟨by simp [storeAll], Grows.refl⟩
  | cons value rest =>
    obtain ⟨hslot, hgrows⟩ := grows_store heap value
    obtain ⟨hslots, hgrows'⟩ := grows_storeAll (heap.store value).2 rest
    refine ⟨fun v hv => ?_, hgrows.trans hgrows'⟩
    rcases List.mem_cons.1 hv with rfl | hv
    · exact hslot
    · exact hslots v hv

end

/-! ## Collecting -/

theorem grows_releaseAll (heap : Heap P) (dying : List Handle) :
    Grows heap (heap.releaseAll dying).2 := by
  induction dying generalizing heap with
  | nil => exact Grows.refl
  | cons h dying ih => exact (heap.grows_release h).trans (ih _)

/-- A heap is as good as before when its count of allocations is started anew. -/
theorem grows_reset (heap : Heap P) (n : Nat) : Grows heap { heap with allocated := n } :=
  ⟨Nat.le_refl _, fun hwf hs _ =>
    ⟨⟨hwf.bounded, hwf.nodup_free, hwf.mem_free, hwf.live_eq⟩, hs⟩⟩

end Heap

theorem Collector.grows_collect (c : Collector P) (world : P.World) :
    c.heap.Grows (c.collect world).2.1.heap :=
  (c.heap.grows_releaseAll _).trans (Heap.grows_reset _ 0)

end ScriptBridge
