import ScriptBridge.Heap.Arrays
import Mathlib.Data.List.Nodup

/-!
# Well-Formed Heaps

The slots, the list of free slots and the counter of objects of a heap tell the same story: a slot
is listed as free exactly when it is empty, and only once. Every operation of a heap keeps it that
way, and therefore a new object never takes the place of another one.

## Main results

- `Heap.WellFormed.allocate`, `Heap.WellFormed.modify`, `Heap.WellFormed.release`: the operations
  keep a heap well formed.
- `Heap.get?_allocate`: an allocation is seen through the new handle only.
- `Heap.WellFormed.capacity_eq`: every slot holds an object or is listed as free.
-/

namespace ScriptBridge.Heap

variable {P : Platform}

/-! ## Positions -/

/-- A position below `2 ^ 32` survives being cut to 32 bits. -/
theorem toNat_toUInt32 {i : Nat} (hi : i < UInt32.size) : i.toUInt32.toNat = i :=
  UInt32.toNat_ofNat_of_lt' hi

/-- The elements with a property are as many as their positions. -/
theorem countP_eq_length_positions {α : Type} (xs : Array α) (p : α → Bool) :
    xs.countP p = ((List.range xs.size).filter fun i => xs[i]?.any p).length := by
  have hsome : xs.toList.map some = (List.range xs.size).map fun i => xs[i]? := by
    apply List.ext_getElem
    · simp
    · intro i hi hj
      simp only [List.length_map, Array.length_toList] at hi
      simp [hi]
  have hcount : xs.countP p = (xs.toList.map some).countP fun x => x.any p := by
    rw [List.countP_map, ← Array.countP_toList]
    rfl
  rw [hcount, hsome, List.countP_map, List.countP_eq_length_filter]
  rfl

/-! ## Listing the objects -/

/-- The number of handles is the number of slots that hold an object. -/
theorem length_handles (heap : Heap P) :
    heap.handles.length = heap.slots.countP fun slot => slot.object.isSome := by
  have hfst : heap.slots.toList.zipIdx.map Prod.fst = heap.slots.toList := by simp
  rw [handles, List.length_filterMap_eq_countP, ← Array.countP_toList]
  conv_rhs => rw [← hfst, List.countP_map]
  congr 1
  funext entry
  simp

/-- As long as 32 bits tell the slots apart, the listed handles are those that resolve. -/
theorem mem_handles_iff {heap : Heap P} (hsize : heap.slots.size ≤ UInt32.size) {h : Handle} :
    h ∈ heap.handles ↔ ∃ object, heap.get? h = some object := by
  constructor
  · intro hmem
    rw [handles, List.mem_filterMap] at hmem
    obtain ⟨⟨slot, i⟩, hslot, hh⟩ := hmem
    rw [List.mem_zipIdx_iff_getElem?, Array.getElem?_toList] at hslot
    obtain ⟨object, hobject, rfl⟩ := Option.map_eq_some_iff.1 hh
    have hi : i < heap.slots.size := (Array.getElem?_eq_some_iff.1 hslot).1
    refine ⟨object, ?_⟩
    rw [get?_eq_some_iff]
    -- the position survives being cut to 32 bits
    have hindex : i.toUInt32.toNat = i := toNat_toUInt32 (by omega)
    obtain ⟨generation, held⟩ := slot
    simp only at hobject hslot ⊢
    rw [hindex, hslot, hobject]
  · rintro ⟨object, hget⟩
    exact mem_handles_of_get? hget

/-- As long as 32 bits tell the slots apart, no handle is listed twice. -/
theorem nodup_handles {heap : Heap P} (hsize : heap.slots.size ≤ UInt32.size) :
    heap.handles.Nodup := by
  rw [handles, List.Nodup, List.pairwise_filterMap, List.pairwise_iff_getElem]
  intro i j hi hj hij a ha b hb hab
  simp only [List.length_zipIdx, Array.length_toList] at hi hj
  simp only [List.getElem_zipIdx, Nat.zero_add] at ha hb
  obtain ⟨x, -, rfl⟩ := Option.map_eq_some_iff.1 ha
  obtain ⟨y, -, rfl⟩ := Option.map_eq_some_iff.1 hb
  -- equal handles lie in the same slot
  have hindex : i.toUInt32.toNat = j.toUInt32.toNat := by
    rw [Handle.mk.injEq] at hab
    rw [hab.1]
  rw [toNat_toUInt32 (by omega), toNat_toUInt32 (by omega)] at hindex
  omega

/-- A handle resolves when there is an object for it. -/
theorem contains_iff {heap : Heap P} {h : Handle} :
    heap.contains h = true ↔ ∃ object, heap.get? h = some object := by
  rw [contains, Option.isSome_iff_exists]

/-- A handle that does not resolve has no object. -/
theorem contains_eq_false_iff {heap : Heap P} {h : Handle} :
    heap.contains h = false ↔ heap.get? h = none := by
  rw [contains, Option.isSome_eq_false_iff, Option.isNone_iff_eq_none]

/-- Removing an object through a handle that does not resolve changes nothing. -/
theorem release_of_not_contains {heap : Heap P} {h : Handle} (hdead : heap.contains h = false) :
    heap.release h = (false, heap) := by
  simp [release, hdead]

/-! ## The invariant -/

/-- What holds of every heap that is made by the operations of heaps. -/
structure WellFormed (heap : Heap P) : Prop where
  /-- 32 bits tell the slots apart. -/
  bounded : heap.slots.size ≤ UInt32.size
  /-- No slot is listed as free twice. -/
  nodup_free : heap.free.Nodup
  /-- The slots that are listed as free are the empty ones. -/
  mem_free : ∀ i : UInt32, i ∈ heap.free ↔ ∃ generation, heap.slots[i.toNat]? = some ⟨generation, none⟩
  /-- The counter counts the objects. -/
  live_eq : heap.live = heap.slots.countP fun slot => slot.object.isSome

/-- The heap without slots is well formed. -/
theorem wellFormed_empty : (empty : Heap P).WellFormed where
  bounded := by simp [empty]
  nodup_free := List.nodup_nil
  mem_free := by simp [empty]
  live_eq := by simp [empty]

/-- The slots that hold an object and those that are listed as free are all slots. -/
theorem WellFormed.capacity_eq {heap : Heap P} (hwf : heap.WellFormed) :
    heap.capacity = heap.live + heap.free.length := by
  -- the positions of the empty slots, once in order and once as they are listed as free
  have hperm : (heap.free.map UInt32.toNat).Perm
      ((List.range heap.slots.size).filter fun i =>
        (heap.slots[i]?.any fun slot => slot.object.isNone)) := by
    rw [List.perm_ext_iff_of_nodup]
    · intro i
      rw [List.mem_map, List.mem_filter, List.mem_range]
      constructor
      · rintro ⟨index, hindex, rfl⟩
        obtain ⟨generation, hslot⟩ := (hwf.mem_free index).1 hindex
        exact ⟨(Array.getElem?_eq_some_iff.1 hslot).1, by simp [hslot]⟩
      · rintro ⟨hi, hempty⟩
        have hb := hwf.bounded
        have hindex : i.toUInt32.toNat = i := toNat_toUInt32 (by omega)
        refine ⟨i.toUInt32, ?_, hindex⟩
        rw [hwf.mem_free, hindex]
        rw [Array.getElem?_eq_getElem hi] at hempty ⊢
        simp only [Option.any_some, Option.isNone_iff_eq_none] at hempty
        exact ⟨heap.slots[i].generation, by rw [← hempty]⟩
    · exact hwf.nodup_free.map fun _ _ => UInt32.toNat_inj.1
    · exact List.nodup_range.filter _
  have hlength := hperm.length_eq
  rw [List.length_map, ← countP_eq_length_positions] at hlength
  -- a slot holds an object or is empty
  have hsplit := heap.slots.toList.length_eq_countP_add_countP fun slot => slot.object.isSome
  rw [Array.countP_toList, Array.length_toList] at hsplit
  rw [capacity, hwf.live_eq, hlength, hsplit]
  congr 1
  rw [← Array.countP_toList]
  congr 1
  funext slot
  cases slot.object <;> rfl

/-! ## What the operations can do -/

/-- An allocation fills the first slot that is listed as free, or makes a new slot. -/
theorem WellFormed.allocate_cases {heap : Heap P} (hwf : heap.WellFormed)
    (object : ScriptObject P) :
    (∃ index free generation, heap.free = index :: free ∧
      heap.slots[index.toNat]? = some ⟨generation, none⟩ ∧
      heap.allocate object = (⟨index, generation⟩,
        ⟨heap.slots.setIfInBounds index.toNat ⟨generation, some object⟩, free, heap.live + 1,
          heap.allocated + 1⟩)) ∨
    (heap.free = [] ∧
      heap.allocate object = (⟨heap.slots.size.toUInt32, 0⟩,
        ⟨heap.slots.push ⟨0, some object⟩, [], heap.live + 1, heap.allocated + 1⟩)) := by
  cases hfree : heap.free with
  | nil => exact Or.inr ⟨rfl, by simp [allocate, hfree]⟩
  | cons index free =>
    obtain ⟨generation, hslot⟩ := (hwf.mem_free index).1 (by simp [hfree])
    exact Or.inl ⟨index, free, generation, rfl, hslot, by simp [allocate, hfree, hslot]⟩

/-- A removal empties the slot of its handle, or finds nothing and changes nothing. -/
theorem release_cases (heap : Heap P) (h : Handle) :
    (∃ object, heap.get? h = some object ∧
      heap.release h = (true,
        ⟨heap.slots.setIfInBounds h.index.toNat ⟨h.generation + 1, none⟩, h.index :: heap.free,
          heap.live - 1, heap.allocated⟩)) ∨
    (heap.get? h = none ∧ heap.release h = (false, heap)) := by
  cases hget : heap.get? h with
  | none => exact Or.inr ⟨rfl, release_of_not_contains (contains_eq_false_iff.2 hget)⟩
  | some object =>
    have hlive : heap.contains h = true := contains_iff.2 ⟨object, hget⟩
    exact Or.inl ⟨object, rfl, by simp [release, hlive]⟩

/-- A change rewrites the object of its handle, or finds nothing and changes nothing. -/
theorem modify_cases (heap : Heap P) (h : Handle) (f : ScriptObject P → ScriptObject P) :
    (∃ object, heap.get? h = some object ∧
      heap.modify h f = { heap with
        slots := heap.slots.setIfInBounds h.index.toNat ⟨h.generation, some (f object)⟩ }) ∨
    (heap.get? h = none ∧ heap.modify h f = heap) := by
  cases hget : heap.get? h with
  | none =>
    have hdead := contains_eq_false_iff.2 hget
    exact Or.inr ⟨rfl, by simp [modify, hdead]⟩
  | some object =>
    refine Or.inl ⟨object, rfl, ?_⟩
    have hlive : heap.contains h = true := contains_iff.2 ⟨object, hget⟩
    have hslot := get?_eq_some_iff.1 hget
    rw [modify, if_pos hlive]
    congr 1
    apply Array.ext_getElem?
    intro i
    rw [Array.getElem?_modify, Array.getElem?_setIfInBounds]
    split
    · next hi =>
      subst hi
      obtain ⟨hlt, -⟩ := Array.getElem?_eq_some_iff.1 hslot
      rw [hslot, if_pos hlt]
      rfl
    · rfl

/-! ## The operations keep a heap well formed -/

/-- Slots that hold an object before and after a change are counted the same. -/
private theorem countP_setIfInBounds {slots : Array (Slot P)} {i : Nat} {slot new : Slot P}
    (hslot : slots[i]? = some slot) :
    (slots.setIfInBounds i new).countP (fun s => s.object.isSome) =
      slots.countP (fun s => s.object.isSome) - (if slot.object.isSome then 1 else 0) +
        (if new.object.isSome then 1 else 0) := by
  obtain ⟨hi, rfl⟩ := Array.getElem?_eq_some_iff.1 hslot
  have hset : slots.setIfInBounds i new = slots.set i new hi := by
    simp [Array.setIfInBounds, hi]
  rw [hset, Array.countP_set]

/-- A slot that holds an object is counted. -/
private theorem countP_pos_of_get? {heap : Heap P} {h : Handle} {object : ScriptObject P}
    (hget : heap.get? h = some object) :
    0 < heap.slots.countP fun slot => slot.object.isSome := by
  obtain ⟨hi, hslot⟩ := Array.getElem?_eq_some_iff.1 (get?_eq_some_iff.1 hget)
  rw [Array.countP_pos_iff]
  exact ⟨_, Array.getElem_mem hi, by rw [hslot]; rfl⟩

/-- The next `n` objects still find slots that 32 bits tell apart. -/
def HasRoom (heap : Heap P) (n : Nat) : Prop :=
  heap.capacity + (n - heap.free.length) ≤ UInt32.size

/-- An allocation takes up the room for one object. -/
theorem HasRoom.allocate {heap : Heap P} {n : Nat} (hroom : heap.HasRoom (n + 1))
    (object : ScriptObject P) : (heap.allocate object).2.HasRoom n := by
  rw [HasRoom, capacity] at hroom ⊢
  cases hfree : heap.free with
  | nil =>
    simp only [Heap.allocate, hfree, Array.size_push, List.length_nil, Nat.sub_zero]
    simp only [hfree, List.length_nil, Nat.sub_zero] at hroom
    omega
  | cons index free =>
    simp only [Heap.allocate, hfree, Array.size_setIfInBounds]
    simp only [hfree, List.length_cons] at hroom
    omega

/-- With room for several objects there is room for fewer. -/
theorem HasRoom.mono {heap : Heap P} {m n : Nat} (hroom : heap.HasRoom n) (hmn : m ≤ n) :
    heap.HasRoom m := by
  rw [HasRoom] at hroom ⊢
  omega

/-- A change of an object takes up no room. -/
theorem hasRoom_modify {heap : Heap P} {h : Handle} {f : ScriptObject P → ScriptObject P}
    {n : Nat} : (heap.modify h f).HasRoom n ↔ heap.HasRoom n := by
  obtain ⟨object, -, hmodify⟩ | ⟨-, hmodify⟩ := heap.modify_cases h f <;>
    simp [HasRoom, capacity, hmodify]

/-- An allocation for which there is room keeps a heap well formed. -/
theorem WellFormed.allocate {heap : Heap P} (hwf : heap.WellFormed) (hroom : heap.HasRoom 1)
    (object : ScriptObject P) : (heap.allocate object).2.WellFormed := by
  obtain ⟨index, free, generation, hfree, hslot, halloc⟩ | ⟨hfree, halloc⟩ :=
    hwf.allocate_cases object
  · rw [halloc]
    have hnodup := hwf.nodup_free
    rw [hfree, List.nodup_cons] at hnodup
    refine ⟨by simpa using hwf.bounded, hnodup.2, ?_, ?_⟩
    · intro i
      simp only [Array.getElem?_setIfInBounds]
      split
      -- the slot that has been filled is not listed any more
      · next hi =>
        have hindex : index = i := UInt32.toNat_inj.1 hi
        subst hindex
        refine ⟨fun hmem => absurd hmem hnodup.1, ?_⟩
        rintro ⟨other, hother⟩
        split at hother <;> simp at hother
      · next hi =>
        have hne : i ≠ index := fun e => hi (congrArg UInt32.toNat e.symm)
        rw [← hwf.mem_free, hfree, List.mem_cons]
        simp [hne]
    · simp only [countP_setIfInBounds hslot]
      simp [hwf.live_eq]
  · rw [halloc]
    have hsize : heap.slots.size < UInt32.size := by
      simp only [HasRoom, capacity, hfree, List.length_nil] at hroom
      omega
    refine ⟨by simp only [Array.size_push]; omega, List.nodup_nil, ?_, ?_⟩
    · intro i
      have hold := hwf.mem_free i
      simp only [hfree, List.not_mem_nil, false_iff, not_exists] at hold
      simp only [Array.getElem?_push, List.not_mem_nil, false_iff, not_exists]
      intro generation
      split
      · simp
      · exact hold generation
    · simp [hwf.live_eq]

/-- A change of an object keeps a heap well formed. -/
theorem WellFormed.modify {heap : Heap P} (hwf : heap.WellFormed) (h : Handle)
    (f : ScriptObject P → ScriptObject P) : (heap.modify h f).WellFormed := by
  obtain ⟨object, hget, hmodify⟩ | ⟨-, hmodify⟩ := heap.modify_cases h f
  · rw [hmodify]
    have hslot := get?_eq_some_iff.1 hget
    refine ⟨by simpa using hwf.bounded, hwf.nodup_free, ?_, ?_⟩
    · intro i
      rw [hwf.mem_free]
      simp only [Array.getElem?_setIfInBounds]
      split
      -- the slot is occupied before and after
      · next hi =>
        rw [← hi, hslot]
        split <;> simp
      · rfl
    · have hpos := countP_pos_of_get? hget
      simp only [countP_setIfInBounds hslot, hwf.live_eq]
      simp only [Option.isSome_some, if_true]
      omega
  · rw [hmodify]
    exact hwf

/-- A removal keeps a heap well formed. -/
theorem WellFormed.release {heap : Heap P} (hwf : heap.WellFormed) (h : Handle) :
    (heap.release h).2.WellFormed := by
  obtain ⟨object, hget, hrelease⟩ | ⟨-, hrelease⟩ := heap.release_cases h
  · rw [hrelease]
    have hslot := get?_eq_some_iff.1 hget
    obtain ⟨hlt, -⟩ := Array.getElem?_eq_some_iff.1 hslot
    have hnot : h.index ∉ heap.free := by
      rw [hwf.mem_free, hslot]
      simp
    refine ⟨by simpa using hwf.bounded, List.nodup_cons.2 ⟨hnot, hwf.nodup_free⟩, ?_, ?_⟩
    · intro i
      rw [List.mem_cons, hwf.mem_free]
      simp only [Array.getElem?_setIfInBounds]
      split
      · next hi =>
        have hindex : h.index = i := UInt32.toNat_inj.1 hi
        subst hindex
        simp [hlt]
      · next hi =>
        have hne : i ≠ h.index := fun e => hi (congrArg UInt32.toNat e.symm)
        simp [hne]
    · simp only [countP_setIfInBounds hslot, hwf.live_eq]
      simp
  · rw [hrelease]
    exact hwf

/-! ## New objects -/

/-- A new object takes the slot that its handle names, and no other slot changes. -/
theorem WellFormed.slots_allocate {heap : Heap P} (hwf : heap.WellFormed)
    (hroom : heap.HasRoom 1) (object : ScriptObject P) (j : Nat) :
    (heap.allocate object).2.slots[j]? =
      if j = (heap.allocate object).1.index.toNat then
        some ⟨(heap.allocate object).1.generation, some object⟩
      else heap.slots[j]? := by
  obtain ⟨index, free, generation, -, hempty, halloc⟩ | ⟨hfree, halloc⟩ :=
    hwf.allocate_cases object
  · obtain ⟨hlt, -⟩ := Array.getElem?_eq_some_iff.1 hempty
    rw [halloc, Array.getElem?_setIfInBounds]
    simp only [eq_comm (a := j), hlt, if_true]
  · have hsize : heap.slots.size < UInt32.size := by
      simp only [HasRoom, capacity, hfree, List.length_nil] at hroom
      omega
    rw [halloc, Array.getElem?_push, toNat_toUInt32 hsize]

/-- The slot of a new object was empty before, or there was no such slot. -/
theorem WellFormed.slot_before_allocate {heap : Heap P} (hwf : heap.WellFormed)
    (hroom : heap.HasRoom 1) (object : ScriptObject P) :
    heap.slots[(heap.allocate object).1.index.toNat]? =
        some ⟨(heap.allocate object).1.generation, none⟩ ∨
      (heap.allocate object).1.index.toNat = heap.slots.size ∧
        (heap.allocate object).1.generation = 0 := by
  obtain ⟨index, free, generation, -, hempty, halloc⟩ | ⟨hfree, halloc⟩ :=
    hwf.allocate_cases object
  · rw [halloc]
    exact Or.inl hempty
  · have hsize : heap.slots.size < UInt32.size := by
      simp only [HasRoom, capacity, hfree, List.length_nil] at hroom
      omega
    rw [halloc]
    exact Or.inr ⟨toNat_toUInt32 hsize, rfl⟩

/-- No handle of the slot of a new object resolved before. -/
theorem WellFormed.get?_before_allocate {heap : Heap P} (hwf : heap.WellFormed)
    (hroom : heap.HasRoom 1) (object : ScriptObject P) {k : Handle}
    (hk : k.index = (heap.allocate object).1.index) : heap.get? k = none := by
  rw [Option.eq_none_iff_forall_not_mem]
  intro other hother
  have hslot := get?_eq_some_iff.1 hother
  rw [hk] at hslot
  rcases hwf.slot_before_allocate hroom object with hempty | ⟨hsize, -⟩
  · rw [hempty] at hslot
    simp at hslot
  · rw [hsize] at hslot
    simp at hslot

/-- An allocation is seen through the new handle only. -/
theorem WellFormed.get?_allocate {heap : Heap P} (hwf : heap.WellFormed) (hroom : heap.HasRoom 1)
    (object : ScriptObject P) (k : Handle) :
    (heap.allocate object).2.get? k =
      if k = (heap.allocate object).1 then some object else heap.get? k := by
  have hslots := hwf.slots_allocate hroom object
  by_cases hindex : k.index = (heap.allocate object).1.index
  · rw [hwf.get?_before_allocate hroom object hindex, get?, slot?, hslots,
      if_pos (congrArg UInt32.toNat hindex)]
    by_cases hk : k = (heap.allocate object).1
    · simp [hk]
    -- another handle of the same slot is of another generation
    · have hgen : (heap.allocate object).1.generation ≠ k.generation := by
        intro e
        apply hk
        rw [Handle.mk.injEq]
        exact ⟨hindex, e.symm⟩
      simp [hk, hgen]
  · have hk : k ≠ (heap.allocate object).1 := fun e => hindex (congrArg Handle.index e)
    have hj : k.index.toNat ≠ (heap.allocate object).1.index.toNat :=
      fun e => hindex (UInt32.toNat_inj.1 e)
    rw [if_neg hk, get?, get?, slot?, slot?, hslots, if_neg hj]

/-! ## Changes and removals, slot by slot -/

/-- A change rewrites the object in the slot of its handle, if the generations agree. -/
theorem slots_modify (heap : Heap P) (h : Handle) (f : ScriptObject P → ScriptObject P) (j : Nat) :
    (heap.modify h f).slots[j]? = heap.slots[j]?.map fun slot =>
      if j = h.index.toNat ∧ slot.generation = h.generation then
        { slot with object := slot.object.map f }
      else slot := by
  obtain ⟨object, hget, hmodify⟩ | ⟨hget, hmodify⟩ := heap.modify_cases h f
  · have hslot := get?_eq_some_iff.1 hget
    obtain ⟨hlt, -⟩ := Array.getElem?_eq_some_iff.1 hslot
    rw [hmodify, Array.getElem?_setIfInBounds]
    by_cases hj : h.index.toNat = j
    · subst hj
      rw [if_pos rfl, if_pos hlt, hslot]
      simp
    · simp [hj, Ne.symm hj]
  · rw [hmodify]
    cases hslot : heap.slots[j]? with
    | none => rfl
    | some slot =>
      rw [Option.map_some]
      split
      -- the slot is empty, since the handle does not resolve
      · next hj =>
        obtain ⟨hindex, hgen⟩ := hj
        subst hindex
        obtain ⟨generation, held⟩ := slot
        cases held with
        | none => rfl
        | some object =>
          simp only at hgen
          subst hgen
          rw [get?_eq_some_iff.2 hslot] at hget
          simp at hget
      · rfl

/-- A removal that finds an object empties its slot and moves the generation on. -/
theorem slots_release {heap : Heap P} {h : Handle} (hlive : heap.contains h = true) (j : Nat) :
    (heap.release h).2.slots[j]? =
      if j = h.index.toNat then some ⟨h.generation + 1, none⟩ else heap.slots[j]? := by
  obtain ⟨object, hget⟩ := contains_iff.1 hlive
  obtain ⟨hlt, -⟩ := Array.getElem?_eq_some_iff.1 (get?_eq_some_iff.1 hget)
  simp only [release, hlive, if_true, Array.getElem?_setIfInBounds, hlt]
  simp only [eq_comm (a := j)]

end ScriptBridge.Heap
