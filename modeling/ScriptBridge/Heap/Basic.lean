import ScriptBridge.Heap.Object

/-!
# The Heap

The heap is a row of slots. A slot holds an object or is free; free slots are reused, the one that
was freed last first. Freeing an object moves the generation of its slot on, so that no handle to
it resolves any more.

Main statements: `Heap.get?_modify` and `Heap.get?_release`, a change is seen through the handle of
the changed object only.
-/

namespace ScriptBridge

/-- A place for one object. -/
structure Slot (P : Platform) where
  /-- How often the slot has been freed; this wraps around at 32 bits. -/
  generation : UInt32
  /-- The object, unless the slot is free. -/
  object : Option (ScriptObject P)

/-- The objects of a realm. -/
structure Heap (P : Platform) where
  /-- All slots that were ever made. -/
  slots : Array (Slot P)
  /-- The free slots, the one to be used next first. -/
  free : List UInt32
  /-- The number of objects. -/
  live : Nat
  /-- The number of allocations since the last collection. -/
  allocated : Nat

namespace Heap

variable {P : Platform}

/-- The heap without slots. -/
def empty : Heap P := ⟨#[], [], 0, 0⟩

/-- The slot that a handle names, if its generation is still the one of the handle. -/
def slot? (heap : Heap P) (h : Handle) : Option (Slot P) :=
  match heap.slots[h.index.toNat]? with
  | some slot => if slot.generation = h.generation then some slot else none
  | none => none

/-- The object that a handle resolves to. -/
def get? (heap : Heap P) (h : Handle) : Option (ScriptObject P) := (heap.slot? h).bind Slot.object

/-- Whether a handle resolves. -/
def contains (heap : Heap P) (h : Handle) : Bool := (heap.get? h).isSome

/-- Changes the object that a handle resolves to; a handle that does not resolve changes nothing. -/
def modify (heap : Heap P) (h : Handle) (f : ScriptObject P → ScriptObject P) : Heap P :=
  if heap.contains h then
    { heap with
      slots := heap.slots.modify h.index.toNat fun slot =>
        { slot with object := slot.object.map f } }
  else heap

/-- Stores an object in the slot that was freed last, or in a new one. -/
def allocate (heap : Heap P) (object : ScriptObject P) : Handle × Heap P :=
  match heap.free with
  | index :: free =>
    -- the slot moved its generation on when it was freed, so the handle is a new one
    let generation := (heap.slots[index.toNat]?).elim 0 Slot.generation
    (⟨index, generation⟩,
      { slots := heap.slots.setIfInBounds index.toNat ⟨generation, some object⟩
        free := free
        live := heap.live + 1
        allocated := heap.allocated + 1 })
  | [] =>
    (⟨heap.slots.size.toUInt32, 0⟩,
      { slots := heap.slots.push ⟨0, some object⟩
        free := []
        live := heap.live + 1
        allocated := heap.allocated + 1 })

/-- Removes an object, and tells whether there was one. -/
def release (heap : Heap P) (h : Handle) : Bool × Heap P :=
  if heap.contains h then
    (true,
      -- from here on no handle that was issued for the object resolves
      { slots := heap.slots.setIfInBounds h.index.toNat ⟨h.generation + 1, none⟩
        free := h.index :: heap.free
        live := heap.live - 1
        allocated := heap.allocated })
  else (false, heap)

/-- The handles of all objects, by slot. -/
def handles (heap : Heap P) : List Handle :=
  (heap.slots.toList.zipIdx).filterMap fun (slot, index) =>
    slot.object.map fun _ => ⟨index.toUInt32, slot.generation⟩

/-- The number of slots. -/
def capacity (heap : Heap P) : Nat := heap.slots.size

/-! ## What a change does to the objects -/

/-- A handle resolves when its slot is of its generation and holds an object. -/
theorem get?_eq_some_iff {heap : Heap P} {h : Handle} {object : ScriptObject P} :
    heap.get? h = some object ↔ heap.slots[h.index.toNat]? = some ⟨h.generation, some object⟩ := by
  simp only [get?, slot?]
  constructor
  · intro hget
    split at hget
    · next slot hslot =>
      split at hget
      · next hgen =>
        obtain ⟨generation, held⟩ := slot
        simp only [Option.bind_some] at hget hgen
        rw [hslot, hgen, hget]
      · simp at hget
    · simp at hget
  · intro hslot
    simp [hslot]

/-- Two handles that resolve in the same slot are the same. -/
theorem eq_of_get?_of_index_eq {heap : Heap P} {h k : Handle} {a b : ScriptObject P}
    (hget : heap.get? h = some a) (kget : heap.get? k = some b) (hindex : k.index = h.index) :
    k = h := by
  rw [get?_eq_some_iff] at hget kget
  -- the slot has one generation, which both handles carry
  rw [hindex, hget, Option.some.injEq, Slot.mk.injEq] at kget
  cases h
  cases k
  simp_all

/-- A change is seen through the handle of the object only. -/
theorem get?_modify (heap : Heap P) (h k : Handle) (f : ScriptObject P → ScriptObject P) :
    (heap.modify h f).get? k = if k = h then (heap.get? h).map f else heap.get? k := by
  rw [modify]
  split
  · next hlive =>
    rw [contains, Option.isSome_iff_exists] at hlive
    obtain ⟨object, hget⟩ := hlive
    have hslot := get?_eq_some_iff.1 hget
    by_cases hk : k = h
    -- the changed object stands in the slot of the handle
    · subst hk
      rw [if_pos rfl, hget, Option.map_some, get?_eq_some_iff, Array.getElem?_modify, if_pos rfl,
        hslot]
      rfl
    · rw [if_neg hk]
      by_cases hindex : k.index = h.index
      -- the other handle is of another generation and does not resolve before nor after
      · have before : heap.get? k = none := by
          cases hkget : heap.get? k with
          | none => rfl
          | some other => exact absurd (eq_of_get?_of_index_eq hget hkget hindex) hk
        rw [before, Option.eq_none_iff_forall_not_mem]
        intro other hother
        have kslot := get?_eq_some_iff.1 hother
        rw [Array.getElem?_modify, hindex, if_pos rfl, hslot] at kslot
        simp only [Option.map_some, Option.some.injEq, Slot.mk.injEq] at kslot
        apply hk
        cases h
        cases k
        simp_all
      · have hne : h.index.toNat ≠ k.index.toNat := fun e => hindex (UInt32.toNat_inj.1 e.symm)
        rw [get?, get?, slot?, slot?, Array.getElem?_modify, if_neg hne]
  · next hdead =>
    -- nothing changes, and the handle does not resolve
    by_cases hk : k = h
    · subst hk
      rw [if_pos rfl]
      rw [contains, Bool.not_eq_true, Option.isSome_eq_false_iff, Option.isNone_iff_eq_none] at hdead
      rw [hdead, Option.map_none]
    · rw [if_neg hk]

/-- Removing an object is seen through its own handle only. -/
theorem get?_release (heap : Heap P) (h k : Handle) :
    (heap.release h).2.get? k = if k = h then none else heap.get? k := by
  rw [release]
  split
  · next hlive =>
    rw [contains, Option.isSome_iff_exists] at hlive
    obtain ⟨object, hget⟩ := hlive
    have hslot := get?_eq_some_iff.1 hget
    have hsize : h.index.toNat < heap.slots.size := by
      rw [Array.getElem?_eq_some_iff] at hslot
      exact hslot.1
    by_cases hindex : k.index = h.index
    -- the slot is empty now, whatever the generation of the other handle
    · have after : Option.bind (slot? { heap with
          slots := heap.slots.setIfInBounds h.index.toNat ⟨h.generation + 1, none⟩
          free := h.index :: heap.free
          live := heap.live - 1 } k) Slot.object = none := by
        rw [slot?, hindex]
        simp only [Array.getElem?_setIfInBounds_self_of_lt hsize]
        split <;> rfl
      have result : (if k = h then none else heap.get? k) = none := by
        split
        · rfl
        · next hk =>
          cases hkget : heap.get? k with
          | none => rfl
          | some other => exact absurd (eq_of_get?_of_index_eq hget hkget hindex) hk
      rw [result]
      exact after
    · have hne : h.index.toNat ≠ k.index.toNat := fun e => hindex (UInt32.toNat_inj.1 e.symm)
      rw [if_neg (fun e => hindex (congrArg Handle.index e))]
      simp only [get?, slot?, Array.getElem?_setIfInBounds_ne hne]
  · next hdead =>
    by_cases hk : k = h
    · subst hk
      rw [contains, Bool.not_eq_true, Option.isSome_eq_false_iff, Option.isNone_iff_eq_none] at hdead
      rw [if_pos rfl, hdead]
    · rw [if_neg hk]

end Heap

end ScriptBridge
