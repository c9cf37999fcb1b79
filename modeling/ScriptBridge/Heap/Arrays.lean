import ScriptBridge.Heap.Basic

/-!
# Arrays inside and outside of the Heap

Slots of the heap refer to arrays by handle; values outside of it carry the items along. Reading a
slot expands such a handle into the items of the array, which remember where they come from;
storing a value puts the items back there when that array is still alive, and into a new array
otherwise.

An array that contains itself is cut: in place of an array that is being expanded already stands
null. The expansion ends because each array on the way is a different object of the heap.
-/

namespace ScriptBridge.Heap

variable {P : Platform}

/-! ## Expanding -/

/-- A handle that resolves is among the handles of the heap. -/
theorem mem_handles_of_get? {heap : Heap P} {h : Handle} {object : ScriptObject P}
    (hget : heap.get? h = some object) : h ∈ heap.handles := by
  rw [get?_eq_some_iff] at hget
  rw [handles, List.mem_filterMap]
  -- its slot, with its position
  refine ⟨(⟨h.generation, some object⟩, h.index.toNat), ?_, ?_⟩
  · rw [List.mem_zipIdx_iff_getElem?, Array.getElem?_toList]
    exact hget
  · simp

/-- The number of objects that are not on a path. -/
def offPath (heap : Heap P) (path : List Handle) : Nat :=
  (heap.handles.filter fun h => !path.contains h).length

/-- Stepping onto an object that is not on the path leaves fewer of them. -/
theorem offPath_cons_lt {heap : Heap P} {path : List Handle} {h : Handle} {object : ScriptObject P}
    (hget : heap.get? h = some object) (hpath : path.contains h = false) :
    heap.offPath (h :: path) < heap.offPath path := by
  -- the object is off the path before the step
  have hmem : h ∈ heap.handles.filter fun h => !path.contains h := by
    rw [List.mem_filter]
    exact ⟨mem_handles_of_get? hget, by simp only [hpath, Bool.not_false]⟩
  -- after the step the same objects are off the path, except for this one
  have hsplit : (heap.handles.filter fun k => !(h :: path).contains k) =
      (heap.handles.filter fun k => !path.contains k).filter fun k => !(k == h) := by
    rw [List.filter_filter]
    congr 1
    funext k
    rw [List.contains_cons]
    cases k == h <;> cases path.contains k <;> rfl
  rw [offPath, offPath, hsplit, List.length_filter_lt_length_iff_exists]
  exact ⟨h, hmem, by simp⟩

mutual

/-- A slot value as it is seen outside of the heap, on the way through the arrays of `path`. -/
def expandOn (heap : Heap P) (path : List Handle) (value : Value) : Value :=
  match value with
  | .object h =>
    match _hget : heap.get? h with
    | none => .object h
    | some object =>
      match object.items? with
      | none => .object h
      | some items =>
        -- an array that is being expanded already would never end
        if _hpath : path.contains h = true then .null
        else .array (some h) (expandItems heap (h :: path) items.toList)
  | .array origin items => .array origin (expandItems heap path items)
  | other => other
termination_by (heap.offPath path, sizeOf value)
decreasing_by
  · exact Prod.Lex.left _ _ (offPath_cons_lt _hget (by simpa using _hpath))
  · exact Prod.Lex.right _ (by simp only [Value.array.sizeOf_spec]; omega)

/-- Several slot values as they are seen outside of the heap. -/
def expandItems (heap : Heap P) (path : List Handle) (values : List Value) : List Value :=
  match values with
  | [] => []
  | value :: rest => expandOn heap path value :: expandItems heap path rest
termination_by (heap.offPath path, sizeOf values)
decreasing_by
  · exact Prod.Lex.right _ (by simp only [List.cons.sizeOf_spec]; omega)
  · exact Prod.Lex.right _ (by simp only [List.cons.sizeOf_spec]; omega)

end

/-- Slot values are expanded one by one. -/
theorem expandItems_eq_map (heap : Heap P) (path : List Handle) (values : List Value) :
    heap.expandItems path values = values.map (heap.expandOn path) := by
  induction values with
  | nil => rw [expandItems, List.map_nil]
  | cons value rest ih => rw [expandItems, ih, List.map_cons]

/-- A slot value as it is seen outside of the heap. -/
def expand (heap : Heap P) (value : Value) : Value := heap.expandOn [] value

/-! ## Storing -/

/-- Stores items in the array that they come from when it is still alive, and in a new array
otherwise. -/
def storeArray (heap : Heap P) (origin : Option Handle) (items : List Value) : Handle × Heap P :=
  match origin.bind fun h => (heap.get? h).map fun object => (h, object) with
  | some (h, ⟨.array _, _⟩) =>
    -- the array keeps its handle and takes the items over
    (h, heap.modify h fun object => object.mapItems fun _ => items.toArray)
  | _ => heap.allocate (.ofForm (.array items.toArray))

mutual

/-- A value in the form that slots hold: arrays are stored, inner ones first, and their handles
take their places. -/
def store (heap : Heap P) : Value → Value × Heap P
  | .array origin items =>
    -- inner arrays become handles before the outer one is touched
    let (slots, heap) := storeAll heap items
    let (h, heap) := heap.storeArray origin slots
    (.object h, heap)
  | other => (other, heap)

/-- Several values in the form that slots hold. -/
def storeAll (heap : Heap P) : List Value → List Value × Heap P
  | [] => ([], heap)
  | value :: rest =>
    let (slot, heap) := store heap value
    let (slots, heap) := storeAll heap rest
    (slot :: slots, heap)

end

end ScriptBridge.Heap
