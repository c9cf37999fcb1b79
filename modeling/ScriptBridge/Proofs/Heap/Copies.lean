import ScriptBridge.Proofs.Heap.WriteBack

/-!
# Copies of Arrays

A value from outside of the heap may carry several copies of one array, and not all of them need
to be what the array holds by now. Storing the value writes the array once for each copy, so it
holds what the last copy says, and an array of which there is no copy holds what it held.

Main statement: `items?_store`.
-/

namespace ScriptBridge

variable {P : Platform}

namespace Value

mutual

/-- The copies of arrays in a value, each with the items that it carries, in the order in which they
are written when the value is stored. -/
def copies : Value → List (Handle × List Value)
  | array origin items => copiesOf items ++ origin.toList.map fun a => (a, items)
  | _ => []

/-- The copies of arrays in several values. -/
def copiesOf : List Value → List (Handle × List Value)
  | [] => []
  | v :: vs => copies v ++ copiesOf vs

end

/-- The items that the last copy of an array carries. -/
def lastCopy? (v : Value) (a : Handle) : Option (List Value) := v.copies.reverse.lookup a

end Value

namespace Heap

/-- What stands in a slot for an item of a copy: the handle of an array that is there, and
everything but arrays itself. -/
def slotOf? (heap : Heap P) : Value → Option Value
  | .array (some a) _ => if (heap.items? a).isSome then some (.object a) else none
  | .array none _ => none
  | v => some v

/-- A copy carries what an array holds. -/
def Current (heap : Heap P) (copy : List Value) (items : Array Value) : Prop :=
  copy.map heap.slotOf? = items.toList.map some

/-- An array after some copies have been written. -/
structure Follows (start : Heap P) (a : Handle) (items : Array Value)
    (copies : List (Handle × List Value)) (heap heap' : Heap P) : Prop where
  /-- It is left alone if there is no copy of it. -/
  without : copies.reverse.lookup a = none → heap'.items? a = heap.items? a
  /-- It holds what it held at the start if that is what the last copy of it carries. -/
  last : ∀ copy, copies.reverse.lookup a = some copy → start.Current copy items →
    heap'.items? a = some items

section

variable {start heap middle heap' : Heap P} {a : Handle} {items : Array Value}
  {copies more : List (Handle × List Value)}

theorem Follows.append (h : start.Follows a items copies heap middle)
    (h' : start.Follows a items more middle heap') :
    start.Follows a items (copies ++ more) heap heap' := by
  constructor
  case without =>
    rw [List.reverse_append, List.lookup_append, Option.or_eq_none_iff]
    rintro ⟨hmore, hcopies⟩
    rw [h'.without hmore, h.without hcopies]
  case last =>
    intro copy hcopy hcurrent
    rw [List.reverse_append, List.lookup_append, Option.or_eq_some_iff] at hcopy
    rcases hcopy with hmore | ⟨hmore, hcopies⟩
    · exact h'.last copy hmore hcurrent
    -- the later copies are of other arrays
    · rw [h'.without hmore]
      exact h.last copy hcopies hcurrent

theorem Follows.refl : start.Follows a items [] heap heap := ⟨fun _ => rfl, by simp⟩

end

/-! ## What is there stays there -/

/-- The slots that are listed as free are empty, and no slot is listed twice. -/
structure Spare (heap : Heap P) : Prop where
  nodup : heap.free.Nodup
  vacant : ∀ i ∈ heap.free, ∃ generation, heap.slots[i.toNat]? = some ⟨generation, none⟩

theorem WellFormed.spare {heap : Heap P} (hwf : heap.WellFormed) : heap.Spare :=
  ⟨hwf.nodup_free, fun i hi => (hwf.mem_free i).1 hi⟩

section

variable {start heap heap' : Heap P} {edits : Handle → Prop} {makes : ScriptObject P → Prop}
  {k : Handle} {object : ScriptObject P}

/-- An object keeps its slot when a new one is added, even if 32 bits do not tell the slots apart.
-/
theorem Spare.get?_allocate (hspare : heap.Spare) (hk : heap.get? k = some object)
    (other : ScriptObject P) : (heap.allocate other).2.get? k = some object := by
  have hslot := get?_eq_some_iff.1 hk
  rw [get?_eq_some_iff]
  cases hfree : heap.free with
  | nil =>
    have hlt := (Array.getElem?_eq_some_iff.1 hslot).1
    simp only [allocate, hfree]
    rw [Array.getElem?_push_lt hlt, ← Array.getElem?_eq_getElem hlt, hslot]
  | cons index free =>
    obtain ⟨generation, hempty⟩ := hspare.vacant index (hfree ▸ List.mem_cons_self)
    have hne : index.toNat ≠ k.index.toNat := by
      intro heq
      rw [heq, hslot] at hempty
      cases hempty
    simp only [allocate, hfree]
    rw [Array.getElem?_setIfInBounds_ne hne, hslot]

theorem Spare.allocate (hspare : heap.Spare) (object : ScriptObject P) :
    (heap.allocate object).2.Spare := by
  cases hfree : heap.free with
  | nil =>
    simp only [Heap.allocate, hfree]
    exact ⟨List.nodup_nil, by simp⟩
  | cons index free =>
    have hnodup := hspare.nodup
    rw [hfree, List.nodup_cons] at hnodup
    simp only [Heap.allocate, hfree]
    refine ⟨hnodup.2, fun i hi => ?_⟩
    obtain ⟨generation, hempty⟩ := hspare.vacant i (hfree ▸ List.mem_cons_of_mem _ hi)
    have hne : index.toNat ≠ i.toNat := by
      intro heq
      exact hnodup.1 (UInt32.toNat_inj.1 heq ▸ hi)
    exact ⟨generation, by rw [Array.getElem?_setIfInBounds_ne hne, hempty]⟩

theorem Change.spare (h : Change edits makes heap heap') (hspare : heap.Spare) : heap'.Spare := by
  cases h with
  | allocate => exact hspare.allocate _
  | @modify h f =>
    obtain ⟨object, hget, hmodify⟩ | ⟨-, hmodify⟩ := heap.modify_cases h f
    · have hslot := get?_eq_some_iff.1 hget
      rw [hmodify]
      refine ⟨hspare.nodup, fun i hi => ?_⟩
      obtain ⟨generation, hempty⟩ := hspare.vacant i hi
      -- the slot of the object is not an empty one
      have hne : h.index.toNat ≠ i.toNat := by
        intro heq
        rw [← heq, hslot] at hempty
        cases hempty
      exact ⟨generation, by rw [Array.getElem?_setIfInBounds_ne hne, hempty]⟩
    · rwa [hmodify]

theorem isSome_items? : (heap.items? k).isSome = true ↔ heap.nature? k = some (.array #[]) := by
  rw [items?, nature?]
  cases heap.get? k with
  | none => simp
  | some object =>
    obtain ⟨form, fields⟩ := object
    cases form <;> simp [ScriptObject.items?, ScriptObject.nature]

theorem Change.nature?_of_spare (h : Change edits makes heap heap') (hspare : heap.Spare)
    {form : ObjectForm P} (hk : heap.nature? k = some form) : heap'.nature? k = some form := by
  obtain ⟨object, hget, rfl⟩ := Option.map_eq_some_iff.1 hk
  cases h with
  | allocate => rw [nature?, hspare.get?_allocate hget, Option.map_some]
  | @modify h f _ hf =>
    rw [nature?, get?_modify]
    split
    · next hkh => rw [← hkh, hget, Option.map_some, Option.map_some, hf]
    · rw [hget, Option.map_some]

/-- The arrays that were there at the start are there, and new objects will not take their places.
-/
structure Lasting (start heap : Heap P) : Prop where
  spare : heap.Spare
  arrays : ∀ k, (start.items? k).isSome = true → (heap.items? k).isSome = true

theorem WellFormed.lasting (hwf : heap.WellFormed) : heap.Lasting heap := ⟨hwf.spare, fun _ => id⟩

theorem Lasting.changes (h : start.Lasting heap) (hchanges : Changes edits makes heap heap') :
    start.Lasting heap' := by
  induction hchanges with
  | refl => exact h
  | tail _ hchange ih =>
    exact ⟨hchange.spare ih.spare, fun k hk =>
      isSome_items?.2 (hchange.nature?_of_spare ih.spare (isSome_items?.1 (ih.arrays k hk)))⟩

end

/-! ## Storing -/

section

variable {start heap : Heap P} {a : Handle} {items : Array Value}

/-- What stands in a slot for a value is what storing the value puts there. -/
theorem store_of_slotOf? {v s : Value} (hlasting : start.Lasting heap)
    (hslot : start.slotOf? v = some s) : (heap.store v).1 = s := by
  cases v with
  | array origin values =>
    cases origin with
    | none => simp [slotOf?] at hslot
    | some k =>
      simp only [slotOf?, Option.ite_none_right_eq_some, Option.some.injEq] at hslot
      obtain ⟨slots, hslots⟩ := Option.isSome_iff_exists.1
        ((hlasting.changes (heap.changes_storeAll values)).arrays k hslot.1)
      simp only [store, storeArray_of_items? hslots, hslot.2]
  | _ => exact Option.some.inj hslot

theorem storeAll_of_slotOf? {copy slots : List Value} (hlasting : start.Lasting heap)
    (hcopy : copy.map start.slotOf? = slots.map some) : (heap.storeAll copy).1 = slots := by
  induction copy generalizing heap slots with
  | nil =>
    cases slots with
    | nil => rfl
    | cons s slots => simp at hcopy
  | cons v copy ih =>
    cases slots with
    | nil => simp at hcopy
    | cons s slots =>
      rw [List.map_cons, List.map_cons, List.cons.injEq] at hcopy
      simp only [storeAll]
      rw [store_of_slotOf? hlasting hcopy.1, ih (hlasting.changes (heap.changes_store v)) hcopy.2]

/-- An array is left alone when items are stored that do not come from it. -/
theorem items?_storeArray_of_ne (hspare : heap.Spare) {origin : Option Handle} {slots : List Value}
    (ha : (heap.items? a).isSome = true) (hne : origin ≠ some a) :
    (heap.storeArray origin slots).2.items? a = heap.items? a := by
  obtain ⟨k, inner, rfl, -, hstore⟩ | ⟨-, hstore⟩ := heap.storeArray_cases origin slots
  · rw [hstore, items?_modify_mapItems, if_neg fun hak => hne (congrArg some hak.symm)]
  · obtain ⟨inner, hinner⟩ := Option.isSome_iff_exists.1 ha
    obtain ⟨fields, hget⟩ := get?_of_items? hinner
    rw [hstore, items?, items?, hspare.get?_allocate hget, hget]

mutual

theorem follows_store (start heap : Heap P) (v : Value) (hlasting : start.Lasting heap)
    (ha : start.items? a = some items) :
    start.Follows a items v.copies heap (heap.store v).2 := by
  cases v with
  | array origin values =>
    have hlasting' := hlasting.changes (heap.changes_storeAll values)
    have hlive := hlasting'.arrays a (by rw [ha, Option.isSome_some])
    refine (follows_storeAll start heap values hlasting ha).append ?_
    by_cases horigin : origin = some a
    -- the array itself is written
    · subst horigin
      obtain ⟨slots, hslots⟩ := Option.isSome_iff_exists.1 hlive
      refine ⟨by simp, fun copy hcopy hcurrent => ?_⟩
      obtain rfl : values = copy := by simpa using hcopy
      have hstored := storeAll_of_slotOf? hlasting hcurrent
      simp only [store, storeArray_of_items? hslots, items?_modify_mapItems, hslots, hstored]
      rfl
    · have hnone : (origin.toList.map fun k => (k, values)).reverse.lookup a = none := by
        cases origin with
        | none => rfl
        | some k => simp [List.lookup_cons, beq_false_of_ne fun hak : a = k => horigin (hak ▸ rfl)]
      exact ⟨fun _ => items?_storeArray_of_ne hlasting'.spare hlive horigin,
        fun copy hcopy => by rw [hnone] at hcopy; cases hcopy⟩
  | _ => exact .refl

theorem follows_storeAll (start heap : Heap P) (vs : List Value) (hlasting : start.Lasting heap)
    (ha : start.items? a = some items) :
    start.Follows a items (Value.copiesOf vs) heap (heap.storeAll vs).2 := by
  cases vs with
  | nil => exact .refl
  | cons v vs =>
    exact (follows_store start heap v hlasting ha).append
      (follows_storeAll start _ vs (hlasting.changes (heap.changes_store v)) ha)

end

/-- An array holds what it held after a value has been stored, unless the last copy of it in the
value carries something else. -/
theorem items?_store (hwf : heap.WellFormed) {v : Value} (ha : heap.items? a = some items)
    (hlast : ∀ copy, v.lastCopy? a = some copy → heap.Current copy items) :
    (heap.store v).2.items? a = some items := by
  have hfollows := follows_store heap heap v hwf.lasting ha
  cases hcopy : v.lastCopy? a with
  | none => rw [hfollows.without hcopy, ha]
  | some copy => exact hfollows.last copy hcopy (hlast copy hcopy)

end

end Heap

end ScriptBridge
