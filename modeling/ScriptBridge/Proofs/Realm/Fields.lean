import ScriptBridge.Proofs.Heap.Storing
import ScriptBridge.Proofs.Realm.Copying

/-!
# Writing a Field and Reading It

A name that no class binds is a field of the object. A value that is written there goes through two
conversions before it is read again: its arrays become arrays of the heap, and these are expanded
together with the arrays that were there. Both together add the handles of the new arrays to the value
and do not change anything else about it.

Main statement: `Reachable.exists_fieldWritten`.
-/

namespace ScriptBridge.Realm

variable {P : Platform} {r : Realm P} {h : Handle} {object : ScriptObject P} {name : String} {v : Value}

/-- A realm after a value has been written into a field of an object, for which some arrays have been
made. -/
structure FieldWritten (r : Realm P) (h : Handle) (name : String) (v : Value) (made : List Handle)
    (r' : Realm P) : Prop where
  /-- There is an array for each array in the value. -/
  count : made.length = v.arrayCount
  /-- The arrays are different ones. -/
  nodup : made.Nodup
  /-- No handle leads to one of them that had been given out before. -/
  new : ∀ k ∈ made, ¬r.heap.Issued k
  /-- They are arrays. -/
  arrays : ∀ k ∈ made, (r'.heap.items? k).isSome = true
  /-- There are no more new objects than these. -/
  live : r'.heap.live = r.heap.live + v.arrayCount
  /-- All other objects are what they were, and what was dead is dead. -/
  others : ∀ k, k ∉ made → k ≠ h → r'.heap.get? k = r.heap.get? k
  /-- Of the object itself one field has changed. -/
  object : ∃ object slot, r.heap.get? h = some object ∧
    r'.heap.get? h = some (object.setField name slot)
  /-- Nothing but the heap has changed. -/
  rest : r' = { r with collector := { r.collector with heap := r'.heap } }
  /-- What is read is what the value would have been expanded into before, with the new arrays as
  origins. -/
  read : ∃ w, (r.expand v).withOrigins made = (w, []) ∧ r'.property h name = .ok w

/-- What stands in a field is read when no class binds its name. -/
theorem property_setField {r' : Realm P} {slot : Value} (hregistry : r'.registry = r.registry)
    (hget : r'.heap.get? h = some (object.setField name slot)) (hfree : r.binding? object name = none)
    (hlength : object.items?.isSome = true → name ≠ "length") :
    r'.property h name = .ok (r'.expand slot) := by
  have hfree' : r'.binding? (object.setField name slot) name = none := by
    rw [binding?, hregistry]
    exact hfree
  apply property_of_field hget hfree' hlength
  rw [ScriptObject.setField, Table.find?_insert, if_pos rfl]

/-- **Writing a field and reading it.** A value without origins is accepted as a field of any object, as
long as 32 bits tell the slots apart. One new array is made for each array in it, nothing else changes
but this field, and what is read back is what the value would have been expanded into before the write,
with the new arrays as origins. -/
theorem Reachable.exists_fieldWritten (hr : r.Reachable) (hitems : r.heap.ItemsIssued)
    (hget : r.heap.get? h = some object) (hfree : r.binding? object name = none)
    (hlength : object.items?.isSome = true → name ≠ "length")
    (hv : ∀ k ∈ v.handles, r.heap.Issued k) (hdetached : v.Detached)
    (hroom : r.heap.HasRoom v.arrayCount) :
    answer (assignProperty h name v) r = .ok () ∧
    ∃ made, r.FieldWritten h name v made (after (assignProperty h name v) r) := by
  obtain ⟨made, hcount, hadds, hlaid⟩ :=
    Heap.exists_laid_store hr.sound.wellFormed hdetached hroom
  have hrun := run_putField hget hfree hlength v false
  refine ⟨congrArg Prod.fst hrun, made, ?_⟩
  obtain ⟨r', hr'⟩ : ∃ r', r' = (r.store v).2.modifyObject h (·.setField name (r.store v).1) :=
    ⟨_, rfl⟩
  have hheap : r'.heap = (r.heap.store v).2.modify h (·.setField name (r.heap.store v).1) := by
    rw [hr']
    rfl
  have hitems' : ∀ k, r'.heap.items? k = (r.heap.store v).2.items? k := by
    intro k
    rw [hheap, items?_modify_setField]
  -- the object is not one of the new arrays
  have hold : h ∉ made := fun hmade => hadds.new h hmade (Heap.issued_of_get? hget)
  have hwritten : r'.heap.get? h = some (object.setField name (r.heap.store v).1) := by
    rw [hheap, Heap.get?_modify, if_pos rfl, hadds.others h hold, hget, Option.map_some]
  rw [show after (assignProperty h name v) r = r' from (congrArg Prod.snd hrun).trans hr'.symm]
  constructor
  case count => exact hcount
  case nodup => exact hadds.nodup
  case new => exact hadds.new
  case arrays =>
    intro k hk
    rw [hitems']
    exact hadds.arrays k hk
  case live => rw [hheap, Heap.live_modify, Heap.live_store _ hdetached]
  case others =>
    intro k hk hkh
    rw [hheap, Heap.get?_modify, if_neg hkh, hadds.others k hk]
  case object => exact ⟨object, _, hget, hwritten⟩
  case rest =>
    rw [hr']
    rfl
  case read =>
    have hregistry : r'.registry = r.registry := by rw [hr']; rfl
    have hread : (r.expand v).withOrigins (made ++ []) = (r'.expand (r.heap.store v).1, []) :=
      (hlaid.kept fun k _ => hitems' k).read hitems
        (fun k hk => (hitems' k).trans (hadds.items?_of_issued hk)) hv
        ⟨hadds.nodup, hadds.new, by simp⟩ []
    rw [List.append_nil] at hread
    exact ⟨_, hread, property_setField hregistry hwritten hfree hlength⟩

theorem itemsIssued_ofArrays : ofArrays.heap.ItemsIssued := by
  have hglobals : ofArrays.heap.items? ⟨0, 0⟩ = none := by cbv
  have hone : ofArrays.heap.items? ⟨1, 0⟩ = some #[.int 7] := by cbv
  have htwo : ofArrays.heap.items? ⟨2, 0⟩ = some #[.object ⟨1, 0⟩, .object ⟨1, 0⟩] := by cbv
  have hthree : ofArrays.heap.items? ⟨3, 0⟩ = some #[.int 1, .object ⟨3, 0⟩] := by cbv
  have hobject : ofArrays.heap.items? ⟨4, 0⟩ = none := by cbv
  have hlive : ofArrays.heap.handles = [⟨0, 0⟩, ⟨1, 0⟩, ⟨2, 0⟩, ⟨3, 0⟩, ⟨4, 0⟩] := by cbv
  intro a items ha v hv k hk
  obtain ⟨fields, hget⟩ := Heap.get?_of_items? ha
  have hmem := Heap.mem_handles_of_get? hget
  -- every handle in an array leads to an array
  apply Heap.issued_of_items?
  simp only [hlive, List.mem_cons, List.not_mem_nil, or_false] at hmem
  rcases hmem with rfl | rfl | rfl | rfl | rfl
  · simp [hglobals] at ha
  · obtain rfl := Option.some.inj (hone.symm.trans ha)
    simp at hv
    simp [hv, Value.handles] at hk
  · obtain rfl := Option.some.inj (htwo.symm.trans ha)
    simp at hv
    simp [hv, Value.handles] at hk
    simp [hk, hone]
  · obtain rfl := Option.some.inj (hthree.symm.trans ha)
    simp at hv
    rcases hv with rfl | rfl <;> simp [Value.handles] at hk
    simp [hk, hthree]
  · simp [hobject] at ha

/-- A new array that has the array that contains itself in it, and another new one, is read back with
both new arrays as origins. -/
theorem exists_fieldWritten_ofArrays :
    ofArrays.Reachable ∧ ofArrays.heap.ItemsIssued ∧
    ofArrays.heap.get? ⟨4, 0⟩ = some (.ofForm .plain) ∧
    ∃ made, ofArrays.FieldWritten ⟨4, 0⟩ "list"
      (.array none [.object ⟨3, 0⟩, .array none [.object ⟨2, 0⟩], .int 5]) made
      (after (assignProperty ⟨4, 0⟩ "list"
        (.array none [.object ⟨3, 0⟩, .array none [.object ⟨2, 0⟩], .int 5])) ofArrays) := by
  have hobject : ofArrays.heap.get? ⟨4, 0⟩ = some (.ofForm .plain) := by cbv
  have hcapacity : ofArrays.heap.capacity = 5 := by cbv
  have hfree : ofArrays.heap.free = [] := by cbv
  have hissued : ∀ k ∈ [(⟨3, 0⟩ : Handle), ⟨2, 0⟩], ofArrays.heap.Issued k := by
    intro k hk
    rcases List.mem_pair.1 hk with rfl | rfl
    · exact Heap.issued_of_items? (by cbv)
    · exact Heap.issued_of_items? (by cbv)
  refine ⟨reachable_ofArrays, itemsIssued_ofArrays, hobject,
    (reachable_ofArrays.exists_fieldWritten
      (v := .array none [.object ⟨3, 0⟩, .array none [.object ⟨2, 0⟩], .int 5])
      itemsIssued_ofArrays hobject rfl (fun hitems => absurd hitems Bool.false_ne_true) hissued
      rfl ?_).2⟩
  rw [Heap.HasRoom, hcapacity, hfree]
  decide

end ScriptBridge.Realm
