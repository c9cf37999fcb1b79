import ScriptBridge.Proofs.Heap.Copies
import ScriptBridge.Proofs.Heap.Expansion

/-!
# Storing new Values

A value whose arrays have no origins makes an array of the heap for each of them, inner arrays first,
and leaves everything else alone. What is read back is what the value would have been expanded into
beforehand, where each of its arrays now carries the handle of the array that was made for it. This is
so because no handle that was given out leads to one of the new arrays.

Main statements: `get?_store_of_detached` and `live_store` (nothing else is touched, and the arrays are
counted), `exists_laid_store` (each array of the value has its place) and `Laid.read` (what is read
back).
-/

namespace ScriptBridge

variable {P : Platform}

/-! ## Values without Origins -/

namespace Value

/-- No array in a value has an origin: there is no copy of an array of the heap in it. -/
def Detached (v : Value) : Prop := v.copies = []

theorem copiesOf_eq_nil_iff {vs : List Value} : copiesOf vs = [] ↔ ∀ v ∈ vs, v.Detached := by
  induction vs with
  | nil => simp [copiesOf]
  | cons v vs ih => simp [copiesOf, ih, Detached]

theorem detached_array_iff {origin : Option Handle} {items : List Value} :
    (array origin items).Detached ↔ origin = none ∧ ∀ v ∈ items, v.Detached := by
  rw [Detached, copies, List.append_eq_nil_iff, copiesOf_eq_nil_iff, List.map_eq_nil_iff,
    Option.toList_eq_nil_iff, and_comm]

theorem detached_of_isInline {v : Value} (h : v.isInline = false) : v.Detached := by
  cases v <;> first | rfl | cases h

mutual

/-- The number of arrays in a value. -/
def arrayCount : Value → Nat
  | array _ items => arrayCountOf items + 1
  | _ => 0

/-- The number of arrays in several values. -/
def arrayCountOf : List Value → Nat
  | [] => 0
  | v :: vs => arrayCount v + arrayCountOf vs

end

mutual

/-- Gives the arrays of a value that have no origin a handle each as their origin, inner arrays before
the outer one, and tells which handles are left over. -/
def withOrigins : Value → List Handle → Value × List Handle
  | array none items, handles =>
    let (items, handles) := withOriginsAll items handles
    (array handles.head? items, handles.tail)
  | v, handles => (v, handles)

/-- Gives the arrays of several values handles, those of the first one first. -/
def withOriginsAll : List Value → List Handle → List Value × List Handle
  | [], handles => ([], handles)
  | v :: vs, handles =>
    let (v, handles) := withOrigins v handles
    let (vs, handles) := withOriginsAll vs handles
    (v :: vs, handles)

end

theorem mem_handles_of_item {origin : Option Handle} {items : List Value} {v : Value} {k : Handle}
    (hv : v ∈ items) (hk : k ∈ v.handles) : k ∈ (array origin items).handles := by
  rw [handles, handlesList_eq_flatMap]
  exact List.mem_append_right _ (List.mem_flatMap.2 ⟨v, hv, hk⟩)

end Value

namespace Heap

section

variable {edits : Handle → Prop} {makes : ScriptObject P → Prop} {heap heap' middle : Heap P}
  {made more : List Handle} {k : Handle} {object : ScriptObject P}

/-! ## What is There Stays There -/

theorem Changes.spare (h : Changes edits makes heap heap') (hspare : heap.Spare) : heap'.Spare := by
  induction h with
  | refl => exact hspare
  | tail _ hchange ih => exact hchange.spare ih

mutual

/-- Storing a value without origins leaves every object as it is, even if 32 bits do not tell the slots
apart. -/
theorem get?_store_of_detached {heap : Heap P} {v : Value} (hspare : heap.Spare) (hv : v.Detached)
    (hk : heap.get? k = some object) : (heap.store v).2.get? k = some object := by
  cases v with
  | array origin items =>
    obtain ⟨rfl, hitems⟩ := Value.detached_array_iff.1 hv
    have hinner := get?_storeAll_of_detached hspare hitems hk
    exact ((heap.changes_storeAll items).spare hspare).get?_allocate hinner _
  | _ => exact hk

theorem get?_storeAll_of_detached {heap : Heap P} {vs : List Value} (hspare : heap.Spare)
    (hvs : ∀ v ∈ vs, v.Detached) (hk : heap.get? k = some object) :
    (heap.storeAll vs).2.get? k = some object := by
  cases vs with
  | nil => exact hk
  | cons v vs =>
    have hfirst := get?_store_of_detached hspare (hvs v List.mem_cons_self) hk
    apply get?_storeAll_of_detached ((heap.changes_store v).spare hspare) _ hfirst
    exact fun w hw => hvs w (List.mem_cons_of_mem v hw)

end

theorem live_allocate (heap : Heap P) (object : ScriptObject P) :
    (heap.allocate object).2.live = heap.live + 1 := by
  unfold allocate
  split <;> rfl

theorem live_modify (heap : Heap P) (h : Handle) (f : ScriptObject P → ScriptObject P) :
    (heap.modify h f).live = heap.live := by
  unfold modify
  split <;> rfl

mutual

/-- One object is added for each array in the value. -/
theorem live_store (heap : Heap P) {v : Value} (hv : v.Detached) :
    (heap.store v).2.live = heap.live + v.arrayCount := by
  cases v with
  | array origin items =>
    obtain ⟨rfl, hitems⟩ := Value.detached_array_iff.1 hv
    have hinner := live_storeAll heap hitems
    simp only [store, storeArray, Option.bind_none, live_allocate, hinner, Value.arrayCount]
    omega
  | _ => rfl

theorem live_storeAll (heap : Heap P) {vs : List Value} (hvs : ∀ v ∈ vs, v.Detached) :
    (heap.storeAll vs).2.live = heap.live + Value.arrayCountOf vs := by
  cases vs with
  | nil => rfl
  | cons v vs =>
    have hfirst := live_store heap (hvs v List.mem_cons_self)
    have hrest := live_storeAll (heap.store v).2 fun w hw => hvs w (List.mem_cons_of_mem v hw)
    simp only [storeAll, hrest, hfirst, Value.arrayCountOf]
    omega

end

/-! ## New Arrays -/

/-- Arrays have been added to a heap, and nothing else has happened to it. -/
structure Adds (heap : Heap P) (made : List Handle) (heap' : Heap P) : Prop where
  wellFormed : heap'.WellFormed
  nodup : made.Nodup
  new : ∀ k ∈ made, ¬heap.Issued k
  arrays : ∀ k ∈ made, (heap'.items? k).isSome = true
  others : ∀ k, k ∉ made → heap'.get? k = heap.get? k
  issued : ∀ k, heap.Issued k → heap'.Issued k
  room : ∀ n, heap.HasRoom (made.length + n) → heap'.HasRoom n

theorem issued_of_items? (hk : (heap.items? k).isSome = true) : heap.Issued k := by
  obtain ⟨items, hitems⟩ := Option.isSome_iff_exists.1 hk
  obtain ⟨fields, hget⟩ := get?_of_items? hitems
  exact issued_of_get? hget

theorem Adds.refl (hwf : heap.WellFormed) : heap.Adds [] heap where
  wellFormed := hwf
  nodup := List.nodup_nil
  new := by simp
  arrays := by simp
  others := fun _ _ => rfl
  issued := fun _ => id
  room := fun n hroom => by simpa using hroom

/-- What has been added first has been given out when the rest is added. -/
theorem Adds.not_mem (h : heap.Adds made middle) (h' : middle.Adds more heap') (hk : k ∈ made) :
    k ∉ more := fun hmore => h'.new k hmore (issued_of_items? (h.arrays k hk))

theorem Adds.items? (h : heap.Adds made heap') (hk : k ∉ made) : heap'.items? k = heap.items? k := by
  rw [Heap.items?, h.others k hk, Heap.items?]

theorem Adds.items?_of_issued (h : heap.Adds made heap') (hk : heap.Issued k) :
    heap'.items? k = heap.items? k := h.items? fun hmade => h.new k hmade hk

theorem Adds.trans (h : heap.Adds made middle) (h' : middle.Adds more heap') :
    heap.Adds (made ++ more) heap' where
  wellFormed := h'.wellFormed
  nodup := List.nodup_append.2 ⟨h.nodup, h'.nodup, fun a ha b hb hab => h.not_mem h' ha (hab ▸ hb)⟩
  new := by
    intro k hk hissued
    rcases List.mem_append.1 hk with hk | hk
    · exact h.new k hk hissued
    · exact h'.new k hk (h.issued k hissued)
  arrays := by
    intro k hk
    rcases List.mem_append.1 hk with hk | hk
    · rw [h'.items? (h.not_mem h' hk)]
      exact h.arrays k hk
    · exact h'.arrays k hk
  others := by
    intro k hk
    rw [List.mem_append, not_or] at hk
    rw [h'.others k hk.2, h.others k hk.1]
  issued := fun k hk => h'.issued k (h.issued k hk)
  room := by
    intro n hroom
    rw [List.length_append, Nat.add_assoc] at hroom
    exact h'.room n (h.room _ hroom)

theorem items?_allocate_self (hwf : heap.WellFormed) (hroom : heap.HasRoom 1) (items : Array Value) :
    (heap.allocate (.ofForm (.array items))).2.items?
      (heap.allocate (.ofForm (.array items))).1 = some items := by
  rw [Heap.items?, hwf.get?_allocate hroom, if_pos rfl]
  rfl

theorem adds_allocate (hwf : heap.WellFormed) (hroom : heap.HasRoom 1) (items : Array Value) :
    heap.Adds [(heap.allocate (.ofForm (.array items))).1]
      (heap.allocate (.ofForm (.array items))).2 where
  wellFormed := hwf.allocate hroom _
  nodup := List.nodup_singleton _
  new := by
    intro k hk
    rw [List.mem_singleton.1 hk]
    exact hwf.not_issued_allocate hroom _
  arrays := by
    intro k hk
    rw [List.mem_singleton.1 hk, items?_allocate_self hwf hroom, Option.isSome_some]
  others := by
    intro k hk
    rw [hwf.get?_allocate hroom, if_neg fun h => hk (List.mem_singleton.2 h)]
  issued := by
    intro k hk
    have hchange : Change (fun _ => True) (fun _ => True) heap
        (heap.allocate (.ofForm (.array items))).2 := .allocate trivial
    exact hchange.issued hwf (hwf.allocate hroom _).bounded hk
  room := by
    intro n hroom
    rw [List.length_singleton, Nat.add_comm] at hroom
    exact hroom.allocate _

/-! ## Where the Items Are -/

mutual

/-- How a value without origins stands in a slot: for each of its arrays there is an array of the heap
among those that were made, whose items stand for the items of the value's array. -/
inductive Laid (heap : Heap P) : Value → List Handle → Value → Prop
  | same {v : Value} : v.isInline = false → Laid heap v [] v
  | array {items slots : List Value} {made : List Handle} {a : Handle} :
      LaidAll heap items made slots → heap.items? a = some slots.toArray →
      Laid heap (.array none items) (made ++ [a]) (.object a)

/-- How several values without origins stand in slots. -/
inductive LaidAll (heap : Heap P) : List Value → List Handle → List Value → Prop
  | nil : LaidAll heap [] [] []
  | cons {v slot : Value} {vs slots : List Value} {first rest : List Handle} :
      Laid heap v first slot → LaidAll heap vs rest slots →
      LaidAll heap (v :: vs) (first ++ rest) (slot :: slots)

end

mutual

/-- Values go on standing where they are as long as the arrays that were made for them hold what they
hold. -/
theorem Laid.kept {v slot : Value} {made : List Handle} (h : heap.Laid v made slot)
    (hkept : ∀ k ∈ made, heap'.items? k = heap.items? k) : heap'.Laid v made slot := by
  cases h with
  | same hv => exact .same hv
  | array hitems ha =>
    have hinner := LaidAll.kept hitems fun k hk => hkept k (List.mem_append_left _ hk)
    exact .array hinner ((hkept _ (List.mem_append_right _ (List.mem_singleton_self _))).trans ha)

theorem LaidAll.kept {vs slots : List Value} {made : List Handle} (h : heap.LaidAll vs made slots)
    (hkept : ∀ k ∈ made, heap'.items? k = heap.items? k) : heap'.LaidAll vs made slots := by
  cases h with
  | nil => exact .nil
  | cons hfirst hrest =>
    exact .cons (Laid.kept hfirst fun k hk => hkept k (List.mem_append_left _ hk))
      (LaidAll.kept hrest fun k hk => hkept k (List.mem_append_right _ hk))

end

mutual

/-- Storing a value without origins adds as many arrays as there are in it, and nothing else happens. -/
theorem exists_laid_store {heap : Heap P} {v : Value} (hwf : heap.WellFormed) (hv : v.Detached)
    (hroom : heap.HasRoom v.arrayCount) :
    ∃ made, made.length = v.arrayCount ∧ heap.Adds made (heap.store v).2 ∧
      (heap.store v).2.Laid v made (heap.store v).1 := by
  cases v with
  | array origin items =>
    obtain ⟨rfl, hitems⟩ := Value.detached_array_iff.1 hv
    rw [Value.arrayCount] at hroom
    obtain ⟨made, hlength, hadds, hlaid⟩ :=
      exists_laid_storeAll hwf hitems (hroom.mono (Nat.le_succ _))
    -- the room that is left is for the outer array
    have hlast := adds_allocate hadds.wellFormed (hadds.room 1 (hlength ▸ hroom))
      (heap.storeAll items).1.toArray
    refine ⟨made ++ [_], ?_, hadds.trans hlast, .array (hlaid.kept fun k hk => ?_) ?_⟩
    · rw [List.length_append, hlength, List.length_singleton, Value.arrayCount]
    · exact hlast.items? (hadds.not_mem hlast hk)
    · exact items?_allocate_self hadds.wellFormed (hadds.room 1 (hlength ▸ hroom)) _
  | _ => exact ⟨[], rfl, .refl hwf, .same rfl⟩

theorem exists_laid_storeAll {heap : Heap P} {vs : List Value} (hwf : heap.WellFormed)
    (hvs : ∀ v ∈ vs, v.Detached) (hroom : heap.HasRoom (Value.arrayCountOf vs)) :
    ∃ made, made.length = Value.arrayCountOf vs ∧ heap.Adds made (heap.storeAll vs).2 ∧
      (heap.storeAll vs).2.LaidAll vs made (heap.storeAll vs).1 := by
  cases vs with
  | nil => exact ⟨[], rfl, .refl hwf, .nil⟩
  | cons v vs =>
    rw [Value.arrayCountOf] at hroom
    obtain ⟨first, hfirst, hadds, hlaid⟩ :=
      exists_laid_store hwf (hvs v List.mem_cons_self) (hroom.mono (Nat.le_add_right _ _))
    obtain ⟨rest, hrest, hmore, hothers⟩ := exists_laid_storeAll hadds.wellFormed
      (fun w hw => hvs w (List.mem_cons_of_mem v hw)) (hadds.room _ (hfirst ▸ hroom))
    refine ⟨first ++ rest, ?_, hadds.trans hmore, .cons (hlaid.kept fun k hk => ?_) hothers⟩
    · rw [List.length_append, hfirst, hrest, Value.arrayCountOf]
    · exact hmore.items? (hadds.not_mem hmore hk)

end

end

/-! ## Reading back -/

section

variable {old later : Heap P} {path path' : List Handle} {v : Value}

/-- The handles in the items of arrays have all been given out. -/
def ItemsIssued (heap : Heap P) : Prop :=
  ∀ a items, heap.items? a = some items → ∀ v ∈ items.toList, ∀ k ∈ v.handles, heap.Issued k

/-- A value of which all handles had been given out is expanded as it was, if the arrays of then hold
what they held. It does not matter which new arrays one is in. -/
theorem expandOn_of_issued (hold : old.ItemsIssued)
    (hkept : ∀ k, old.Issued k → later.items? k = old.items? k)
    (hv : ∀ k ∈ v.handles, old.Issued k) (hpath : ∀ k, old.Issued k → (k ∈ path' ↔ k ∈ path)) :
    later.expandOn path' v = old.expandOn path v := by
  induction old.expands path v generalizing path' with
  | @leaf path v hleaf hnone =>
    have hnone' : ∀ h, v = .object h → later.items? h = none := by
      rintro h rfl
      rw [hkept h (hv h (by simp [Value.handles])), hnone h rfl]
    rw [expandOn_of_items?_eq_none hleaf hnone, expandOn_of_items?_eq_none hleaf hnone']
  | @cut path a items ha hmem =>
    have hissued : old.Issued a := hv a (by simp [Value.handles])
    rw [expandOn_of_mem ha hmem,
      expandOn_of_mem ((hkept a hissued).trans ha) ((hpath a hissued).2 hmem)]
  | @enter path a items ha hmem _ ih =>
    have hissued : old.Issued a := hv a (by simp [Value.handles])
    have hpath' : ∀ k, old.Issued k → (k ∈ a :: path' ↔ k ∈ a :: path) := by
      intro k hk
      rw [List.mem_cons, List.mem_cons, hpath k hk]
    rw [expandOn_of_not_mem ha hmem, expandOn_of_not_mem ((hkept a hissued).trans ha)
      (fun h => hmem ((hpath a hissued).1 h))]
    rw [List.map_congr_left fun w hw => ih w hw (hold a items ha w hw) hpath']
  | @inline path origin items _ ih =>
    rw [expandOn_array, expandOn_array, List.map_congr_left fun w hw =>
      ih w hw (fun k hk => hv k (Value.mem_handles_of_item hw hk)) hpath]

/-- There is no array without a handle in what comes of a value without items, so nothing is given
an origin. -/
theorem withOrigins_expandOn (hv : v.isInline = false) (handles : List Handle) :
    (old.expandOn path v).withOrigins handles = (old.expandOn path v, handles) := by
  cases old.expands path v with
  | leaf hleaf hnone =>
    rw [expandOn_of_items?_eq_none hleaf hnone]
    cases v <;> first | rfl | cases hv
  | cut ha hmem =>
    rw [expandOn_of_mem ha hmem]
    rfl
  | enter ha hmem =>
    rw [expandOn_of_not_mem ha hmem]
    rfl
  | inline => cases hv

/-- New arrays that are told apart, from each other and from the arrays on the path, none of which had
been given out either. -/
structure Apart (old : Heap P) (path made : List Handle) : Prop where
  nodup : made.Nodup
  new : ∀ k ∈ made, ¬old.Issued k
  path : ∀ k ∈ path, ¬old.Issued k ∧ k ∉ made

theorem Apart.left {first rest : List Handle} (h : old.Apart path (first ++ rest)) :
    old.Apart path first where
  nodup := (List.nodup_append.1 h.nodup).1
  new := fun k hk => h.new k (List.mem_append_left rest hk)
  path := fun k hk => ⟨(h.path k hk).1, fun hmem => (h.path k hk).2 (List.mem_append_left rest hmem)⟩

theorem Apart.right {first rest : List Handle} (h : old.Apart path (first ++ rest)) :
    old.Apart path rest where
  nodup := (List.nodup_append.1 h.nodup).2.1
  new := fun k hk => h.new k (List.mem_append_right first hk)
  path := fun k hk => ⟨(h.path k hk).1, fun hmem => (h.path k hk).2 (List.mem_append_right first hmem)⟩

/-- Inside of a new array the arrays that were made before it are new to the path still. -/
theorem Apart.inside {inner : List Handle} {a : Handle} (h : old.Apart path (inner ++ [a])) :
    old.Apart (a :: path) inner where
  nodup := h.left.nodup
  new := h.left.new
  path := by
    intro k hk
    rcases List.mem_cons.1 hk with rfl | hk
    · have hdisjoint := (List.nodup_append.1 h.nodup).2.2
      exact ⟨h.new k (by simp), fun hinner => hdisjoint k hinner k (List.mem_singleton_self k) rfl⟩
    · exact h.left.path k hk

mutual

/-- What is read back is what the value was expanded into before, with the new arrays as the origins of
its arrays. -/
theorem Laid.read {path made : List Handle} {v slot : Value} (h : later.Laid v made slot)
    (hold : old.ItemsIssued) (hkept : ∀ k, old.Issued k → later.items? k = old.items? k)
    (hv : ∀ k ∈ v.handles, old.Issued k) (hapart : old.Apart path made) (handles : List Handle) :
    (old.expandOn [] v).withOrigins (made ++ handles) = (later.expandOn path slot, handles) := by
  cases h with
  | same hleaf =>
    have hsame : later.expandOn path v = old.expandOn [] v :=
      expandOn_of_issued hold hkept hv fun k hk =>
        ⟨fun hmem => absurd hk (hapart.path k hmem).1, fun hmem => absurd hmem List.not_mem_nil⟩
    rw [withOrigins_expandOn hleaf, hsame, List.nil_append]
  | @array items slots inner a hitems ha =>
    have houtside : a ∉ path := fun hpath => (hapart.path a hpath).2 (by simp)
    have hinner := LaidAll.read hitems hold hkept
      (fun w hw k hk => hv k (Value.mem_handles_of_item hw hk)) hapart.inside (a :: handles)
    -- the outer array takes the handle that the inner ones leave
    rw [expandOn_array, expandOn_of_not_mem ha houtside, List.append_assoc, List.singleton_append]
    simp only [Value.withOrigins, hinner, List.head?_cons, List.tail_cons]

theorem LaidAll.read {path made : List Handle} {vs slots : List Value}
    (h : later.LaidAll vs made slots) (hold : old.ItemsIssued)
    (hkept : ∀ k, old.Issued k → later.items? k = old.items? k)
    (hvs : ∀ v ∈ vs, ∀ k ∈ v.handles, old.Issued k) (hapart : old.Apart path made)
    (handles : List Handle) :
    Value.withOriginsAll (vs.map (old.expandOn [])) (made ++ handles) =
      (slots.map (later.expandOn path), handles) := by
  cases h with
  | nil => rfl
  | @cons v slot vs slots first rest hfirst hrest =>
    have hleft := Laid.read hfirst hold hkept (hvs v List.mem_cons_self) hapart.left (rest ++ handles)
    have hright := LaidAll.read hrest hold hkept (fun w hw => hvs w (List.mem_cons_of_mem v hw))
      hapart.right handles
    simp only [List.map_cons, Value.withOriginsAll, List.append_assoc, hleft, hright]

end

end

end Heap

end ScriptBridge
