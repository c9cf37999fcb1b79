import ScriptBridge.Proofs.Heap.Changes
import ScriptBridge.Heap.Arrays
import Mathlib.Logic.Relation

/-!
# Writing Back

A value that has been read carries the items of its arrays along, and storing it puts them back
where they come from. An array that stands in several places is written several times, inner
arrays before outer ones, and the last write counts. Where arrays contain themselves the copies
are cut in different places; then some array is left with a null that was not there before.

Main statements: `store_expand_of_acyclic` and `acyclic_of_store_expand`.
-/

namespace ScriptBridge

open Relation (ReflTransGen TransGen)

variable {P : Platform}

namespace Heap

/-! ## Arrays inside of arrays -/

/-- The items of the array behind a handle. -/
def items? (heap : Heap P) (h : Handle) : Option (Array Value) :=
  (heap.get? h).bind ScriptObject.items?

/-- An array is an item of another one. -/
def Nests (heap : Heap P) (a b : Handle) : Prop :=
  ∃ items inner, heap.items? a = some items ∧ .object b ∈ items.toList ∧ heap.items? b = some inner

/-- An array is what a value refers to, or lies inside of that. -/
def Spans (heap : Heap P) (v : Value) (a : Handle) : Prop :=
  ∃ b items, v = .object b ∧ heap.items? b = some items ∧ ReflTransGen heap.Nests b a

/-- No array contains itself among those that a value refers to and those inside of them. -/
def Acyclic (heap : Heap P) (v : Value) : Prop := ∀ a, heap.Spans v a → ¬TransGen heap.Nests a a

section

variable {heap : Heap P} {path : List Handle} {a b : Handle} {items : Array Value} {v : Value}

theorem get?_of_items? (hitems : heap.items? a = some items) :
    ∃ fields, heap.get? a = some ⟨.array items, fields⟩ := by
  obtain ⟨⟨form, fields⟩, hget, hform⟩ := Option.bind_eq_some_iff.1 hitems
  cases form with
  | array items' =>
    obtain rfl := Option.some.inj hform
    exact ⟨fields, hget⟩
  | _ => simp [ScriptObject.items?] at hform

theorem Spans.item (hitems : heap.items? a = some items) (hv : v ∈ items.toList)
    (hspans : heap.Spans v b) : heap.Spans (.object a) b := by
  obtain ⟨c, inner, rfl, hinner, hreach⟩ := hspans
  exact ⟨a, items, rfl, hitems, .head ⟨items, inner, hitems, hv, hinner⟩ hreach⟩

theorem isInline_of_item (hslotted : heap.Slotted) (hitems : heap.items? a = some items)
    (hv : v ∈ items.toList) : v.isInline = false := by
  obtain ⟨fields, hget⟩ := get?_of_items? hitems
  exact hslotted a _ hget v (List.mem_append_right _ hv)

theorem isInline_of_field (hslotted : heap.Slotted) {object : ScriptObject P}
    (hget : heap.get? a = some object) {key : String} (hfind : object.fields.find? key = some v) :
    v.isInline = false :=
  hslotted a object hget v (List.mem_append_left _
    (List.mem_map.2 ⟨(key, v), Table.find?_eq_some_iff.1 hfind, rfl⟩))

/-- An array from which no way leads on for ever does not lie inside of itself. -/
theorem not_transGen_of_acc (hacc : Acc (flip heap.Nests) a) : ¬TransGen heap.Nests a a := by
  induction hacc with
  | intro a _ ih =>
    intro hcycle
    -- the array after the first step of the cycle lies on a cycle, too
    obtain ⟨b, hfirst, hrest⟩ := TransGen.head'_iff.1 hcycle
    exact ih b hfirst (TransGen.tail' hrest hfirst)

theorem acc_of_reflTransGen (hacc : Acc (flip heap.Nests) a) (h : ReflTransGen heap.Nests a b) :
    Acc (flip heap.Nests) b := by
  induction h with
  | refl => exact hacc
  | tail _ hstep ih => exact ih.inv hstep

theorem acyclic_of_acc (hacc : Acc (flip heap.Nests) a) : heap.Acyclic (.object a) := by
  rintro b ⟨c, items, hc, -, hreach⟩
  rw [Value.object.injEq] at hc
  exact not_transGen_of_acc (acc_of_reflTransGen hacc (hc ▸ hreach))

/-! ## Reading -/

/-- A slot value on the way through the arrays of `path`, where these are cut with null. -/
def cutOn (heap : Heap P) (path : List Handle) : Value → Value
  | .object h => if (heap.items? h).isSome && path.contains h then .null else .object h
  | v => v

theorem cutOn_nil (v : Value) : heap.cutOn [] v = v := by
  cases v <;> simp [cutOn]

theorem cutOn_of_spans (hspans : heap.Spans (heap.cutOn path v) a) : heap.cutOn path v = v := by
  cases v with
  | object h =>
    by_cases hcut : ((heap.items? h).isSome && path.contains h) = true
    · obtain ⟨b, items, hnull, -⟩ := hspans
      rw [cutOn, if_pos hcut] at hnull
      cases hnull
    · rw [cutOn, if_neg hcut]
  | _ => rfl

theorem expandOn_of_items?_eq_none (hv : v.isInline = false)
    (hnone : ∀ h, v = .object h → heap.items? h = none) : heap.expandOn path v = v := by
  cases v with
  | object h =>
    have hh := hnone h rfl
    rw [expandOn]
    split
    · rfl
    · next object hget =>
      rw [items?, hget, Option.bind_some] at hh
      rw [hh]
  | array origin items => simp [Value.isInline] at hv
  | _ => rw [expandOn] <;> simp

theorem expandOn_of_mem (hitems : heap.items? a = some items) (hpath : a ∈ path) :
    heap.expandOn path (.object a) = .null := by
  obtain ⟨fields, hget⟩ := get?_of_items? hitems
  rw [expandOn]
  split
  · next hdead => simp [hdead] at hget
  · next object hobject =>
    obtain rfl := Option.some.inj (hget.symm.trans hobject)
    simp only [ScriptObject.items?]
    rw [dif_pos (by simpa using hpath)]

theorem expandOn_of_not_mem (hitems : heap.items? a = some items) (hpath : a ∉ path) :
    heap.expandOn path (.object a) =
      .array (some a) (items.toList.map (heap.expandOn (a :: path))) := by
  obtain ⟨fields, hget⟩ := get?_of_items? hitems
  rw [expandOn]
  split
  · next hdead => simp [hdead] at hget
  · next object hobject =>
    obtain rfl := Option.some.inj (hget.symm.trans hobject)
    simp only [ScriptObject.items?]
    rw [dif_neg (by simpa using hpath), expandItems_eq_map]

/-- How a slot value is expanded inside the arrays of `path`: a value that is no array stays, an
array of the path is cut, and any other array is entered. -/
inductive Unfolds (heap : Heap P) : List Handle → Value → Prop
  | leaf {path : List Handle} {v : Value} :
      v.isInline = false → (∀ h, v = .object h → heap.items? h = none) → Unfolds heap path v
  | cut {path : List Handle} {a : Handle} {items : Array Value} :
      heap.items? a = some items → a ∈ path → Unfolds heap path (.object a)
  | enter {path : List Handle} {a : Handle} {items : Array Value} :
      heap.items? a = some items → a ∉ path → (∀ v ∈ items.toList, Unfolds heap (a :: path) v) →
      Unfolds heap path (.object a)

/-- Every slot value is expanded in one of these ways. -/
theorem unfolds (hslotted : heap.Slotted) (path : List Handle) {v : Value}
    (hv : v.isInline = false) : heap.Unfolds path v := by
  -- each array that is entered leaves fewer objects off the path
  induction hn : heap.offPath path using Nat.strongRecOn generalizing path v with
  | ind n ih =>
    subst hn
    by_cases harray : ∃ a items, v = .object a ∧ heap.items? a = some items
    · obtain ⟨a, items, rfl, hitems⟩ := harray
      by_cases hpath : a ∈ path
      · exact .cut hitems hpath
      · obtain ⟨fields, hget⟩ := get?_of_items? hitems
        have hless : heap.offPath (a :: path) < heap.offPath path :=
          offPath_cons_lt hget (by simpa using hpath)
        exact .enter hitems hpath fun w hw =>
          ih _ hless (a :: path) (isInline_of_item hslotted hitems hw) rfl
    · refine .leaf hv fun h hh => ?_
      rw [Option.eq_none_iff_forall_ne_some]
      exact fun items hitems => harray ⟨h, items, hh, hitems⟩

end

/-! ## Storing what has been read -/

/-- The same handles lead to arrays, whatever these hold. -/
def SameArrays (heap other : Heap P) : Prop :=
  ∀ a, (other.items? a).isSome = (heap.items? a).isSome

section

variable {heap other : Heap P} {path : List Handle} {a : Handle} {v : Value}

theorem items?_modify_mapItems (heap : Heap P) (a k : Handle) (f : Array Value → Array Value) :
    (heap.modify a fun object => object.mapItems f).items? k =
      if k = a then (heap.items? a).map f else heap.items? k := by
  rw [items?, get?_modify]
  split
  · rw [items?]
    cases heap.get? a with
    | none => rfl
    | some object =>
      obtain ⟨form, fields⟩ := object
      cases form <;> rfl
  · rfl

theorem storeArray_of_items? {items : Array Value} (hitems : heap.items? a = some items)
    (slots : List Value) : heap.storeArray (some a) slots =
      (a, heap.modify a fun object => object.mapItems fun _ => slots.toArray) := by
  obtain ⟨fields, hget⟩ := get?_of_items? hitems
  simp [storeArray, hget]

/-- Items are stored in the array that they come from, or in a new one if that is not there. -/
theorem storeArray_cases (heap : Heap P) (origin : Option Handle) (slots : List Value) :
    (∃ a items, origin = some a ∧ heap.items? a = some items ∧
      heap.storeArray origin slots =
        (a, heap.modify a fun object => object.mapItems fun _ => slots.toArray)) ∨
    (∀ a, origin = some a → heap.items? a = none) ∧
      heap.storeArray origin slots = heap.allocate (.ofForm (.array slots.toArray)) := by
  cases origin with
  | none => exact Or.inr ⟨by simp, rfl⟩
  | some a =>
    cases hitems : heap.items? a with
    | some items => exact Or.inl ⟨a, items, rfl, hitems, storeArray_of_items? hitems slots⟩
    | none =>
      refine Or.inr ⟨by rintro _ ⟨⟩; exact hitems, ?_⟩
      unfold storeArray
      split
      · next h fields hfound =>
        obtain ⟨object, hget, hobject⟩ := Option.map_eq_some_iff.1 hfound
        obtain ⟨rfl, rfl⟩ := Prod.mk.inj hobject
        simp [items?, hget, ScriptObject.items?] at hitems
      · rfl

theorem sameArrays_modify (hsame : heap.SameArrays other) (a : Handle)
    (f : Array Value → Array Value) :
    heap.SameArrays (other.modify a fun object => object.mapItems f) := by
  intro k
  rw [items?_modify_mapItems, ← hsame k]
  split
  · next hk => rw [hk, Option.isSome_map]
  · rfl

/-- What comes of storing a slot value that has been read: the value, unless it has been cut;
nothing but arrays that it refers to or that lie inside of these is written; and arrays stay
arrays. -/
structure StoredBack (heap other : Heap P) (path : List Handle) (v : Value) : Prop where
  slot : (other.store (heap.expandOn path v)).1 = heap.cutOn path v
  arrays : heap.SameArrays (other.store (heap.expandOn path v)).2
  frame : ∀ k, ¬heap.Spans (heap.cutOn path v) k →
    (other.store (heap.expandOn path v)).2.get? k = other.get? k

/-- What comes of storing several of them, one after the other. -/
theorem storedBack_all {values : List Value}
    (hvalues : ∀ v ∈ values, ∀ other : Heap P, heap.SameArrays other →
      heap.StoredBack other path v)
    (hsame : heap.SameArrays other) :
    (other.storeAll (values.map (heap.expandOn path))).1 = values.map (heap.cutOn path) ∧
    heap.SameArrays (other.storeAll (values.map (heap.expandOn path))).2 ∧
    ∀ k, (∀ v ∈ values, ¬heap.Spans (heap.cutOn path v) k) →
      (other.storeAll (values.map (heap.expandOn path))).2.get? k = other.get? k := by
  induction values generalizing other with
  | nil => exact ⟨rfl, hsame, fun _ _ => rfl⟩
  | cons v values ih =>
    have hfirst := hvalues v List.mem_cons_self other hsame
    obtain ⟨hslots, harrays, hframe⟩ :=
      ih (fun w hw => hvalues w (List.mem_cons_of_mem _ hw)) hfirst.arrays
    simp only [List.map_cons, storeAll]
    refine ⟨by rw [hfirst.slot, hslots], harrays, fun k hk => ?_⟩
    rw [hframe k fun w hw => hk w (List.mem_cons_of_mem _ hw),
      hfirst.frame k (hk v List.mem_cons_self)]

/-- An array that is entered is written when its items have been stored. -/
theorem store_expandOn_of_not_mem {items : Array Value} (hitems : heap.items? a = some items)
    (hpath : a ∉ path)
    (harrays : heap.SameArrays (other.storeAll (items.toList.map (heap.expandOn (a :: path)))).2) :
    other.store (heap.expandOn path (.object a)) =
      (.object a, (other.storeAll (items.toList.map (heap.expandOn (a :: path)))).2.modify a
        fun object => object.mapItems fun _ =>
          (other.storeAll (items.toList.map (heap.expandOn (a :: path)))).1.toArray) := by
  obtain ⟨inner, hinner⟩ : ∃ inner,
      (other.storeAll (items.toList.map (heap.expandOn (a :: path)))).2.items? a = some inner := by
    rw [← Option.isSome_iff_exists, harrays a, hitems, Option.isSome_some]
  rw [expandOn_of_not_mem hitems hpath, store]
  simp only
  rw [storeArray_of_items? hinner]

theorem Unfolds.storedBack (h : heap.Unfolds path v) {other : Heap P}
    (hsame : heap.SameArrays other) : heap.StoredBack other path v := by
  induction h generalizing other with
  | @leaf path v hv hnone =>
    have hcut : heap.cutOn path v = v := by
      cases v with
      | object h => simp [cutOn, hnone h rfl]
      | _ => rfl
    have hstore : other.store (heap.expandOn path v) = (v, other) := by
      rw [expandOn_of_items?_eq_none hv hnone, store_of_isInline other hv]
    exact ⟨by rw [hstore, hcut], by rw [hstore]; exact hsame, fun k _ => by rw [hstore]⟩
  | @cut path a items hitems hpath =>
    have hcut : heap.cutOn path (.object a) = .null := by simp [cutOn, hitems, hpath]
    have hstore : other.store (heap.expandOn path (.object a)) = (.null, other) := by
      rw [expandOn_of_mem hitems hpath]
      rfl
    exact ⟨by rw [hstore, hcut], by rw [hstore]; exact hsame, fun k _ => by rw [hstore]⟩
  | @enter path a items hitems hpath _ ih =>
    have hcut : heap.cutOn path (.object a) = .object a := by simp [cutOn, hpath]
    obtain ⟨-, harrays, hframe⟩ := storedBack_all (fun v hv other => ih v hv) hsame
    have hstore := store_expandOn_of_not_mem hitems hpath harrays
    refine ⟨by rw [hstore, hcut], by rw [hstore]; exact sameArrays_modify harrays a _,
      fun k hk => ?_⟩
    rw [hcut] at hk
    have hne : k ≠ a := by
      rintro rfl
      exact hk ⟨k, items, rfl, hitems, .refl⟩
    rw [hstore, get?_modify, if_neg hne]
    -- what lies inside of an item lies inside of the array
    exact hframe k fun v hv hspans =>
      hk (Spans.item hitems hv (cutOn_of_spans hspans ▸ hspans))

/-! ## When nothing changes -/

theorem modify_eq_self {f : ScriptObject P → ScriptObject P}
    (hf : ∀ object, heap.get? a = some object → f object = object) : heap.modify a f = heap := by
  obtain ⟨object, hget, hmodify⟩ | ⟨-, hmodify⟩ := heap.modify_cases a f
  · have hslot := get?_eq_some_iff.1 hget
    rw [hmodify, hf object hget]
    congr 1
    apply Array.ext_getElem?
    intro i
    rw [Array.getElem?_setIfInBounds]
    split
    · next hi =>
      subst hi
      rw [hslot, if_pos (Array.getElem?_eq_some_iff.1 hslot).1]
    · rfl
  · exact hmodify

theorem storeAll_expandOn_eq {values : List Value}
    (hvalues : ∀ v ∈ values, heap.store (heap.expandOn path v) = (v, heap)) :
    heap.storeAll (values.map (heap.expandOn path)) = (values, heap) := by
  induction values with
  | nil => rfl
  | cons v values ih =>
    rw [List.map_cons, storeAll, hvalues v List.mem_cons_self]
    simp only
    rw [ih fun w hw => hvalues w (List.mem_cons_of_mem _ hw)]

/-- Storing a value that has been read changes nothing if no array contains itself. -/
theorem Unfolds.store_eq (h : heap.Unfolds path v) (hacyclic : heap.Acyclic v)
    (hpath : ∀ b ∈ path, ∀ a items, v = .object a → heap.items? a = some items →
      TransGen heap.Nests b a) :
    heap.store (heap.expandOn path v) = (v, heap) := by
  induction h with
  | @leaf path v hv hnone =>
    rw [expandOn_of_items?_eq_none hv hnone, store_of_isInline heap hv]
  | @cut path a items hitems hmem =>
    -- an array that is on the way to itself lies inside of itself
    exact absurd (hpath a hmem a items rfl hitems) (hacyclic a ⟨a, items, rfl, hitems, .refl⟩)
  | @enter path a items hitems hmem _ ih =>
    have hall : ∀ v ∈ items.toList, heap.store (heap.expandOn (a :: path) v) = (v, heap) := by
      intro v hv
      refine ih v hv (fun c hc => hacyclic c (hc.item hitems hv)) ?_
      rintro b hb c inner rfl hinner
      have hnests : heap.Nests a c := ⟨items, inner, hitems, hv, hinner⟩
      rcases List.mem_cons.1 hb with rfl | hb
      · exact .single hnests
      · exact (hpath b hb a items rfl hitems).tail hnests
    rw [expandOn_of_not_mem hitems hmem, store, storeAll_expandOn_eq hall]
    simp only
    rw [storeArray_of_items? hitems, modify_eq_self]
    -- the items that are written are those that are there
    intro object hget
    obtain ⟨fields, hget'⟩ := get?_of_items? hitems
    obtain rfl := Option.some.inj (hget.symm.trans hget')
    rfl

/-! ## When something changes -/

/-- If storing several values that have been read leaves every array as it was that is on the path
or lies inside of itself, then nothing lies inside of itself that has been written. -/
theorem acc_of_storeAll {values : List Value}
    (hvalues : ∀ v ∈ values, heap.Unfolds path v ∧ ∀ other : Heap P, heap.SameArrays other →
      (∀ k, ¬Acc (flip heap.Nests) k → k ∉ path →
        (other.store (heap.expandOn path v)).2.items? k = heap.items? k) →
      ∀ k, heap.Spans (heap.cutOn path v) k → Acc (flip heap.Nests) k)
    {other : Heap P} (hsame : heap.SameArrays other)
    (hkept : ∀ k, ¬Acc (flip heap.Nests) k → k ∉ path →
      (other.storeAll (values.map (heap.expandOn path))).2.items? k = heap.items? k) :
    ∀ v ∈ values, ∀ k, heap.Spans (heap.cutOn path v) k → Acc (flip heap.Nests) k := by
  induction values generalizing other with
  | nil => simp
  | cons v values ih =>
    obtain ⟨hunfolds, hacc⟩ := hvalues v List.mem_cons_self
    have hrest : ∀ w ∈ values, _ := fun w hw => hvalues w (List.mem_cons_of_mem _ hw)
    have hsame' := (hunfolds.storedBack hsame).arrays
    simp only [List.map_cons, storeAll] at hkept
    have hlater := ih hrest hsame' hkept
    obtain ⟨-, -, hframe⟩ := storedBack_all (fun w hw other => (hrest w hw).1.storedBack) hsame'
    rintro w hw
    rcases List.mem_cons.1 hw with rfl | hw
    -- what the later values write is harmless, so the rest was right before them
    · refine hacc other hsame fun k hk hpath => ?_
      rw [← hkept k hk hpath, items?, items?, hframe k]
      exact fun w hw hspans => hk (hlater w hw k hspans)
    · exact hlater w hw

/-- If storing a value that has been read leaves every array as it was that is not on the path,
except for such as do not lie inside of themselves anyway, then none does that has been written.
-/
theorem Unfolds.acc_of_store (h : heap.Unfolds path v) {other : Heap P}
    (hsame : heap.SameArrays other)
    (hkept : ∀ k, ¬Acc (flip heap.Nests) k → k ∉ path →
      (other.store (heap.expandOn path v)).2.items? k = heap.items? k) :
    ∀ k, heap.Spans (heap.cutOn path v) k → Acc (flip heap.Nests) k := by
  induction h generalizing other with
  | @leaf path v hv hnone =>
    intro k hspans
    obtain ⟨b, items, hb, hitems, -⟩ := cutOn_of_spans hspans ▸ hspans
    simp [hnone b hb] at hitems
  | @cut path a items hitems hmem =>
    intro k hspans
    obtain ⟨b, items', hb, -⟩ := hspans
    simp [cutOn, hitems, hmem] at hb
  | @enter path a items hitems hmem hinside ih =>
    have hall : ∀ v ∈ items.toList, ∀ other : Heap P, heap.SameArrays other →
        heap.StoredBack other (a :: path) v := fun v hv other => (hinside v hv).storedBack
    obtain ⟨hslots, harrays, -⟩ := storedBack_all hall hsame
    suffices hacc : Acc (flip heap.Nests) a by
      rintro k ⟨b, inner, hb, -, hreach⟩
      rw [show heap.cutOn path (.object a) = .object a by simp [cutOn, hmem],
        Value.object.injEq] at hb
      exact acc_of_reflTransGen hacc (hb ▸ hreach)
    by_contra hacc
    rw [store_expandOn_of_not_mem hitems hmem harrays] at hkept
    -- the array holds what it held before, so none of its items has been cut
    have huncut : ∀ v ∈ items.toList, heap.cutOn (a :: path) v = v := by
      have hself := hkept a hacc hmem
      rw [items?_modify_mapItems, if_pos rfl, hitems, hslots, Option.map_eq_some_iff] at hself
      obtain ⟨-, -, hitems'⟩ := hself
      have hmap : items.toList.map (heap.cutOn (a :: path)) = items.toList.map id := by
        rw [List.map_id]
        exact congrArg Array.toList hitems'
      exact List.map_inj_left.1 hmap
    have hothers : ∀ k, ¬Acc (flip heap.Nests) k → k ∉ a :: path →
        (other.storeAll (items.toList.map (heap.expandOn (a :: path)))).2.items? k =
          heap.items? k := by
      intro k hk hpath
      rw [List.mem_cons, not_or] at hpath
      rw [← hkept k hk hpath.2, items?_modify_mapItems, if_neg hpath.1]
    have hitem := acc_of_storeAll (fun v hv => ⟨hinside v hv, fun _ => ih v hv⟩) hsame hothers
    -- so the arrays inside of it are among those that have been written
    refine hacc (Acc.intro a fun b hnests => ?_)
    obtain ⟨items', inner, hitems', hb, hinner⟩ := hnests
    obtain rfl := Option.some.inj (hitems.symm.trans hitems')
    exact hitem (.object b) hb b (by rw [huncut _ hb]; exact ⟨b, inner, rfl, hinner, .refl⟩)

/-! ## Reading and writing back -/

/-- A slot value is the same after it has been read and stored. -/
theorem store_expand_slot (hslotted : heap.Slotted) (hv : v.isInline = false) :
    (heap.store (heap.expand v)).1 = v :=
  ((unfolds hslotted [] hv).storedBack fun _ => rfl).slot.trans (cutOn_nil v)

theorem sameArrays_store_expand (hslotted : heap.Slotted) (hv : v.isInline = false) :
    heap.SameArrays (heap.store (heap.expand v)).2 :=
  ((unfolds hslotted [] hv).storedBack fun _ => rfl).arrays

/-- Nothing changes if no array contains itself. -/
theorem store_expand_of_acyclic (hslotted : heap.Slotted) (hv : v.isInline = false)
    (hacyclic : heap.Acyclic v) : heap.store (heap.expand v) = (v, heap) :=
  (unfolds hslotted [] hv).store_eq hacyclic (by simp)

/-- No array contains itself if all arrays hold what they held before. -/
theorem acyclic_of_store_expand (hslotted : heap.Slotted) (hv : v.isInline = false)
    (hkept : ∀ k, (heap.store (heap.expand v)).2.items? k = heap.items? k) : heap.Acyclic v := by
  intro a hspans
  refine not_transGen_of_acc
    ((unfolds hslotted [] hv).acc_of_store (fun _ => rfl) (fun k _ _ => hkept k) a ?_)
  rwa [cutOn_nil]

end

end Heap

end ScriptBridge
