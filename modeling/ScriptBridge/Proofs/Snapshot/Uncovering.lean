import ScriptBridge.Proofs.Heap.WriteBack
import ScriptBridge.Proofs.Snapshot.Places

/-!
# What a Value is Expanded from

A handle is expanded into the items of the array that it leads to, and these are expanded in turn. So
what it is expanded into depends on the items of the arrays that one comes across this way, and on
nothing else. Of all that writes into a property, only a length that is set changes items.

Main statements: `Heap.expandOn_congr` and `Realm.items?_putProperty`.
-/

namespace ScriptBridge

open Realm (after)
open Relation (ReflTransGen)

variable {P : Platform}

/-! ## What a Value is Expanded from -/

namespace Heap

section

variable {heap heap' : Heap P} {a b k : Handle}

/-- A handle is an item of an array. -/
def Lists (heap : Heap P) (a b : Handle) : Prop :=
  ∃ items, heap.items? a = some items ∧ .object b ∈ items.toList

/-- Expanding a handle, one comes across another one: that handle itself, or an item of arrays
inside of it. -/
abbrev Uncovers (heap : Heap P) : Handle → Handle → Prop := ReflTransGen heap.Lists

theorem at?_item (heap : Heap P) (a : Handle) (i : Nat) :
    heap.at? (.item a i) = (heap.items? a).bind fun items => items[i]? := by
  unfold at? items?
  rw [Option.bind_assoc]
  rfl

theorem lists_iff : heap.Lists a b ↔ ∃ i, heap.at? (.item a i) = some (.object b) := by
  constructor
  · rintro ⟨items, hitems, hb⟩
    obtain ⟨i, hi⟩ := Array.getElem?_of_mem (Array.mem_toList_iff.1 hb)
    exact ⟨i, by rw [at?_item, hitems, Option.bind_some, hi]⟩
  · rintro ⟨i, hi⟩
    rw [at?_item] at hi
    obtain ⟨items, hitems, hi⟩ := Option.bind_eq_some_iff.1 hi
    exact ⟨items, hitems, Array.mem_toList_iff.2 (Array.mem_of_getElem? hi)⟩

theorem isSome_items?_congr (hnature : heap'.nature? k = heap.nature? k) :
    (heap'.items? k).isSome = (heap.items? k).isSome := by
  have hform : ∀ heap : Heap P, (heap.items? k).isSome =
      (heap.nature? k).any fun form => (ScriptObject.ofForm form).items?.isSome := by
    intro heap
    unfold items? nature?
    cases heap.get? k with
    | none => rfl
    | some object =>
      obtain ⟨form, fields⟩ := object
      cases form <;> rfl
  rw [hform, hform, hnature]

/-- What stays what it is has the same items if its places hold the same. -/
theorem items?_congr (hnature : heap'.nature? k = heap.nature? k)
    (hat : ∀ i, heap'.at? (.item k i) = heap.at? (.item k i)) : heap'.items? k = heap.items? k := by
  have hsome := isSome_items?_congr hnature
  simp only [at?_item] at hat
  cases hitems : heap.items? k with
  | none =>
    rw [hitems, Option.isSome_none, Option.isSome_eq_false_iff, Option.isNone_iff_eq_none] at hsome
    exact hsome
  | some items =>
    rw [hitems, Option.isSome_some, Option.isSome_iff_exists] at hsome
    obtain ⟨items', hitems'⟩ := hsome
    rw [hitems']
    congr 1
    apply Array.ext_getElem?
    intro i
    simpa only [hitems, hitems', Option.bind_some] using hat i

/-- A handle is expanded from the items of the arrays that it uncovers. -/
theorem expandOn_congr {path : List Handle} {v : Value} (hunfolds : heap.Unfolds path v)
    (hsame : ∀ a, v = .object a → ∀ k, heap.Uncovers a k → heap'.items? k = heap.items? k) :
    heap'.expandOn path v = heap.expandOn path v := by
  induction hunfolds with
  | @leaf path v hinline hnone =>
    rw [expandOn_of_items?_eq_none hinline hnone, expandOn_of_items?_eq_none hinline]
    rintro a rfl
    rw [hsame a rfl a .refl, hnone a rfl]
  | @cut path a items hitems hpath =>
    have hitems' : heap'.items? a = some items := (hsame a rfl a .refl).trans hitems
    rw [expandOn_of_mem hitems hpath, expandOn_of_mem hitems' hpath]
  | @enter path a items hitems hpath _ ih =>
    have hitems' : heap'.items? a = some items := (hsame a rfl a .refl).trans hitems
    rw [expandOn_of_not_mem hitems hpath, expandOn_of_not_mem hitems' hpath]
    congr 1
    refine List.map_congr_left fun w hw => ih w hw ?_
    rintro b rfl k hk
    exact hsame a rfl k (.head ⟨items, hitems, hw⟩ hk)

/-- Nothing else is uncovered as long as the items of what is uncovered are the same. -/
theorem uncovers_of_items?_eq (hsame : ∀ k, heap.Uncovers a k → heap'.items? k = heap.items? k)
    (h : heap'.Uncovers a k) : heap.Uncovers a k := by
  induction h with
  | refl => exact .refl
  | tail _ hlists ih =>
    obtain ⟨items, hitems, hmem⟩ := hlists
    exact .tail ih ⟨items, (hsame _ ih).symm.trans hitems, hmem⟩

end

end Heap

/-! ## What a Write Does to Items -/

namespace Realm

variable {r : Realm P} {h : Handle} {value : Value}

/-- A value that is no length: an array does not change its size for it. -/
def NoLength (value : Value) : Prop := ∀ n, Target.int.read value ≠ .ok (.int n)

theorem noLength_object (h : Handle) : NoLength (.object h) := by
  intro n hread
  cases hread

/-- Setting a length changes the size of an array, unless what is written is no length. -/
theorem items?_setLength (size : Nat) (k : Handle) :
    (after (setLength h size value) r).heap.items? k = r.heap.items? k ∨
    k = h ∧ ¬ NoLength value ∧
      ∃ n, (after (setLength h size value) r).heap.items? k = (r.heap.items? k).map (resized · n) := by
  by_cases hlength : NoLength value
  · left
    have hsame : after (setLength h size value) r = r := by
      refine after_lift_bind_of_ok (R := fun a b : Realm P => b = a) (fun _ => rfl) ?_
      intro answer hread
      split
      · next length => exact absurd hread (hlength length)
      · rfl
    rw [hsame]
  · rcases heap_setLength_cases h size value r with hsame | ⟨n, hresized⟩
    · exact Or.inl (by rw [hsame])
    · rw [hresized, Heap.items?_modify_mapItems]
      by_cases hk : k = h
      · rw [if_pos hk]
        subst hk
        exact Or.inr ⟨rfl, hlength, n, rfl⟩
      · exact Or.inl (if_neg hk)

theorem items?_modify_of_same {heap : Heap P} {f : ScriptObject P → ScriptObject P}
    (hf : ∀ object, (f object).items? = object.items?) (k : Handle) :
    (heap.modify h f).items? k = heap.items? k := by
  rw [Heap.items?, Heap.get?_modify]
  split
  · next hk =>
    subst hk
    rw [Heap.items?]
    cases heap.get? k with
    | none => rfl
    | some object => exact hf object
  · rfl

theorem items?_setNative (object : ScriptObject P) (native : Native P.Layer) :
    (object.setNative native).items? = object.items? := by
  obtain ⟨form, fields⟩ := object
  cases form <;> rfl

theorem items?_onNative {α : Type} (deserializing : Bool)
    (step : Surroundings P → NativeAction P α) (k : Handle) :
    (after (onNative h deserializing step) r).heap.items? k = r.heap.items? k := by
  unfold after
  rw [run_onNative]
  cases r.native h with
  | error error => rfl
  | ok native => exact items?_modify_of_same (fun object => items?_setNative object _) k

/-- A write into a property may set the length of the array that it goes to. It changes no items
otherwise. -/
theorem items?_putProperty (hinline : value.isInline = false) (name : String) (deserializing : Bool)
    (k : Handle) :
    (after (putProperty h name value deserializing) r).heap.items? k = r.heap.items? k ∨
    k = h ∧ ¬ NoLength value ∧ ∃ n, (after (putProperty h name value deserializing) r).heap.items? k =
      (r.heap.items? k).map (resized · n) := by
  unfold putProperty
  refine after_get (R := fun r r' : Realm P => r'.heap.items? k = r.heap.items? k ∨
    k = h ∧ ¬ NoLength value ∧ ∃ n, r'.heap.items? k = (r.heap.items? k).map (resized · n)) ?_
  cases hget : r.heap.get? h with
  | none => exact Or.inl rfl
  | some object =>
    dsimp only
    cases r.binding? object name with
    | some binding =>
      dsimp only
      split
      · exact Or.inl rfl
      · exact Or.inl (items?_onNative _ _ k)
    | none =>
      dsimp only
      split
      · exact items?_setLength _ k
      · left
        have hsame : ∀ key (object : ScriptObject P),
            (object.setField key value).items? = object.items? := fun _ _ => rfl
        rw [heap_setField h _ hinline r]
        exact items?_modify_of_same (hsame _) k

end Realm

end ScriptBridge
