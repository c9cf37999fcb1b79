import ScriptBridge.Proofs.Heap.Copies
import ScriptBridge.Proofs.Realm.Reachable
import ScriptBridge.Proofs.Snapshot.Places
import ScriptBridge.Scenario.Script
import Mathlib

/-!
# Copying Values

What has been read can be stored again, in the same place or in another one. Arrays come along as
the handles that they are, but each of them is written on the way: with what it holds already,
unless it contains itself and has been cut, or the value comes from native code that kept an older
copy.

Main statements: `store_expand` and `Reachable.copy_keeps_arrays`.
-/

namespace ScriptBridge.Realm

variable {P : Platform}

/-- **Writing back what has been read.** A slot value that is read and stored again is the same,
and this leaves the heap as it was if and only if no array that is reached from the value through
items of arrays contains itself. -/
theorem store_expand {r : Realm P} (hslotted : r.heap.Slotted) {v : Value}
    (hv : v.isInline = false) :
    (r.store (r.expand v)).1 = v ∧
    ((r.store (r.expand v)).2.heap = r.heap ↔ r.heap.Acyclic v) := by
  refine ⟨Heap.store_expand_slot hslotted hv, fun hheap => ?_, fun hacyclic => ?_⟩
  · exact Heap.acyclic_of_store_expand hslotted hv fun k => congrArg (Heap.items? · k) hheap
  · exact congrArg Prod.snd (Heap.store_expand_of_acyclic hslotted hv hacyclic)

/-! ## Copying a property -/

section

variable {r : Realm P} {a b : Handle} {source target : ScriptObject P} {p f : String}
  {v slot : Value}

/-- The items of all arrays stay as they are when a field is written. -/
theorem items?_modify_setField (heap : Heap P) (b : Handle) (f : String) (v : Value) (k : Handle) :
    (heap.modify b (·.setField f v)).items? k = heap.items? k := by
  rw [Heap.items?, Heap.get?_modify]
  split
  · next hk =>
    rw [hk, Heap.items?]
    cases heap.get? b <;> rfl
  · rfl

theorem items?_after_assignProperty (hb : r.heap.get? b = some target)
    (hfree : r.binding? target f = none) (hlength : target.items?.isSome = true → f ≠ "length")
    (v : Value) (k : Handle) :
    (after (assignProperty b f v) r).heap.items? k = (r.store v).2.heap.items? k := by
  rw [after, assignProperty, run_putField hb hfree hlength v]
  exact items?_modify_setField _ b f _ k

/-- A field is read when no class binds its name. -/
theorem property_of_field (ha : r.heap.get? a = some source) (hplain : r.binding? source p = none)
    (hlength : source.items?.isSome = true → p ≠ "length")
    (hslot : source.fields.find? p = some slot) : r.property a p = .ok (r.expand slot) := by
  unfold property
  simp only [ha, hplain]
  split
  · next items hitems => exact absurd rfl (hlength (by rw [hitems, Option.isSome_some]))
  · rw [hslot]
    rfl

/-- All arrays hold what they held. -/
def KeepsArrays (r r' : Realm P) : Prop :=
  ∀ k items, r.heap.items? k = some items → r'.heap.items? k = some items

/-- **Copying a property.** A value that has been read from one object is accepted as a field of
another one, and each array holds what it held, unless the last copy of it in the value carries
something else. A value out of a field leaves all arrays as they are if and only if no array that
contains itself is reached from it. -/
theorem Reachable.copy_keeps_arrays (hr : r.Reachable) (ha : r.heap.get? a = some source)
    (hb : r.heap.get? b = some target) (hread : r.property a p = .ok v)
    (hfree : r.binding? target f = none)
    (hlength : target.items?.isSome = true → f ≠ "length") :
    (Id.run ((assignProperty b f v).run.run r)).1 = .ok () ∧
    (∀ k items, r.heap.items? k = some items →
      (∀ copy, v.lastCopy? k = some copy → r.heap.Current copy items) →
      (after (assignProperty b f v) r).heap.items? k = some items) ∧
    (∀ slot, r.binding? source p = none → (source.items?.isSome = true → p ≠ "length") →
      source.fields.find? p = some slot →
      (KeepsArrays r (after (assignProperty b f v) r) ↔ r.heap.Acyclic slot)) := by
  have hafter := items?_after_assignProperty hb hfree hlength v
  refine ⟨by rw [assignProperty, run_putField hb hfree hlength], fun k items hk hlast => ?_,
    fun slot hplain hp hslot => ?_⟩
  · rw [hafter k]
    exact Heap.items?_store hr.sound.wellFormed hk hlast
  · have hslotted := hr.sound.slotted
    have hinline := Heap.isInline_of_field hslotted ha hslot
    -- what has been read is what is stored
    obtain rfl := Except.ok.inj ((property_of_field ha hplain hp hslot).symm.trans hread)
    refine ⟨fun hkeeps => Heap.acyclic_of_store_expand hslotted hinline fun k => ?_,
      fun hacyclic k items hk => ?_⟩
    · have hsame := Heap.sameArrays_store_expand hslotted hinline k
      cases hk : r.heap.items? k with
      | none =>
        rw [hk, Option.isSome_none, Option.isSome_eq_false_iff, Option.isNone_iff_eq_none] at hsame
        exact hsame
      | some items =>
        have hkept := hkeeps k items hk
        rw [hafter k] at hkept
        exact hkept
    · rw [hafter k]
      exact (congrArg (fun x => x.2.items? k)
        (Heap.store_expand_of_acyclic hslotted hinline hacyclic)).trans hk

end

/-- A realm with an array that is twice inside of another one, an array that contains itself, and an
object without fields. -/
def ofArrays : Realm Scenario.platform :=
  let r := ((ofRegistry .builtins .standard Scenario.Stage.empty).newArray [.int 7]).2
  let r := (r.newArray [.object ⟨1, 0⟩, .object ⟨1, 0⟩]).2
  let r := after (assignElement ⟨3, 0⟩ 1 (.object ⟨3, 0⟩)) (r.newArray [.int 1]).2
  let r := after (putProperty ⟨0, 0⟩ "shared" (.object ⟨2, 0⟩) false) r
  let r := after (putProperty ⟨0, 0⟩ "loop" (.object ⟨3, 0⟩) false) r
  r.newObject.2

theorem reachable_ofArrays : ofArrays.Reachable := by
  have hsteps : Steps (ofRegistry .builtins .standard Scenario.Stage.empty) ofArrays :=
    .tail (.tail (.tail (.tail (.tail (.tail (.single (.newArray [.int 7] _))
      (.newArray [.object ⟨1, 0⟩, .object ⟨1, 0⟩] _)) (.newArray [.int 1] _))
      (.assignElement ⟨3, 0⟩ 1 (.object ⟨3, 0⟩) _))
      (.putProperty ⟨0, 0⟩ "shared" (.object ⟨2, 0⟩) false _))
      (.putProperty ⟨0, 0⟩ "loop" (.object ⟨3, 0⟩) false _)) (.newObject _)
  have hcapacity : ofArrays.heap.capacity = 5 := by cbv
  exact ⟨.builtins, .standard, Scenario.Stage.empty, .builtins, hsteps, by rw [hcapacity]; decide⟩

theorem acyclic_ofArrays : ofArrays.heap.Acyclic (.object ⟨2, 0⟩) := by
  have hinner : ofArrays.heap.items? ⟨1, 0⟩ = some #[.int 7] := by cbv
  have houter : ofArrays.heap.items? ⟨2, 0⟩ = some #[.object ⟨1, 0⟩, .object ⟨1, 0⟩] := by cbv
  refine Heap.acyclic_of_acc (Acc.intro _ ?_)
  rintro b ⟨items, -, hitems, hb, -⟩
  obtain rfl := Option.some.inj (houter.symm.trans hitems)
  obtain rfl : b = ⟨1, 0⟩ := by simpa using hb
  refine Acc.intro _ ?_
  rintro c ⟨items, -, hitems, hc, -⟩
  obtain rfl := Option.some.inj (hinner.symm.trans hitems)
  simp at hc

theorem not_acyclic_ofArrays : ¬ofArrays.heap.Acyclic (.object ⟨3, 0⟩) := by
  have hloop : ofArrays.heap.items? ⟨3, 0⟩ = some #[.int 1, .object ⟨3, 0⟩] := by cbv
  exact fun hacyclic => hacyclic ⟨3, 0⟩ ⟨_, _, rfl, hloop, .refl⟩
    (.single ⟨_, _, hloop, by simp, hloop⟩)

/-- The array that stands twice in another one does no harm, and the one that contains itself is
cut. -/
theorem store_expand_ofArrays :
    ofArrays.heap.Slotted ∧
    (ofArrays.store (ofArrays.expand (.object ⟨2, 0⟩))).2.heap = ofArrays.heap ∧
    (ofArrays.store (ofArrays.expand (.object ⟨3, 0⟩))).2.heap ≠ ofArrays.heap := by
  have hslotted := reachable_ofArrays.sound.slotted
  exact ⟨hslotted, (store_expand hslotted rfl).2.2 acyclic_ofArrays,
    fun hheap => not_acyclic_ofArrays ((store_expand hslotted rfl).2.1 hheap)⟩

/-- A field that leads to a shared array is copied, and all arrays stay as they are. -/
theorem copy_keeps_ofArrays :
    ofArrays.Reachable ∧
    ofArrays.property ⟨0, 0⟩ "shared" = .ok (.array (some ⟨2, 0⟩)
      [.array (some ⟨1, 0⟩) [.int 7], .array (some ⟨1, 0⟩) [.int 7]]) ∧
    KeepsArrays ofArrays (after (assignProperty ⟨4, 0⟩ "copy" (.array (some ⟨2, 0⟩)
      [.array (some ⟨1, 0⟩) [.int 7], .array (some ⟨1, 0⟩) [.int 7]])) ofArrays) := by
  have hglobals : ofArrays.heap.get? ⟨0, 0⟩ = some ⟨.plain,
      ⟨[("shared", .object ⟨2, 0⟩), ("loop", .object ⟨3, 0⟩)], by decide⟩⟩ := by cbv
  have hobject : ofArrays.heap.get? ⟨4, 0⟩ = some (.ofForm .plain) := by cbv
  have hread : ofArrays.property ⟨0, 0⟩ "shared" = .ok (.array (some ⟨2, 0⟩)
      [.array (some ⟨1, 0⟩) [.int 7], .array (some ⟨1, 0⟩) [.int 7]]) := by cbv
  obtain ⟨-, -, hkeeps⟩ := reachable_ofArrays.copy_keeps_arrays (f := "copy") hglobals hobject hread
    rfl (fun hitems => absurd hitems Bool.false_ne_true)
  exact ⟨reachable_ofArrays, hread,
    (hkeeps (.object ⟨2, 0⟩) rfl (fun hitems => absurd hitems Bool.false_ne_true) rfl).2
      acyclic_ofArrays⟩

/-- A field that leads to an array that contains itself is copied, and the array loses the item that
it is itself. -/
theorem copy_cuts_ofArrays :
    ofArrays.Reachable ∧
    ofArrays.heap.get? ⟨0, 0⟩ = some ⟨.plain,
      ⟨[("shared", .object ⟨2, 0⟩), ("loop", .object ⟨3, 0⟩)], by decide⟩⟩ ∧
    ofArrays.heap.get? ⟨4, 0⟩ = some (.ofForm .plain) ∧
    ofArrays.property ⟨0, 0⟩ "loop" = .ok (.array (some ⟨3, 0⟩) [.int 1, .null]) ∧
    ofArrays.binding? (.ofForm .plain) "loop" = none ∧
    ofArrays.heap.items? ⟨3, 0⟩ = some #[.int 1, .object ⟨3, 0⟩] ∧
    (after (assignProperty ⟨4, 0⟩ "loop" (.array (some ⟨3, 0⟩) [.int 1, .null]))
      ofArrays).heap.items? ⟨3, 0⟩ = some #[.int 1, .null] ∧
    ¬KeepsArrays ofArrays
      (after (assignProperty ⟨4, 0⟩ "loop" (.array (some ⟨3, 0⟩) [.int 1, .null])) ofArrays) := by
  have hbefore : ofArrays.heap.items? ⟨3, 0⟩ = some #[.int 1, .object ⟨3, 0⟩] := by cbv
  have hafter : (after (assignProperty ⟨4, 0⟩ "loop" (.array (some ⟨3, 0⟩) [.int 1, .null]))
      ofArrays).heap.items? ⟨3, 0⟩ = some #[.int 1, .null] := by cbv
  refine ⟨reachable_ofArrays, by cbv, by cbv, by cbv, rfl, hbefore, hafter, fun hkeeps => ?_⟩
  have hkept := hkeeps ⟨3, 0⟩ _ hbefore
  rw [hafter] at hkept
  simp at hkept

end ScriptBridge.Realm
