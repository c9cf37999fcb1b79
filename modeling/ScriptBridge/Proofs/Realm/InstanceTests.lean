import ScriptBridge.Proofs.Registry.Declared
import ScriptBridge.Proofs.Realm.Copying
import ScriptBridge.TypedVector.Members

/-!
# Tests for Instances

There are two tests whether an object is an instance of a class. One is for scripts and the embedding
program, and knows that plain objects and arrays belong to built-in classes. The other is for setters
and for the elements of typed vectors, and knows the classes of instances only. Both look for a class in
the same way, so they disagree about a plain object or an array under the name of its built-in class,
and about nothing else.

Main statement: `isInstanceOf_agree_iff`.
-/

namespace ScriptBridge

variable {P : Platform}

namespace Registry

variable {registry : Registry P} {c : ClassNumber} {d : RegisteredClass P}

/-- A class without a parent derives from itself alone. -/
theorem derivesFrom_root_iff (hget : registry.get? c = some d) (hparent : d.outline.parent = none)
    (ancestor : ClassNumber) : registry.derivesFrom c ancestor = true ↔ ancestor = c := by
  have halone : registry.tree.hierarchy c = [c] := hierarchy_of_root hget hparent
  rw [derivesFrom, ClassTree.derivesFrom, halone, List.contains_iff_mem, List.mem_singleton]

/-- Such a class is found, in a registry that has been filled by registrations, under its own name
alone. -/
theorem Declared.finds_root_iff (hdeclared : registry.Declared) (hget : registry.get? c = some d)
    (hparent : d.outline.parent = none) (name : String) :
    ((registry.lookup? name).any fun ancestor => registry.derivesFrom c ancestor) = true ↔
      name = d.outline.name := by
  rw [Option.any_eq_true]
  constructor
  · rintro ⟨ancestor, hlookup, hderives⟩
    obtain rfl := (derivesFrom_root_iff hget hparent ancestor).1 hderives
    obtain ⟨e, he, rfl⟩ := exists_of_lookup? hlookup
    rw [Option.some.inj (he.symm.trans hget)]
  · rintro rfl
    exact ⟨c, hdeclared.lookup?_outline hget, (derivesFrom_root_iff hget hparent c).2 rfl⟩

end Registry

/-- The name of the built-in class of a plain object or an array. -/
def ScriptObject.builtinClass? (o : ScriptObject P) : Option String :=
  match o.form with
  | .plain => some "Object"
  | .array _ => some "Array"
  | _ => none

namespace Realm

variable {r : Realm P} {h : Handle} {name : String}

theorem isInstanceOf_eq (r : Realm P) (h : Handle) (name : String) :
    r.isInstanceOf h name = (r.classOf? h).any fun c =>
      (r.registry.lookup? name).any fun ancestor => r.registry.derivesFrom c ancestor := by
  unfold isInstanceOf
  cases r.classOf? h <;> cases r.registry.lookup? name <;> rfl

/-- An instance is the same to both tests. -/
theorem isInstanceOf_of_class? {object : ScriptObject P} {c : ClassNumber}
    (hget : r.heap.get? h = some object) (hclass : object.class? = some c) (deserializing : Bool) :
    (Surroundings.mk deserializing r.heap r.registry.tree).isInstanceOf h name =
      r.isInstanceOf h name := by
  have hclassOf : r.classOf? h = some c := by
    obtain ⟨form, fields⟩ := object
    cases form <;> simp [ScriptObject.class?] at hclass
    simp [classOf?, hget, hclass]
  simp only [Surroundings.isInstanceOf, isInstanceOf, hget, Option.bind_some, hclass, hclassOf]
  rfl

/-- What is no instance of a class is nothing to the test for setters. -/
theorem isInstanceOf_of_class?_eq_none {object : ScriptObject P} (hget : r.heap.get? h = some object)
    (hclass : object.class? = none) (deserializing : Bool) :
    (Surroundings.mk deserializing r.heap r.registry.tree).isInstanceOf h name = false := by
  simp [Surroundings.isInstanceOf, hget, hclass]

/-- It is of its built-in class for the other test, if it has one. -/
theorem isInstanceOf_iff_builtinClass? {object : ScriptObject P} (hdeclared : r.registry.Declared)
    (hget : r.heap.get? h = some object) (hclass : object.class? = none) :
    r.isInstanceOf h name = true ↔ object.builtinClass? = some name := by
  obtain ⟨d, hobject, houtline⟩ := hdeclared.sound.object
  obtain ⟨e, harray, haoutline⟩ := hdeclared.sound.array
  have hplain := hdeclared.finds_root_iff hobject (by rw [houtline]) name
  have hitems := hdeclared.finds_root_iff harray (by rw [haoutline]) name
  rw [houtline] at hplain
  rw [haoutline] at hitems
  rw [isInstanceOf_eq, classOf?, hget, Option.bind_some]
  obtain ⟨form, fields⟩ := object
  cases form with
  | plain => exact hplain.trans (eq_comm.trans Option.some_inj.symm)
  | array items => exact hitems.trans (eq_comm.trans Option.some_inj.symm)
  | instanceOf cls native => cases hclass
  | function f => simp [ScriptObject.builtinClass?]

/-- **The two tests for instances.** They agree about all handles and all names, except that the test
for setters does not take a plain object for an `Object` nor an array for an `Array`. A typed vector
that asks for one of these therefore refuses it. -/
theorem isInstanceOf_agree_iff (hdeclared : r.registry.Declared) (deserializing : Bool) (h : Handle)
    (name : String) :
    ((Surroundings.mk deserializing r.heap r.registry.tree).isInstanceOf h name =
        r.isInstanceOf h name ↔ (r.heap.get? h).bind ScriptObject.builtinClass? ≠ some name) ∧
    ((r.heap.get? h).bind ScriptObject.builtinClass? = some name →
      r.isInstanceOf h name = true ∧
      (Surroundings.mk deserializing r.heap r.registry.tree).isInstanceOf h name = false ∧
      ∀ v : TypedVector, v.elementClass = some name →
        v.admits ⟨deserializing, r.heap, r.registry.tree⟩ [.object h] = false) := by
  cases hget : r.heap.get? h with
  | none => simp [Surroundings.isInstanceOf, isInstanceOf, classOf?, hget]
  | some object =>
    rw [Option.bind_some]
    cases hclass : object.class? with
    | some c =>
      have hbuiltin : object.builtinClass? = none := by
        obtain ⟨form, fields⟩ := object
        cases form <;> simp [ScriptObject.class?, ScriptObject.builtinClass?] at hclass ⊢
      simp [hbuiltin, isInstanceOf_of_class? hget hclass deserializing]
    | none =>
      have hfalse :
          (Surroundings.mk deserializing r.heap r.registry.tree).isInstanceOf h name = false :=
        isInstanceOf_of_class?_eq_none hget hclass deserializing
      have hiff : r.isInstanceOf h name = true ↔ object.builtinClass? = some name :=
        isInstanceOf_iff_builtinClass? hdeclared hget hclass
      refine ⟨?_, fun hbuiltin => ⟨hiff.2 hbuiltin, hfalse, fun v hv => ?_⟩⟩
      · rw [hfalse, ne_eq, ← hiff, Bool.not_eq_true, eq_comm]
      · simp [TypedVector.admits, hv, Value.object?, hfalse]

/-- An object without a class is an `Object` to one of the tests and not to the other, and it is an
`Array` to none of them. -/
theorem isInstanceOf_agree_ofArrays :
    ofArrays.registry.Declared ∧ ofArrays.isInstanceOf ⟨4, 0⟩ "Object" = true ∧
    (Surroundings.mk false ofArrays.heap ofArrays.registry.tree).isInstanceOf ⟨4, 0⟩ "Object" = false ∧
    (Surroundings.mk false ofArrays.heap ofArrays.registry.tree).isInstanceOf ⟨4, 0⟩ "Array" =
      ofArrays.isInstanceOf ⟨4, 0⟩ "Array" := by
  have hdeclared : ofArrays.registry.Declared := by
    have hregistry : ofArrays.registry = .builtins := by cbv
    rw [hregistry]
    exact .builtins
  have hobject : ofArrays.heap.get? ⟨4, 0⟩ = some (.ofForm .plain) := by cbv
  have hbuiltin : (ofArrays.heap.get? ⟨4, 0⟩).bind ScriptObject.builtinClass? = some "Object" := by
    rw [hobject]
    rfl
  have hasked := (isInstanceOf_agree_iff hdeclared false ⟨4, 0⟩ "Object").2 hbuiltin
  have hother : (ofArrays.heap.get? ⟨4, 0⟩).bind ScriptObject.builtinClass? ≠ some "Array" := by
    rw [hbuiltin]
    decide
  exact ⟨hdeclared, hasked.1, hasked.2.1,
    (isInstanceOf_agree_iff hdeclared false ⟨4, 0⟩ "Array").1.2 hother⟩

/-- An object vector takes `Object` for the class of its elements, and refuses an object of which the
other test says that it is one. -/
theorem isInstanceOf_disagree_ofArrays :
    ofArrays.heap.get? ⟨4, 0⟩ = some (.ofForm .plain) ∧
    ofArrays.isInstanceOf ⟨4, 0⟩ "Object" = true ∧
    (Surroundings.mk false ofArrays.heap ofArrays.registry.tree).isInstanceOf ⟨4, 0⟩ "Object" = false ∧
    ofArrays.registry.tree.lookup? "Object" = some .object ∧
    (TypedVector.ofType .object).restrictTo? (some "Object") =
      some ⟨.typed .object [], false, false, some "Object"⟩ ∧
    TypedVector.admits ⟨.typed .object [], false, false, some "Object"⟩
      (.mk false ofArrays.heap ofArrays.registry.tree) [.object ⟨4, 0⟩] = false := by
  exact ⟨by cbv, by cbv, by cbv, by cbv, by cbv, by cbv⟩

end Realm

end ScriptBridge
