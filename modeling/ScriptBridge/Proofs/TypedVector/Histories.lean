import ScriptBridge.Proofs.TypedVector.Locks

/-!
# Element Classes along Histories

A class that is named for the elements of a vector makes sense for objects only. Naming one makes a
vector without a type one of objects, and is refused for a vector of another type; afterwards the
elements stay objects, since an object or a missing one converts to nothing else. An empty vector has
no element that could refuse, though: its type can be changed as long as it is not locked, and the class
stays behind.

Main statements: `Operation.coupled_on` (the one way out, for a single operation) and
`Reached.coupled` (for whole histories).
-/

namespace ScriptBridge

namespace ElementType

/-- Neither an object nor a missing one converts to anything else. -/
theorem read?_write_object {type : ElementType} (h : type ≠ .object) (x : Carrier .object) :
    type.read? (write .object x) = none := by
  cases type with
  | object => exact absurd rfl h
  | bool | byte | int | float | double | string => cases x <;> rfl

theorem readAll?_map_write_object {type : ElementType} (h : type ≠ .object) {xs : List (Carrier .object)}
    (hnonempty : xs ≠ []) : type.readAll? (xs.map (write .object)) = none := by
  cases xs with
  | nil => exact absurd rfl hnonempty
  | cons x xs => rw [List.map_cons, readAll?, read?_write_object h]; rfl

end ElementType

namespace TypedVector

/-- An element class comes with objects only. -/
def Coupled (v : TypedVector) : Prop := v.elementClass.isSome = true → v.type? = some .object

/-- What keeps a declared type and the class keeps them together. -/
theorem Stays.coupled {v w : TypedVector} (h : v.Stays w) (hv : v.Coupled) : w.Coupled := by
  intro hclass
  rw [h.elementClass] at hclass
  exact h.type .object (hv hclass)

/-- The elements of a vector with a class are objects. -/
theorem Coupled.elements {v : TypedVector} (hv : v.Coupled) (hclass : v.elementClass.isSome = true) :
    ∃ items, v.elements = .typed .object items := by
  have htype : v.elements.type? = some .object := hv hclass
  cases helements : v.elements with
  | untyped =>
    rw [helements] at htype
    cases htype
  | typed type items =>
    rw [helements] at htype
    obtain rfl := Option.some.inj htype
    exact ⟨items, rfl⟩

end TypedVector

namespace Operation

open TypedVector

variable {op : Operation} {v w : TypedVector} {report : Report}

/-- The type of an empty vector with an element class is changed to one that is not objects. -/
def Strays (op : Operation) (v : TypedVector) : Prop :=
  ∃ type, op = .retype type ∧ type ≠ .object ∧ v.elementClass.isSome = true ∧ v.size = 0 ∧
    v.typeLocked = false

theorem Effect.coupled (h : Effect v op w) (hv : v.Coupled) (hstays : ¬ op.Strays v) : w.Coupled := by
  cases h with
  | stays h => exact h.coupled hv
  | restricts _ _ hobject => exact hobject
  | @retypes type e hother hfree hread =>
    intro hclass
    obtain ⟨items, helements⟩ := hv.elements hclass
    have htype : v.type? = some .object := hv hclass
    have hne : type ≠ .object := by
      rintro rfl
      exact hother htype
    cases items with
    | cons x xs =>
      -- an element refuses the conversion
      rw [Elements.ofValues?, TypedVector.values, helements, Elements.values,
        ElementType.readAll?_map_write_object hne (List.cons_ne_nil x xs)] at hread
      cases hread
    | nil =>
      refine absurd ⟨type, rfl, hne, hclass, by rw [size, helements]; rfl, ?_⟩ hstays
      rcases hfree with hnone | hfree
      · cases hnone.symm.trans htype
      · exact hfree

/-- An empty vector lets go of its type, and not of its class. -/
theorem Strays.not_coupled (h : op.Strays v) (hv : v.Coupled) : ¬ (op.edit.on v).2.Coupled := by
  obtain ⟨type, rfl, hne, hclass, hsize, hfree⟩ := h
  obtain ⟨items, helements⟩ := hv.elements hclass
  obtain ⟨elements, sizeLocked, typeLocked, elementClass⟩ := v
  obtain rfl : elements = _ := helements
  obtain rfl : items = [] := List.length_eq_zero_iff.1 hsize
  obtain rfl : typeLocked = false := hfree
  have hmade : (retype type).made? ⟨.typed .object [], sizeLocked, false, elementClass⟩ =
      some (.done, ⟨.typed type [], sizeLocked, false, elementClass⟩) := by
    have hother : (⟨.typed .object [], sizeLocked, false, elementClass⟩ : TypedVector).type? ≠
        some type := fun heq => hne (Option.some.inj heq).symm
    rw [made?, retype?, if_neg hother]
    rfl
  rw [on_edit, hmade]
  exact fun hcoupled => hne (Option.some.inj (hcoupled hclass))

/-- Changing the type of an empty vector is the only way to have a class without objects. -/
theorem coupled_on (op : Operation) (hv : v.Coupled) : (op.edit.on v).2.Coupled ↔ ¬ op.Strays v := by
  refine ⟨fun hcoupled hstrays => hstrays.not_coupled hv hcoupled, fun hstays => ?_⟩
  rw [on_edit]
  cases hmade : op.made? v with
  | none => exact hv
  | some made => exact (effect hmade).coupled hv hstays

end Operation

/-! ## Histories -/

namespace TypedVector

/-- A vector as it has become by operations that are allowed on the vectors that they meet. -/
inductive Reached (allowed : Operation → TypedVector → Prop) : TypedVector → Prop
  /-- A new vector. -/
  | empty : Reached allowed empty
  /-- A new vector of a type. -/
  | ofType (type : ElementType) : Reached allowed (ofType type)
  /-- An operation that may have been refused. -/
  | perform {v : TypedVector} (op : Operation) :
      Reached allowed v → allowed op v → Reached allowed (op.edit.on v).2
  /-- A copy of some of the elements. -/
  | slice {v : TypedVector} (start : Int) (stop : Option Int) :
      Reached allowed v → Reached allowed (v.slice start stop)
  /-- The size is locked or unlocked. -/
  | lockSize {v : TypedVector} (locked : Bool) : Reached allowed v → Reached allowed (v.lockSize locked)
  /-- The type is locked or unlocked. -/
  | lockType {v : TypedVector} (locked : Bool) : Reached allowed v → Reached allowed (v.lockType locked)

variable {v : TypedVector}

theorem coupled_slice (hv : v.Coupled) (start : Int) (stop : Option Int) : (v.slice start stop).Coupled := by
  intro hclass
  obtain ⟨items, helements⟩ := hv.elements hclass
  obtain ⟨elements, sizeLocked, typeLocked, elementClass⟩ := v
  obtain rfl : elements = _ := helements
  rfl

/-- **An element class comes with objects**, as long as no empty vector with a class changes its type;
and changing it is the one operation after which there is a class without objects. -/
theorem coupled_of_reached (h : Reached (fun op v => ¬ op.Strays v) v) :
    v.Coupled ∧ ∀ op : Operation, (op.edit.on v).2.Coupled ↔ ¬ op.Strays v := by
  have hv : v.Coupled := by
    induction h with
    | empty => exact nofun
    | ofType type => exact nofun
    | perform op _ hstays ih => exact (op.coupled_on ih).2 hstays
    | slice start stop _ ih => exact coupled_slice ih start stop
    | lockSize locked _ ih => exact ih
    | lockType locked _ ih => exact ih
  exact ⟨hv, fun op => op.coupled_on hv⟩

/-- A vector that a class is named for, and that takes up a missing object afterwards. -/
theorem coupled_of_reached_item :
    let v := ((Operation.push [.null]).edit.on
      ((Operation.restrictTo (some "Item")).edit.on empty).2).2
    v.elementClass = some "Item" ∧ v.size = 1 ∧ v.Coupled :=
  have hnamed : Reached (fun op v => ¬ op.Strays v)
      ((Operation.restrictTo (some "Item")).edit.on empty).2 :=
    .perform _ .empty fun ⟨_, h, _⟩ => nomatch h
  ⟨rfl, rfl, (coupled_of_reached (.perform (.push [.null]) hnamed fun ⟨_, h, _⟩ => nomatch h)).1⟩

/-- The type of an empty object vector with a class is changed. -/
theorem class_without_objects :
    ∃ v : TypedVector, Reached (fun _ _ => True) v ∧ v.elementClass = some "Item" ∧
      v.type? = some .int :=
  have hnamed := Reached.perform (.restrictTo (some "Item")) (.ofType .object) trivial
  ⟨_, .perform (.retype .int) hnamed trivial, rfl, rfl⟩

end TypedVector

end ScriptBridge
