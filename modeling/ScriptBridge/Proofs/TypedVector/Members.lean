import ScriptBridge.Proofs.TypedVector.Elements
import ScriptBridge.Proofs.Realm.Reachable

/-!
# What Members Make of a Vector

Scripts get at a vector through the properties of its class and through its elements. Each of them
admits objects of the element class only, so the vector still fits afterwards; only the property that
names the class has to be told which class the elements are of already.

Main statements: `Members.turns_property` and `Members.turns_elements`, what a write makes of the
vector in native state, and `Members.turns_early` (a property that is written early adds no object).
-/

namespace ScriptBridge

open Realm (after after_get after_lift_bind_of_ok)

variable {P : Platform} {α β : Type}

/-! ## Vectors in Native State -/

namespace Native

theorem vector?_setVector {L : Type} (native : Native L) (v : TypedVector) :
    (native.setVector v).vector? = native.vector?.map fun _ => v := by
  induction native with
  | vector => rfl
  | base => rfl
  | derived layer rest ih => exact ih

end Native

theorem Facet.vector?_of_demand {native : Native P.Layer} {v : TypedVector}
    (h : Facet.vector.demand native = .ok v) : native.vector? = some v := by
  have hfind : Facet.vector.find? native = native.vector? := rfl
  unfold Facet.demand at h
  rw [hfind] at h
  cases hv : native.vector? with
  | none =>
    rw [hv] at h
    cases h
  | some part =>
    rw [hv] at h
    rw [Except.ok.inj h]

namespace NativeAction

/-- The vector in a receiver, if there is one, comes from one that has been there before. -/
def Turned (rel : TypedVector → TypedVector → Prop) (a b : Receiver P) : Prop :=
  ∀ v', b.native.vector? = some v' → ∃ v, a.native.vector? = some v ∧ rel v v'

/-- What an action makes of the vector in its receiver. -/
def Turns (action : NativeAction P α) (rel : TypedVector → TypedVector → Prop) : Prop :=
  ∀ receiver, Turned rel receiver (after action receiver)

/-- An action leaves the vector in its receiver alone. -/
def Spares (action : NativeAction P α) : Prop :=
  ∀ receiver, (after action receiver).native.vector? = receiver.native.vector?

variable {rel rel' : TypedVector → TypedVector → Prop}

theorem Turned.refl (hrefl : ∀ v, rel v v) (receiver : Receiver P) : Turned rel receiver receiver :=
  fun v hv => ⟨v, hv, hrefl v⟩

theorem Turns.imp {action : NativeAction P α} (h : Turns action rel)
    (himp : ∀ v v', rel v v' → rel' v v') : Turns action rel' := by
  intro receiver v' hv'
  obtain ⟨v, hv, hrel⟩ := h receiver v' hv'
  exact ⟨v, hv, himp v v' hrel⟩

theorem Spares.turns {action : NativeAction P α} (h : Spares action) (hrefl : ∀ v, rel v v) :
    Turns action rel := by
  intro receiver v' hv'
  rw [h receiver] at hv'
  exact ⟨v', hv', hrefl v'⟩

/-- A vector goes back as the setter has left it; one that is refused stays. -/
theorem turns_writer {set : TypedVector → Except ScriptError (α × TypedVector)}
    (hrefl : ∀ v, rel v v) (h : ∀ v answer v', set v = .ok (answer, v') → rel v v') :
    Turns (Facet.vector.writer (P := P) set) rel := by
  intro receiver
  unfold Facet.writer
  refine after_get (after_lift_bind_of_ok (Turned.refl hrefl) fun v hv => ?_)
  refine after_lift_bind_of_ok (Turned.refl hrefl) fun ⟨answer, made⟩ hset => ?_
  intro v' hv'
  have hfound := Facet.vector?_of_demand hv
  have hmade : (receiver.native.setVector made).vector? = some v' := hv'
  rw [Native.vector?_setVector, hfound, Option.map_some, Option.some.injEq] at hmade
  subst hmade
  exact ⟨v, hfound, h v answer made hset⟩

end NativeAction

/-! ## Properties -/

/-- If a value names a class at the property for the element class, the elements are instances of
this class already. -/
def TypedVector.Allows (v : TypedVector) (m : Surroundings P) (name : String) (value : Value) : Prop :=
  ∀ cls, name = "elementClass" → value = .string cls → ∀ k ∈ v.handles, m.isInstanceOf k cls = true

namespace TypedVector.Members

open NativeAction (Turns turns_writer)

variable {rel : TypedVector → TypedVector → Prop}

theorem turns_dynamic {tag : Tag} {get : TypedVector → Value}
    {set : Value → Surroundings P → TypedVector → Except ScriptError TypedVector} {value : Value}
    {m : Surroundings P} (hrefl : ∀ v, rel v v) (h : ∀ v v', set value m v = .ok v' → rel v v') :
    Turns ((dynamic tag get set).write value m) rel := by
  refine turns_writer hrefl fun v answer v' hset => ?_
  cases hmade : set value m v with
  | error error =>
    rw [hmade] at hset
    cases hset
  | ok made =>
    rw [hmade] at hset
    obtain ⟨-, rfl⟩ := Prod.mk.inj (Except.ok.inj hset)
    exact h v made hmade

theorem turns_fixed {target : Target} {get : TypedVector → Value}
    {set : Value → TypedVector → Except ScriptError TypedVector} {value : Value}
    {m : Surroundings P} (hrefl : ∀ v, rel v v)
    (h : ∀ value v v', set value v = .ok v' → rel v v') :
    Turns ((fixed target get set).write value m) rel := by
  intro receiver
  refine Realm.after_lift_bind_of_ok (NativeAction.Turned.refl hrefl) fun converted _ => ?_
  refine turns_writer hrefl (fun v answer v' hset => ?_) receiver
  cases hmade : set converted v with
  | error error =>
    rw [hmade] at hset
    cases hset
  | ok made =>
    rw [hmade] at hset
    obtain ⟨-, rfl⟩ := Prod.mk.inj (Except.ok.inj hset)
    exact h converted v made hmade

variable {value : Value} {m : Surroundings P}

theorem draws_getD {v : TypedVector} {given : List Value} {made : Option TypedVector}
    (h : ∀ v', made = some v' → v.Draws given v') : v.Draws given (made.getD v) := by
  cases made with
  | none => exact .refl v given
  | some v' => exact h v' rfl

theorem turns_type : Turns (type.write value m) (Draws · []) := by
  refine turns_dynamic (fun v => .refl v []) fun v v' hset => ?_
  split at hset
  · obtain rfl := Except.ok.inj hset
    exact .refl v []
  · obtain ⟨text, -, hset⟩ := Registry.except_bind_eq_ok hset
    split at hset
    · split at hset
      · obtain rfl := Except.ok.inj hset
        exact draws_getD fun v' h => draws_retype? h
      · cases hset
    · cases hset

/-- What naming a class for the elements makes of a vector. -/
structure Renames (value : Value) (v v' : TypedVector) : Prop where
  handles : v'.handles = v.handles
  elementClass : ∀ name, v'.elementClass = some name →
    v.elementClass = some name ∨ value = .string name

theorem renames_restrictTo? {v v' : TypedVector} {name? : Option String}
    (h : v.restrictTo? name? = some v') (hname : ∀ name, name? = some name → value = .string name) :
    Renames value v v' := by
  obtain ⟨hclass, hhandles⟩ := handles_restrictTo? h
  exact ⟨hhandles, fun name hnamed => Or.inr (hname name (hclass.symm.trans hnamed))⟩

/-- Only a text is read as a text. -/
theorem eq_string_of_read {text : String} (h : Target.string.read value = .ok (.string text)) :
    value = .string text := by
  cases value <;> cases h
  rfl

/-- Only an array is read as an array. -/
theorem eq_array_of_read {origin : Option Handle} {items : List Value}
    (h : Target.array.read value = .ok (.array origin items)) : value = .array origin items := by
  cases value <;> cases h
  rfl

theorem turns_elementClass : Turns (elementClass.write value m) (Renames value) := by
  refine turns_dynamic (fun v => ⟨rfl, fun _ hname => Or.inl hname⟩) fun v v' hset => ?_
  split at hset
  -- a missing value lifts the limit
  · simp only [pure_bind] at hset
    split at hset
    · next made hmade =>
      obtain rfl := Except.ok.inj hset
      exact renames_restrictTo? hmade fun _ hnone => nomatch hnone
    · cases hset
  · obtain ⟨read, hread, hset⟩ := Registry.except_bind_eq_ok hset
    split at hset
    · next text =>
      split at hset
      · cases hset
      · simp only [pure_bind] at hset
        split at hset
        · next made hmade =>
          obtain rfl := Except.ok.inj hset
          refine renames_restrictTo? hmade fun name hname => ?_
          rw [← Option.some.inj hname]
          exact eq_string_of_read hread
        · cases hset
    · cases hset

theorem turns_data : Turns (data.write value m) fun v v' => v.Fits m → v'.Fits m := by
  refine turns_dynamic (fun v => id) fun v v' hset hfits => ?_
  split at hset
  · obtain rfl := Except.ok.inj hset
    exact hfits
  · obtain ⟨array, -, hset⟩ := Registry.except_bind_eq_ok hset
    split at hset
    · next origin items =>
      obtain rfl := Except.ok.inj hset
      by_cases hadmits : v.admits m items = true
      · rw [if_pos hadmits]
        exact (draws_getD fun v' h => draws_assign? h).fits hfits hadmits
      · rw [if_neg hadmits]
        exact hfits
    · cases hset

theorem turns_length : Turns (length.write value m) (Draws · []) := by
  refine turns_fixed (fun v => .refl v []) fun value v v' hset => ?_
  split at hset
  · next size =>
    split at hset
    · cases hset
    · obtain rfl := Except.ok.inj hset
      exact draws_getD fun v' h => draws_resize? h
  · obtain rfl := Except.ok.inj hset
    exact .refl v []

theorem turns_typeLocked : Turns (typeLocked.write value m) (Draws · []) := by
  refine turns_fixed (fun v => .refl v []) fun value v v' hset => ?_
  obtain rfl := Except.ok.inj hset
  split
  · exact draws_lockType v _
  · exact .refl v []

theorem turns_sizeLocked : Turns (sizeLocked.write value m) (Draws · []) := by
  refine turns_fixed (fun v => .refl v []) fun value v v' hset => ?_
  obtain rfl := Except.ok.inj hset
  split
  · exact draws_lockSize v _
  · exact .refl v []

/-- A property of the class of typed vectors keeps a vector fit, if what it is given allows for the
elements that are there. -/
theorem turns_property {name : String} {accessor : Accessor P} {flags : PropertyFlags}
    (hmember : (name, accessor, flags) ∈ properties) (value : Value) (m : Surroundings P) :
    Turns (accessor.write value m) fun v v' => v.Allows m name value → v.Fits m → v'.Fits m := by
  simp only [properties, List.mem_cons, Prod.mk.injEq, List.not_mem_nil, or_false] at hmember
  have hdraws : ∀ {v v' : TypedVector}, v.Draws [] v' → v.Allows m name value → v.Fits m → v'.Fits m :=
    fun h _ hfits => h.fits_of_nil hfits
  rcases hmember with ⟨rfl, rfl, -⟩ | ⟨rfl, rfl, -⟩ | ⟨rfl, rfl, -⟩ | ⟨rfl, rfl, -⟩ | ⟨rfl, rfl, -⟩ |
    ⟨rfl, rfl, -⟩
  · exact turns_type.imp fun v v' h => hdraws h
  · refine turns_elementClass.imp fun v v' h hallows hfits cls hcls k hk => ?_
    rw [h.handles] at hk
    rcases h.elementClass cls hcls with hbefore | hvalue
    · exact hfits cls hbefore k hk
    · exact hallows cls rfl hvalue k hk
  · exact turns_data.imp fun v v' h _ => h
  · exact turns_length.imp fun v v' h => hdraws h
  · exact turns_typeLocked.imp fun v v' h => hdraws h
  · exact turns_sizeLocked.imp fun v v' h => hdraws h

/-- A property that is written early puts nothing into an empty vector. -/
theorem turns_early {name : String} {accessor : Accessor P} {flags : PropertyFlags}
    (hmember : (name, accessor, flags) ∈ properties) (hearly : flags.contains .early = true)
    (value : Value) (m : Surroundings P) :
    Turns (accessor.write value m) fun v v' => v.handles = [] → v'.handles = [] := by
  simp only [properties, List.mem_cons, Prod.mk.injEq, List.not_mem_nil, or_false] at hmember
  rcases hmember with ⟨-, rfl, -⟩ | ⟨-, rfl, -⟩ | ⟨-, -, rfl⟩ | ⟨-, -, rfl⟩ | ⟨-, -, rfl⟩ |
    ⟨-, -, rfl⟩
  · exact turns_type.imp fun v v' h => h.handles_eq_nil
  · exact turns_elementClass.imp fun v v' h hv => h.handles.trans hv
  all_goals exact absurd hearly (by decide)

/-- What is no array puts nothing into an empty vector, whichever property it is written to. -/
theorem turns_of_not_array {name : String} {accessor : Accessor P} {flags : PropertyFlags}
    (hmember : (name, accessor, flags) ∈ properties)
    (hvalue : ∀ origin items, value ≠ .array origin items) (m : Surroundings P) :
    Turns (accessor.write value m) fun v v' => v.handles = [] → v'.handles = [] := by
  simp only [properties, List.mem_cons, Prod.mk.injEq, List.not_mem_nil, or_false] at hmember
  rcases hmember with ⟨-, rfl, -⟩ | ⟨-, rfl, -⟩ | ⟨-, rfl, -⟩ | ⟨-, rfl, -⟩ | ⟨-, rfl, -⟩ |
    ⟨-, rfl, -⟩
  · exact turns_type.imp fun v v' h => h.handles_eq_nil
  · exact turns_elementClass.imp fun v v' h hv => h.handles.trans hv
  · refine turns_dynamic (fun v => id) fun v v' hset hv => ?_
    split at hset
    · obtain rfl := Except.ok.inj hset
      exact hv
    · obtain ⟨array, hread, hset⟩ := Registry.except_bind_eq_ok hset
      split at hset
      · next origin items => exact absurd (eq_array_of_read hread) (hvalue origin items)
      · cases hset
  · exact turns_length.imp fun v v' h => h.handles_eq_nil
  · exact turns_typeLocked.imp fun v v' h => h.handles_eq_nil
  · exact turns_sizeLocked.imp fun v v' h => h.handles_eq_nil

/-- An element is stored if it is admitted. -/
theorem turns_elements (index : Nat) (value : Value) (m : Surroundings P) :
    Turns (elements.set index value m) fun v v' => v.Fits m → v'.Fits m := by
  refine turns_writer (fun v => id) fun v answer v' hset hfits => ?_
  split at hset
  · next hadmits =>
    split at hset
    · next made hmade =>
      obtain ⟨-, rfl⟩ := Prod.mk.inj (Except.ok.inj hset)
      exact (draws_set? hmade).fits hfits hadmits
    · obtain ⟨-, rfl⟩ := Prod.mk.inj (Except.ok.inj hset)
      exact hfits
  · obtain ⟨-, rfl⟩ := Prod.mk.inj (Except.ok.inj hset)
    exact hfits

end TypedVector.Members

end ScriptBridge
