import ScriptBridge.TypedVector.Members

/-!
# Where the Objects in a Vector Come from

Whatever an operation makes of a vector, the objects in it have been there before or are among the
values that the operation was given: conversion never makes an object of something else. `Draws` says
so, and that the element class stays, with one lemma for each operation.

Main statement: `Draws.fits`, a vector that fits its element class still does after an operation that
has been given admitted values.
-/

namespace ScriptBridge

variable {P : Platform}

/-! ## Conversion -/

namespace ElementType

variable {type : ElementType}

/-- Only an object is read as an object. -/
theorem eq_object_of_read? {value : Value} {x : type.Carrier} {k : Handle}
    (hread : type.read? value = some x) (hwrite : type.write x = .object k) : value = .object k := by
  cases type with
  | object =>
    cases x with
    | none => cases hwrite
    | some h =>
      obtain rfl : h = k := Value.object.inj hwrite
      cases value <;> cases hread
      rfl
  | _ => cases hwrite

theorem object_mem_of_readAll? {values : List Value} {xs : List type.Carrier} {k : Handle}
    (hread : type.readAll? values = some xs) (hk : .object k ∈ xs.map type.write) :
    .object k ∈ values := by
  induction values generalizing xs with
  | nil =>
    obtain rfl := Option.some.inj hread
    cases hk
  | cons value values ih =>
    simp only [readAll?, Option.bind_eq_bind, Option.bind_eq_some_iff, Option.pure_def,
      Option.some.injEq] at hread
    obtain ⟨x, hx, ys, hys, rfl⟩ := hread
    rcases List.mem_cons.1 hk with heq | hk
    · rw [eq_object_of_read? hx heq.symm]
      exact List.mem_cons_self
    · exact List.mem_cons_of_mem _ (ih hys hk)

theorem write_zero_ne_object (k : Handle) : type.write type.zero ≠ .object k := by
  cases type <;> exact Value.noConfusion

end ElementType

namespace Elements

theorem mem_handles_iff {e : Elements} {k : Handle} : k ∈ e.handles ↔ .object k ∈ e.values := by
  cases e with
  | untyped => simp [handles, values]
  | typed type items =>
    cases type with
    | object =>
      simp only [handles, values, List.mem_filterMap, List.mem_map, id_eq]
      constructor
      · rintro ⟨x, hx, rfl⟩
        exact ⟨some k, hx, rfl⟩
      · rintro ⟨x, hx, hwrite⟩
        cases x with
        | none => cases hwrite
        | some h => exact ⟨some h, hx, congrArg some (Value.object.inj hwrite)⟩
    | _ => simp [handles, values, ElementType.write]

theorem object_mem_of_ofValues? {type : ElementType} {given : List Value} {e : Elements} {k : Handle}
    (h : ofValues? type given = some e) (hk : .object k ∈ e.values) : .object k ∈ given := by
  obtain ⟨xs, hread, rfl⟩ := Option.map_eq_some_iff.1 h
  exact ElementType.object_mem_of_readAll? hread hk

end Elements

namespace TypedVector

/-! ## Operations -/

/-- What an operation that is given some values makes of a vector: the element class stays, and
the objects come from the vector or from the values. -/
structure Draws (v : TypedVector) (given : List Value) (v' : TypedVector) : Prop where
  elementClass : v'.elementClass = v.elementClass
  objects : ∀ k, .object k ∈ v'.values → .object k ∈ v.values ∨ .object k ∈ given

variable {v v' : TypedVector} {given : List Value}

theorem Draws.refl (v : TypedVector) (given : List Value) : v.Draws given v :=
  ⟨rfl, fun _ hk => Or.inl hk⟩

theorem Draws.trans {v'' : TypedVector} (h : v.Draws given v') (h' : v'.Draws given v'') :
    v.Draws given v'' :=
  ⟨h'.elementClass.trans h.elementClass, fun k hk => (h'.objects k hk).elim (h.objects k) Or.inr⟩

theorem Draws.mono {more : List Value} (h : v.Draws given v') (hmore : ∀ w ∈ given, w ∈ more) :
    v.Draws more v' :=
  ⟨h.elementClass, fun k hk => (h.objects k hk).imp_right (hmore _)⟩

/-- New elements in the same vector. -/
theorem draws_elements {e : Elements}
    (h : ∀ k, .object k ∈ e.values → .object k ∈ v.values ∨ .object k ∈ given) :
    v.Draws given { v with elements := e } := ⟨rfl, h⟩

theorem draws_of_ofValues? {type : ElementType} {e : Elements}
    (h : Elements.ofValues? type given = some e) : v.Draws given { v with elements := e } :=
  draws_elements fun _ hk => Or.inr (Elements.object_mem_of_ofValues? h hk)

theorem draws_retype? {type : ElementType} (h : v.retype? type = some v') : v.Draws [] v' := by
  unfold retype? at h
  split at h
  · obtain rfl := Option.some.inj h
    exact .refl v []
  · split at h
    · cases h
    · obtain ⟨e, he, rfl⟩ := Option.map_eq_some_iff.1 h
      exact draws_elements fun _ hk => Or.inl (Elements.object_mem_of_ofValues? he hk)

theorem draws_adoptType? {value : Value} (h : v.adoptType? value = some v') : v.Draws [] v' := by
  unfold adoptType? at h
  split at h
  · obtain rfl := Option.some.inj h
    exact .refl v []
  · obtain ⟨type, -, h⟩ := Option.bind_eq_some_iff.1 h
    exact draws_retype? h

theorem draws_set? {index : Nat} {value : Value} (h : v.set? index value = some v') :
    v.Draws [value] v' := by
  unfold set? at h
  split at h
  · cases h
  · simp only [Option.bind_eq_bind, Option.bind_eq_some_iff] at h
    obtain ⟨w, hadopt, h⟩ := h
    refine ((draws_adoptType? hadopt).mono (by simp)).trans ?_
    obtain ⟨elements, sizeLocked, typeLocked, elementClass⟩ := w
    cases elements with
    | untyped => cases h
    | typed type items =>
      obtain ⟨x, hread, h⟩ := Option.bind_eq_some_iff.1 h
      obtain rfl := Option.some.inj h
      refine draws_elements fun k hk => ?_
      obtain ⟨y, hy, hwrite⟩ := List.mem_map.1 hk
      -- the element is an old one, or the new one
      have hcases : y ∈ items ∨ y = x := by
        split at hy
        · simpa using hy
        · exact List.mem_or_eq_of_mem_set hy
      rcases hcases with hy | rfl
      · exact Or.inl (List.mem_map.2 ⟨y, hy, hwrite⟩)
      · exact Or.inr (List.mem_singleton.2 (ElementType.eq_object_of_read? hread hwrite).symm)

theorem draws_resize? {size : Nat} (h : v.resize? size = some v') : v.Draws [] v' := by
  unfold resize? at h
  split at h
  · obtain rfl := Option.some.inj h
    exact .refl v []
  · split at h
    · cases h
    · obtain ⟨elements, sizeLocked, typeLocked, elementClass⟩ := v
      cases elements with
      | untyped => cases h
      | typed type items =>
        obtain rfl := Option.some.inj h
        refine draws_elements fun k hk => Or.inl ?_
        obtain ⟨y, hy, hwrite⟩ := List.mem_map.1 hk
        rcases List.mem_append.1 hy with hy | hy
        · exact List.mem_map.2 ⟨y, List.mem_of_mem_take hy, hwrite⟩
        · rw [List.eq_of_mem_replicate hy] at hwrite
          exact absurd hwrite (ElementType.write_zero_ne_object k)

theorem draws_assign? (h : v.assign? given = some v') : v.Draws given v' := by
  unfold assign? at h
  split at h
  · cases h
  · cases given with
    | nil =>
      obtain ⟨elements, sizeLocked, typeLocked, elementClass⟩ := v
      cases elements with
      | untyped =>
        obtain rfl := Option.some.inj h
        exact .refl _ []
      | typed type items =>
        obtain rfl := Option.some.inj h
        exact draws_elements fun k hk => nomatch hk
    | cons first rest =>
      simp only [Option.bind_eq_bind, Option.bind_eq_some_iff] at h
      obtain ⟨type, -, e, he, h⟩ := h
      obtain rfl := Option.some.inj h
      exact draws_of_ofValues? he

theorem draws_copyFrom? {other : TypedVector} (h : v.copyFrom? other = some v') :
    v.Draws other.values v' := by
  unfold copyFrom? at h
  split at h
  · cases h
  · split at h
    · obtain rfl := Option.some.inj h
      exact draws_elements fun k hk => Or.inr hk
    · exact draws_assign? h

theorem draws_push? (h : v.push? given = some v') : v.Draws given v' := by
  unfold push? at h
  split at h
  · cases h
  · cases given with
    | nil =>
      obtain rfl := Option.some.inj h
      exact .refl v []
    | cons first rest =>
      obtain ⟨elements, sizeLocked, typeLocked, elementClass⟩ := v
      cases elements with
      | untyped =>
        simp only [Option.bind_eq_bind, Option.bind_eq_some_iff] at h
        obtain ⟨type, -, e, he, h⟩ := h
        obtain rfl := Option.some.inj h
        exact draws_of_ofValues? he
      | typed type items =>
        obtain ⟨more, hread, h⟩ := Option.bind_eq_some_iff.1 h
        obtain rfl := Option.some.inj h
        refine draws_elements fun k hk => ?_
        have hk : .object k ∈ (items ++ more).map type.write := hk
        rw [List.map_append, List.mem_append] at hk
        exact hk.imp_right (ElementType.object_mem_of_readAll? hread)

theorem draws_pop? {value : Value} (h : v.pop? = some (value, v')) : v.Draws [] v' := by
  unfold pop? at h
  split at h
  · cases h
  · obtain ⟨elements, sizeLocked, typeLocked, elementClass⟩ := v
    cases elements with
    | untyped => cases h
    | typed type items =>
      obtain ⟨x, -, h⟩ := Option.map_eq_some_iff.1 h
      obtain ⟨-, rfl⟩ := Prod.mk.inj h
      refine draws_elements fun k hk => Or.inl ?_
      obtain ⟨y, hy, hwrite⟩ := List.mem_map.1 hk
      exact List.mem_map.2 ⟨y, List.dropLast_subset items hy, hwrite⟩

theorem draws_slice (v : TypedVector) (start : Int) (stop : Option Int) :
    v.Draws [] (v.slice start stop) := by
  refine ⟨rfl, fun k hk => Or.inl ?_⟩
  obtain ⟨elements, sizeLocked, typeLocked, elementClass⟩ := v
  cases elements with
  | untyped => exact hk
  | typed type items =>
    obtain ⟨y, hy, hwrite⟩ := List.mem_map.1 hk
    exact List.mem_map.2 ⟨y, List.mem_of_mem_take (List.mem_of_mem_drop hy), hwrite⟩

theorem draws_splice? {start : Int} {count : Option Nat} {removed : List Value}
    (h : v.splice? start count given = some (removed, v')) : v.Draws given v' := by
  obtain ⟨elements, sizeLocked, typeLocked, elementClass⟩ := v
  cases elements with
  | untyped =>
    cases given with
    | nil =>
      simp only [splice?] at h
      split at h
      · cases h
      · obtain ⟨-, rfl⟩ := Prod.mk.inj (Option.some.inj h)
        exact .refl _ []
    | cons first rest =>
      simp only [splice?] at h
      split at h
      · cases h
      · simp only [Option.bind_eq_bind, Option.bind_eq_some_iff] at h
        obtain ⟨type, -, e, he, h⟩ := h
        obtain ⟨-, rfl⟩ := Prod.mk.inj (Option.some.inj h)
        exact draws_of_ofValues? he
  | typed type items =>
    simp only [splice?] at h
    split at h
    · cases h
    · simp only [Option.bind_eq_bind, Option.bind_eq_some_iff] at h
      obtain ⟨added, hread, h⟩ := h
      obtain ⟨-, rfl⟩ := Prod.mk.inj (Option.some.inj h)
      refine draws_elements fun k hk => ?_
      obtain ⟨y, hy, hwrite⟩ := List.mem_map.1 hk
      rw [List.mem_append, List.mem_append] at hy
      rcases hy with (hy | hy) | hy
      · exact Or.inl (List.mem_map.2 ⟨y, List.mem_of_mem_take hy, hwrite⟩)
      · exact Or.inr (ElementType.object_mem_of_readAll? hread (List.mem_map.2 ⟨y, hy, hwrite⟩))
      · exact Or.inl (List.mem_map.2 ⟨y, List.mem_of_mem_drop hy, hwrite⟩)

theorem draws_lockSize (v : TypedVector) (locked : Bool) : v.Draws [] (v.lockSize locked) :=
  ⟨rfl, fun _ hk => Or.inl hk⟩

theorem draws_lockType (v : TypedVector) (locked : Bool) : v.Draws [] (v.lockType locked) :=
  ⟨rfl, fun _ hk => Or.inl hk⟩

/-! ## The Element Class -/

/-- Every object in a vector is an instance of its element class, if it has one. -/
def Fits (v : TypedVector) (m : Surroundings P) : Prop :=
  ∀ name, v.elementClass = some name → ∀ k ∈ v.handles, m.isInstanceOf k name = true

variable {m : Surroundings P}

theorem mem_handles_iff {k : Handle} : k ∈ v.handles ↔ .object k ∈ v.values :=
  Elements.mem_handles_iff

theorem admits_iff : v.admits m given = true ↔
    ∀ name, v.elementClass = some name → ∀ k, .object k ∈ given → m.isInstanceOf k name = true := by
  unfold admits
  cases hclass : v.elementClass with
  | none => simp
  | some name =>
    simp only [List.all_eq_true, Option.some.injEq, forall_eq']
    constructor
    · exact fun h k hk => h (.object k) hk
    · intro h value hvalue
      cases value with
      | object k => exact h k hvalue
      | _ => rfl

/-- A vector fits when it would admit its own elements. -/
theorem fits_iff_admits : v.Fits m ↔ v.admits m v.values = true := by
  rw [admits_iff, Fits]
  simp only [mem_handles_iff]

/-- A vector that fits still does after an operation that has been given admitted values. -/
theorem Draws.fits (h : v.Draws given v') (hv : v.Fits m) (hgiven : v.admits m given = true) :
    v'.Fits m := by
  intro name hname k hk
  rw [h.elementClass] at hname
  rcases h.objects k (mem_handles_iff.1 hk) with hk | hk
  · exact hv name hname k (mem_handles_iff.2 hk)
  · exact admits_iff.1 hgiven name hname k hk

theorem Draws.fits_of_nil (h : v.Draws [] v') (hv : v.Fits m) : v'.Fits m :=
  h.fits hv (admits_iff.2 fun _ _ _ hk => nomatch hk)

theorem Draws.handles_eq_nil (h : v.Draws [] v') (hv : v.handles = []) : v'.handles = [] := by
  rw [List.eq_nil_iff_forall_not_mem] at hv ⊢
  intro k hk
  rcases h.objects k (mem_handles_iff.1 hk) with hk | hk
  · exact hv k (mem_handles_iff.2 hk)
  · cases hk

/-- Naming a class changes no element. -/
theorem handles_restrictTo? {name : Option String} (h : v.restrictTo? name = some v') :
    v'.elementClass = name ∧ v'.handles = v.handles := by
  unfold restrictTo? at h
  split at h
  · obtain rfl := Option.some.inj h
    exact ⟨rfl, rfl⟩
  · split at h
    · next helements =>
      obtain rfl := Option.some.inj h
      refine ⟨rfl, ?_⟩
      show Elements.handles (.typed .object []) = v.elements.handles
      rw [helements]
      rfl
    · obtain rfl := Option.some.inj h
      exact ⟨rfl, rfl⟩
    · cases h

end TypedVector

end ScriptBridge
