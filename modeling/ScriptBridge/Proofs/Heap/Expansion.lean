import ScriptBridge.Proofs.Heap.WriteBack

/-!
# Expanding any Value

A value is expanded by following handles, not by taking the value apart, and arrays of the heap may
contain themselves, each other, and the items of arrays that have no handle. Expanding ends all the
same: an array is cut where it stands inside of itself, and nowhere else. What comes out is given
place by place, and it has nothing in it that could be expanded further.

Main statement: `expansion_expand`.
-/

namespace ScriptBridge

variable {P : Platform}

/-! ## Places in Values -/

namespace Value

/-- What stands at a place in a value. A place is a row of positions, each of which leads from an array
to one of its items. -/
def part? : Value → List Nat → Option Value
  | v, [] => some v
  | .array _ items, i :: place => items[i]?.bind fun item => part? item place
  | _, _ :: _ => none

theorem part?_item (origin : Option Handle) {items : List Value} {item : Value} (h : item ∈ items)
    (place : List Nat) : ∃ i, (array origin items).part? (i :: place) = item.part? place := by
  obtain ⟨i, hi⟩ := List.getElem?_of_mem h
  exact ⟨i, by rw [part?, hi, Option.bind_some]⟩

mutual

/-- How deep a value nests: a value that is no array has height one. -/
def height : Value → Nat
  | array _ items => heightOf items + 1
  | _ => 1

/-- How deep the deepest of several values nests. -/
def heightOf : List Value → Nat
  | [] => 0
  | v :: vs => max (height v) (heightOf vs)

end

theorem height_pos (v : Value) : 0 < v.height := by
  cases v <;> simp [height]

theorem height_le_heightOf {v : Value} {vs : List Value} (h : v ∈ vs) : v.height ≤ heightOf vs := by
  induction vs with
  | nil => cases h
  | cons w vs ih =>
    rw [heightOf]
    rcases List.mem_cons.1 h with rfl | h
    · exact Nat.le_max_left _ _
    · exact Nat.le_trans (ih h) (Nat.le_max_right _ _)

end Value

namespace Heap

section

variable {heap : Heap P} {path : List Handle} {a : Handle} {u v : Value}

/-! ## Ways to Expand -/

/-- How a value is expanded inside of the arrays of `path`: the ways of `Unfolds`, and an array without
a handle, whose items are expanded one by one. -/
inductive Expands (heap : Heap P) : List Handle → Value → Prop
  | leaf {path : List Handle} {v : Value} :
      v.isInline = false → (∀ h, v = .object h → heap.items? h = none) → Expands heap path v
  | cut {path : List Handle} {a : Handle} {items : Array Value} :
      heap.items? a = some items → a ∈ path → Expands heap path (.object a)
  | enter {path : List Handle} {a : Handle} {items : Array Value} :
      heap.items? a = some items → a ∉ path → (∀ v ∈ items.toList, Expands heap (a :: path) v) →
      Expands heap path (.object a)
  | inline {path : List Handle} {origin : Option Handle} {items : List Value} :
      (∀ v ∈ items, Expands heap path v) → Expands heap path (.array origin items)

/-- Every value is expanded in one of these ways, whatever stands in the heap. -/
theorem expands (heap : Heap P) (path : List Handle) (v : Value) : heap.Expands path v := by
  cases v with
  | object a =>
    cases hitems : heap.items? a with
    | none => exact .leaf rfl fun h hh => Value.object.inj hh ▸ hitems
    | some items =>
      by_cases hpath : a ∈ path
      · exact .cut hitems hpath
      -- an array that is entered leaves fewer objects off the path
      · obtain ⟨fields, hget⟩ := get?_of_items? hitems
        have hless : heap.offPath (a :: path) < heap.offPath path :=
          offPath_cons_lt hget (by simpa using hpath)
        exact .enter hitems hpath fun v _ => expands heap (a :: path) v
  | array origin items =>
    exact .inline fun v hv => by
      have hsmaller := List.sizeOf_lt_of_mem hv
      exact expands heap path v
  | _ => exact .leaf rfl fun h hh => by cases hh
termination_by (heap.offPath path, sizeOf v)
decreasing_by
  · exact Prod.Lex.left _ _ hless
  · exact Prod.Lex.right _ (by simp only [Value.array.sizeOf_spec]; omega)

theorem expandOn_array (heap : Heap P) (path : List Handle) (origin : Option Handle)
    (items : List Value) : heap.expandOn path (.array origin items) =
      .array origin (items.map (heap.expandOn path)) := by
  rw [expandOn, expandItems_eq_map]

/-! ## Expanding as a Run -/

/-- Expanding as a run that keeps marks: an array is marked while its items are expanded, and one that
is marked is cut. The calls may nest `depth` deep. -/
def expandMarking (heap : Heap P) : Nat → Value → StateT (List Handle) Option Value
  | 0, _ => failure
  | depth + 1, .object a =>
    match heap.items? a with
    | none => pure (.object a)
    | some items => do
      if (← get).contains a then return .null
      modifyThe (List Handle) (a :: ·)
      let values ← items.toList.mapM (heap.expandMarking depth)
      -- whoever meets the array again outside of it may enter it again
      modifyThe (List Handle) (·.erase a)
      return .array (some a) values
  | depth + 1, .array origin items => do
    return .array origin (← items.mapM (heap.expandMarking depth))
  | _ + 1, v => pure v

/-- Several values are expanded one after the other, each with the marks that were there before. -/
theorem run_mapM_expandMarking {depth : Nat} {marks : List Handle} {values : List Value}
    (h : ∀ v ∈ values, (heap.expandMarking depth v).run marks = some (heap.expandOn path v, marks)) :
    (values.mapM (heap.expandMarking depth)).run marks =
      some (values.map (heap.expandOn path), marks) := by
  induction values with
  | nil => rfl
  | cons v values ih =>
    have hrest := ih fun w hw => h w (List.mem_cons_of_mem _ hw)
    rw [List.mapM_cons, StateT.run_bind, h v List.mem_cons_self, Option.bind_eq_bind, Option.bind_some,
      StateT.run_bind, hrest]
    rfl

/-- The run ends when its calls may nest as deep as the result does, and takes back all of its
marks. -/
theorem run_expandMarking (heap : Heap P) (path : List Handle) (v : Value) {depth : Nat}
    (hdepth : (heap.expandOn path v).height ≤ depth) :
    (heap.expandMarking depth v).run path = some (heap.expandOn path v, path) := by
  induction heap.expands path v generalizing depth with
  | @leaf path v hv hnone =>
    obtain ⟨depth, rfl⟩ : ∃ n, depth = n + 1 :=
      Nat.exists_eq_add_one.2 (Nat.lt_of_lt_of_le (Value.height_pos _) hdepth)
    rw [expandOn_of_items?_eq_none hv hnone]
    cases v with
    | object h =>
      rw [expandMarking, hnone h rfl]
      rfl
    | array origin items => cases hv
    | _ => rfl
  | @cut path a items hitems hpath =>
    obtain ⟨depth, rfl⟩ : ∃ n, depth = n + 1 :=
      Nat.exists_eq_add_one.2 (Nat.lt_of_lt_of_le (Value.height_pos _) hdepth)
    rw [expandOn_of_mem hitems hpath, expandMarking, hitems]
    show (StateT.run (if path.contains a = true then _ else _) path) = _
    rw [if_pos (by simpa using hpath)]
    rfl
  | @enter path a items hitems hpath _ ih =>
    rw [expandOn_of_not_mem hitems hpath, Value.height] at hdepth
    obtain ⟨depth, rfl⟩ : ∃ n, depth = n + 1 := Nat.exists_eq_add_one.2 (by omega)
    have hitem : ∀ v ∈ items.toList, (heap.expandOn (a :: path) v).height ≤ depth := fun v hv =>
      Nat.le_trans (Value.height_le_heightOf (List.mem_map_of_mem hv)) (by omega)
    have hall := run_mapM_expandMarking fun v hv => ih v hv (hitem v hv)
    rw [expandOn_of_not_mem hitems hpath, expandMarking, hitems]
    show (StateT.run (if path.contains a = true then _ else _) path) = _
    rw [if_neg (by simpa using hpath)]
    have hmark : (modifyThe (List Handle) (a :: ·) : StateT (List Handle) Option PUnit).run path =
        some (⟨⟩, a :: path) := rfl
    rw [StateT.run_bind, hmark, Option.bind_eq_bind, Option.bind_some, StateT.run_bind, hall]
    show some (_, (a :: path).erase a) = _
    rw [List.erase_cons_head]
  | @inline path origin items _ ih =>
    rw [expandOn_array, Value.height] at hdepth
    obtain ⟨depth, rfl⟩ : ∃ n, depth = n + 1 := Nat.exists_eq_add_one.2 (by omega)
    have hitem : ∀ v ∈ items, (heap.expandOn path v).height ≤ depth := fun v hv =>
      Nat.le_trans (Value.height_le_heightOf (List.mem_map_of_mem hv)) (by omega)
    have hall := run_mapM_expandMarking fun v hv => ih v hv (hitem v hv)
    rw [expandOn_array, expandMarking, StateT.run_bind, hall]
    rfl

/-! ## What Comes Out, Place by Place -/

/-- What one comes to in the heap at a place, starting inside of the arrays of `path`: the arrays of the
heap that one is in then, innermost first, and the value that stands there. No place lies beyond the
second meeting with an array. -/
def trail? (heap : Heap P) (path : List Handle) : Value → List Nat → Option (List Handle × Value)
  | v, [] => some (path, v)
  | .object a, i :: place =>
    if a ∈ path then none
    else (heap.items? a).bind fun items => items[i]?.bind fun item =>
      trail? heap (a :: path) item place
  | .array _ items, i :: place => items[i]?.bind fun item => trail? heap path item place
  | _, _ :: _ => none

/-- What is seen outside for a value that stands inside of the arrays of `path`. -/
inductive Shown (heap : Heap P) (path : List Handle) : Value → Value → Prop
  /-- An array inside of itself is cut with null. -/
  | cut {a : Handle} {items : Array Value} :
      heap.items? a = some items → a ∈ path → Shown heap path (.object a) .null
  /-- Any other array of the heap carries its handle and as many items as it has. -/
  | entered {a : Handle} {items : Array Value} {values : List Value} :
      heap.items? a = some items → a ∉ path → values.length = items.size →
      Shown heap path (.object a) (.array (some a) values)
  /-- An array without a handle stays one, with its origin and as many items. -/
  | inline {origin : Option Handle} {items values : List Value} :
      values.length = items.length → Shown heap path (.array origin items) (.array origin values)
  /-- What is no array stays as it is. -/
  | same {v : Value} : v.isInline = false → (∀ h, v = .object h → heap.items? h = none) →
      Shown heap path v v

theorem shown_expandOn (heap : Heap P) (path : List Handle) (v : Value) :
    heap.Shown path v (heap.expandOn path v) := by
  cases heap.expands path v with
  | leaf hv hnone =>
    rw [expandOn_of_items?_eq_none hv hnone]
    exact .same hv hnone
  | cut hitems hpath =>
    rw [expandOn_of_mem hitems hpath]
    exact .cut hitems hpath
  | enter hitems hpath =>
    rw [expandOn_of_not_mem hitems hpath]
    exact .entered hitems hpath (by rw [List.length_map, Array.length_toList])
  | inline =>
    rw [expandOn_array]
    exact .inline (List.length_map _)

/-- What stands at a place of what comes out is the expansion of what one comes to in the heap. -/
theorem part?_expandOn (heap : Heap P) (path : List Handle) (v : Value) (place : List Nat) :
    (heap.expandOn path v).part? place =
      (heap.trail? path v place).map fun met => heap.expandOn met.1 met.2 := by
  induction place generalizing path v with
  | nil => cases v <;> rfl
  | cons i place ih =>
    cases heap.expands path v with
    | leaf hv hnone =>
      rw [expandOn_of_items?_eq_none hv hnone]
      cases v with
      | object a => simp [trail?, Value.part?, hnone a rfl]
      | array origin items => cases hv
      | _ => rfl
    | cut hitems hpath =>
      rw [expandOn_of_mem hitems hpath, trail?, if_pos hpath]
      rfl
    | @enter path a items hitems hpath =>
      rw [expandOn_of_not_mem hitems hpath, trail?, if_neg hpath, hitems, Option.bind_some,
        Value.part?, List.getElem?_map, Array.getElem?_toList]
      cases items[i]? with
      | none => rfl
      | some item => exact ih _ item
    | @inline path origin items =>
      rw [expandOn_array, trail?, Value.part?, List.getElem?_map]
      cases items[i]? with
      | none => rfl
      | some item => exact ih path item

/-! ## Expanding Twice -/

/-- A value stays as it is if no handle of an array stands in it. -/
theorem expandOn_eq_self (path : List Handle)
    (h : ∀ place a, v.part? place = some (.object a) → heap.items? a = none) :
    heap.expandOn path v = v := by
  induction heap.expands path v with
  | leaf hv hnone => exact expandOn_of_items?_eq_none hv hnone
  | cut hitems =>
    rw [h [] _ rfl] at hitems
    cases hitems
  | enter hitems =>
    rw [h [] _ rfl] at hitems
    cases hitems
  | @inline path origin items _ ih =>
    have hitem : ∀ v ∈ items, heap.expandOn path v = v := fun v hv => by
      refine ih v hv fun place a hpart => ?_
      obtain ⟨i, hi⟩ := Value.part?_item origin hv place
      exact h (i :: place) a (hi.trans hpart)
    rw [expandOn_array, List.map_congr_left hitem, List.map_id']

/-- A handle that is left over leads to no array. -/
theorem items?_eq_none_of_shown (h : heap.Shown path u (.object a)) : heap.items? a = none := by
  cases h with
  | same _ hnone => exact hnone a rfl

/-- Null comes of null, and of an array inside of itself. -/
theorem expandOn_eq_null_iff : heap.expandOn path u = .null ↔
    u = .null ∨ ∃ a items, u = .object a ∧ heap.items? a = some items ∧ a ∈ path := by
  constructor
  · intro h
    have hshown := heap.shown_expandOn path u
    rw [h] at hshown
    cases hshown with
    | cut hitems hpath => exact Or.inr ⟨_, _, rfl, hitems, hpath⟩
    | same => exact Or.inl rfl
  · rintro (rfl | ⟨a, items, rfl, hitems, hpath⟩)
    · exact expandOn_of_items?_eq_none rfl fun h hh => by cases hh
    · exact expandOn_of_mem hitems hpath

end

/-! ## The Expansion of a Value -/

/-- What a value is expanded into. -/
structure Expansion (heap : Heap P) (v w : Value) : Prop where
  /-- Expanding ends: its calls nest as deep as the result does, and it leaves no marks behind. -/
  ends : ∀ depth, w.height ≤ depth → (heap.expandMarking depth v).run [] = some (w, [])
  /-- No handle that is left over leads to an array. -/
  complete : ∀ place a, w.part? place = some (.object a) → heap.items? a = none
  /-- There are the same places as in the heap, and at each of them stands what is to be seen. -/
  parts : ∀ place, Option.Rel (fun met part => heap.Shown met.1 met.2 part)
    (heap.trail? [] v place) (w.part? place)
  /-- Null stands where null stood, and where an array stands inside of itself. -/
  nulls : ∀ place, w.part? place = some .null ↔ ∃ path u, heap.trail? [] v place = some (path, u) ∧
    (u = .null ∨ ∃ a items, u = .object a ∧ heap.items? a = some items ∧ a ∈ path)
  /-- There is nothing to be expanded any more. -/
  again : heap.expand w = w

/-- **Expanding a value.** Whatever the arrays of a heap contain, every value is expanded completely and
in a finite number of steps, and arrays are cut inside of themselves only. -/
theorem expansion_expand (heap : Heap P) (v : Value) : heap.Expansion v (heap.expand v) := by
  have hparts : ∀ place, Option.Rel (fun met part => heap.Shown met.1 met.2 part)
      (heap.trail? [] v place) ((heap.expand v).part? place) := by
    intro place
    rw [expand, part?_expandOn]
    cases heap.trail? [] v place with
    | none => exact .none
    | some met => exact .some (heap.shown_expandOn met.1 met.2)
  have hcomplete : ∀ place a, (heap.expand v).part? place = some (.object a) →
      heap.items? a = none := by
    intro place a hpart
    have hshown := hparts place
    rw [hpart] at hshown
    generalize heap.trail? [] v place = met at hshown
    cases hshown with
    | some hshown => exact items?_eq_none_of_shown hshown
  constructor
  case ends => exact fun depth hdepth => heap.run_expandMarking [] v hdepth
  case complete => exact hcomplete
  case parts => exact hparts
  case nulls =>
    intro place
    rw [expand, part?_expandOn, Option.map_eq_some_iff]
    constructor
    · rintro ⟨⟨path, u⟩, htrail, hnull⟩
      exact ⟨path, u, htrail, expandOn_eq_null_iff.1 hnull⟩
    · rintro ⟨path, u, htrail, hnull⟩
      exact ⟨(path, u), htrail, expandOn_eq_null_iff.2 hnull⟩
  case again => exact expandOn_eq_self [] hcomplete

end Heap

end ScriptBridge
