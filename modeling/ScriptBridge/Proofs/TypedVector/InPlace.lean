import ScriptBridge.TypedVector.Basic

/-!
# Operations in Place

A program that keeps a vector changes it in place, one assignment after another, and finds out on the
way that an operation has to be refused: a type is adopted before a value has been converted, values
that replace others are inserted before all of them are read again. `Edit` is such a sequence of
assignments. Whatever the order of its steps, it leaves the vector that the operation answers, and
the old one when there is no answer.

Main statements: one for each operation, from `Edit.on_retype` to `Edit.on_restrictTo`, and
`Operation.on_edit` for all of them.
-/

namespace ScriptBridge

/-! ## Conversion of Lists -/

namespace ElementType

theorem readAll?_append (type : ElementType) (vs ws : List Value) :
    type.readAll? (vs ++ ws) =
      (type.readAll? vs).bind fun xs => (type.readAll? ws).map fun ys => xs ++ ys := by
  induction vs with
  | nil => simp [readAll?]
  | cons v vs ih =>
    rw [List.cons_append, readAll?, readAll?, ih]
    cases type.read? v <;> cases type.readAll? vs <;> cases type.readAll? ws <;> rfl

/-- A value is read as an element of the type that it is adopted for. -/
theorem isSome_read?_of_ofTag? {type : ElementType} {value : Value}
    (h : ofTag? value.tag = some type) : (type.read? value).isSome = true := by
  cases value <;> cases h <;> rfl

end ElementType

namespace Elements

theorem length_values (e : Elements) : e.values.length = e.size := by
  cases e with
  | untyped => rfl
  | typed type items => exact List.length_map _

theorem type?_of_ofValues? {type : ElementType} {given : List Value} {e : Elements}
    (h : ofValues? type given = some e) : e.type? = some type := by
  obtain ⟨xs, -, rfl⟩ := Option.map_eq_some_iff.1 h
  rfl

theorem size_of_ofValues? {type : ElementType} {given : List Value} {e : Elements}
    (h : ofValues? type given = some e) : e.size = given.length := by
  obtain ⟨xs, hread, rfl⟩ := Option.map_eq_some_iff.1 h
  exact ElementType.length_of_readAll? hread

/-- Elements that are written out around values that convert are read again as they have been. -/
theorem ofValues?_around {type : ElementType} (before behind : List type.Carrier) (given : List Value) :
    ofValues? type (before.map type.write ++ given ++ behind.map type.write) =
      (type.readAll? given).map fun added => typed type (before ++ added ++ behind) := by
  rw [ofValues?, ElementType.readAll?_append, ElementType.readAll?_append,
    ElementType.readAll?_map_write, ElementType.readAll?_map_write]
  cases type.readAll? given <;> rfl

/-- Elements behind others: those of another type are passed over. -/
def append : Elements → Elements → Elements
  | untyped, other => other
  | typed type xs, untyped => typed type xs
  | typed s xs, typed t ys => if h : t = s then typed s (xs ++ h ▸ ys) else typed s xs

theorem append_typed (type : ElementType) (xs ys : List type.Carrier) :
    (typed type xs).append (typed type ys) = typed type (xs ++ ys) := by
  rw [append, dif_pos rfl]

end Elements

/-! ## Edits -/

/-- A sequence of assignments to a vector. Where it is refused, the assignments that have been made by
then stay. -/
abbrev Edit := OptionT (StateM TypedVector)

namespace Edit

variable {α β : Type}

/-- The report of an edit, unless it is refused, and the vector that it leaves. -/
def on (edit : Edit α) (v : TypedVector) : Option α × TypedVector := Id.run (edit.run.run v)

/-- Goes on with what is there, and is refused otherwise. -/
def demand (found : Option α) : Edit α := OptionT.mk (pure found)

/-- Is refused under a condition. -/
def refuseIf (condition : Bool) : Edit Unit := demand (if condition then none else some ())

/-- Assigns the elements. -/
def replace (elements : Elements) : Edit Unit := modify fun v => { v with elements }

theorem on_bind (edit : Edit α) (next : α → Edit β) (v : TypedVector) :
    on (edit >>= next) v =
      match edit.on v with
      | (some report, w) => on (next report) w
      | (none, w) => (none, w) := by
  unfold on
  rw [OptionT.run_bind, Option.elimM, StateT.run_bind]
  rcases edit.run.run v with ⟨report, w⟩
  cases report <;> rfl

@[simp] theorem on_pure (report : α) (v : TypedVector) : on (pure report) v = (some report, v) := rfl

@[simp] theorem on_failure (v : TypedVector) : on (failure : Edit α) v = (none, v) := rfl

@[simp] theorem on_get_bind (next : TypedVector → Edit α) (v : TypedVector) :
    on (get >>= next) v = on (next v) v := rfl

@[simp] theorem on_demand_some_bind (found : α) (next : α → Edit β) (v : TypedVector) :
    on (demand (some found) >>= next) v = on (next found) v := rfl

@[simp] theorem on_demand_none_bind (next : α → Edit β) (v : TypedVector) :
    on (demand none >>= next) v = (none, v) := rfl

@[simp] theorem on_refuseIf_bind (condition : Bool) (next : Unit → Edit α) (v : TypedVector) :
    on (refuseIf condition >>= next) v = if condition then (none, v) else on (next ()) v := by
  cases condition <;> rfl

@[simp] theorem on_replace (elements : Elements) (v : TypedVector) :
    on (replace elements) v = (some (), { v with elements }) := rfl

@[simp] theorem on_replace_bind (elements : Elements) (next : Unit → Edit α) (v : TypedVector) :
    on (replace elements >>= next) v = on (next ()) { v with elements } := rfl

/-- Declares or changes the type. -/
def retype (type : ElementType) : Edit Unit := do
  let v ← get
  if v.type? = some type then return
  else do
    refuseIf (v.type?.isSome && v.typeLocked)
    let elements ← demand (Elements.ofValues? type v.values)
    replace elements

/-- Takes the type of a value when there is no type yet. -/
def adopt (value : Value) : Edit Unit := do
  if (← get).type?.isSome then return
  else do
    let type ← demand (ElementType.ofTag? value.tag)
    retype type

/-- Stores a value among elements of a type. -/
def store (index : Nat) (value : Value) : Edit Unit := do
  match (← get).elements with
  | .untyped => failure
  | .typed type items => do
    let x ← demand (type.read? value)
    replace (.typed type (if index = items.length then items ++ [x] else items.set index x))

/-- Stores a value at a position. The type is there before the value has been converted. -/
def put (index : Nat) (value : Value) : Edit Unit := do
  let v ← get
  refuseIf (v.size < index || (index == v.size && v.sizeLocked))
  adopt value
  store index value

/-- Cuts off or fills up with zeros. -/
def resize (size : Nat) : Edit Unit := do
  let v ← get
  if size = v.size then return
  else do
    refuseIf v.sizeLocked
    match v.elements with
    | .untyped => failure
    | .typed type items =>
      replace (.typed type (items.take size ++ List.replicate (size - items.length) type.zero))

/-- Replaces every element. -/
def assign (values : List Value) : Edit Unit := do
  let v ← get
  refuseIf (v.sizeLocked && values.length != v.size)
  match values with
  | [] =>
    match v.elements with
    | .untyped => return
    | .typed type _ => replace (.typed type [])
  | first :: _ => do
    let type ← demand (v.type?.or (ElementType.ofTag? first.tag))
    let elements ← demand (Elements.ofValues? type values)
    replace elements

/-- Takes over the elements of another vector. -/
def copyFrom (other : TypedVector) : Edit Unit := do
  let v ← get
  refuseIf (v.sizeLocked && other.size != v.size)
  if v.type?.isNone || v.type? == other.type? then replace other.elements
  else assign other.values

/-- Appends values, and reports the new size. -/
def push (values : List Value) : Edit Nat := do
  let v ← get
  refuseIf v.sizeLocked
  match values with
  | [] => return v.size
  | first :: _ => do
    let type ← demand (v.type?.or (ElementType.ofTag? first.tag))
    let more ← demand (Elements.ofValues? type values)
    replace (v.elements.append more)
    return (← get).size

/-- Removes the last element, and reports it. -/
def pop : Edit Value := do
  let v ← get
  refuseIf v.sizeLocked
  match v.elements with
  | .untyped => failure
  | .typed type items => do
    let x ← demand items.getLast?
    replace (.typed type items.dropLast)
    return type.write x

/-- Cuts elements out, puts others in their place and reports those that were cut out. For this all
elements are written out as values, and read again in the end. -/
def cut (first count : Nat) (insert : List Value) : Edit (List Value) := do
  let v ← get
  if v.type?.isNone && insert.isEmpty then return []
  else do
    let type ← demand (v.type?.or (insert.head?.bind fun value => ElementType.ofTag? value.tag))
    -- nothing is cut out unless all that is inserted converts
    let _ ← demand (Elements.ofValues? type insert)
    let removed := (v.values.drop first).take count
    let elements ← demand (Elements.ofValues? type
      (v.values.take first ++ insert ++ v.values.drop (first + count)))
    replace elements
    return removed

/-- Removes elements and puts others in their place, and reports those that were removed. -/
def splice (start : Int) (count : Option Nat) (insert : List Value) : Edit (List Value) := do
  let v ← get
  let first := TypedVector.position start v.size
  let count := min (count.getD (v.size - first)) (v.size - first)
  refuseIf (v.sizeLocked && count != insert.length)
  cut first count insert

/-- Limits the elements to objects of a class, or lifts the limit. -/
def restrictTo (name : Option String) : Edit Unit := do
  if name.isSome then
    match (← get).elements with
    | .untyped => replace (.typed .object [])
    | .typed .object _ => pure ()
    | .typed _ _ => failure
  modify fun v => { v with elementClass := name }

/-! ## Edits against Operations -/

/-- What an operation reports and leaves: the old vector when there is no new one. -/
def settled (v : TypedVector) : Option (α × TypedVector) → Option α × TypedVector
  | some (report, w) => (some report, w)
  | none => (none, v)

@[simp] theorem settled_some (v w : TypedVector) (report : α) :
    settled v (some (report, w)) = (some report, w) := rfl

@[simp] theorem settled_none (v : TypedVector) : settled (α := α) v none = (none, v) := rfl

variable (v : TypedVector)

theorem on_retype (type : ElementType) :
    (retype type).on v = settled v ((v.retype? type).map ((), ·)) := by
  unfold retype TypedVector.retype?
  rw [on_get_bind]
  split
  · rfl
  · rw [on_refuseIf_bind]
    split
    · rfl
    · cases Elements.ofValues? type v.values <;> rfl

theorem on_adopt (value : Value) :
    (adopt value).on v = settled v ((v.adoptType? value).map ((), ·)) := by
  unfold adopt TypedVector.adoptType?
  rw [on_get_bind]
  split
  · rfl
  · cases ElementType.ofTag? value.tag with
    | none => rfl
    | some type => exact on_retype v type

/-- A vector that is given a type by a value can store this value. -/
theorem eq_or_reads_of_adoptType? {v w : TypedVector} {value : Value}
    (h : v.adoptType? value = some w) :
    w = v ∨ ∃ type, w = { v with elements := .typed type [] } ∧ (type.read? value).isSome = true := by
  unfold TypedVector.adoptType? at h
  split at h
  · exact Or.inl (Option.some.inj h).symm
  · next huntyped =>
    obtain ⟨type, htag, h⟩ := Option.bind_eq_some_iff.1 h
    obtain ⟨elements, sizeLocked, typeLocked, elementClass⟩ := v
    cases elements with
    | untyped => exact Or.inr ⟨type, (Option.some.inj h).symm, ElementType.isSome_read?_of_ofTag? htag⟩
    | typed s items => exact absurd rfl huntyped

theorem on_put (index : Nat) (value : Value) :
    (put index value).on v = settled v ((v.set? index value).map ((), ·)) := by
  unfold put TypedVector.set?
  rw [on_get_bind, on_refuseIf_bind]
  split
  · rfl
  · rw [on_bind, on_adopt]
    cases hadopt : v.adoptType? value with
    | none => rfl
    | some w =>
      simp only [Option.map_some, settled_some, Option.bind_eq_bind, Option.bind_some, store, on_get_bind]
      -- nothing is refused any more once the type has been changed
      rcases eq_or_reads_of_adoptType? hadopt with rfl | ⟨type, rfl, hreads⟩
      · cases w.elements with
        | untyped => rfl
        | typed type items =>
          dsimp only
          cases type.read? value <;> rfl
      · obtain ⟨x, hx⟩ := Option.isSome_iff_exists.1 hreads
        simp only [hx]
        rfl

theorem on_resize (size : Nat) :
    (resize size).on v = settled v ((v.resize? size).map ((), ·)) := by
  unfold resize TypedVector.resize?
  rw [on_get_bind]
  split
  · rfl
  · rw [on_refuseIf_bind]
    split
    · rfl
    · cases v.elements <;> rfl

theorem on_assign (values : List Value) :
    (assign values).on v = settled v ((v.assign? values).map ((), ·)) := by
  unfold assign TypedVector.assign?
  rw [on_get_bind, on_refuseIf_bind]
  split
  · rfl
  · cases values with
    | nil => cases v.elements <;> rfl
    | cons first rest =>
      dsimp only
      cases v.type?.or (ElementType.ofTag? first.tag) with
      | none => rfl
      | some type =>
        rw [on_demand_some_bind, Option.bind_eq_bind, Option.bind_some]
        cases Elements.ofValues? type (first :: rest) <;> rfl

theorem on_copyFrom (other : TypedVector) :
    (copyFrom other).on v = settled v ((v.copyFrom? other).map ((), ·)) := by
  unfold copyFrom TypedVector.copyFrom?
  rw [on_get_bind, on_refuseIf_bind]
  split
  · rfl
  · split
    · rfl
    · exact on_assign v other.values

theorem on_push (values : List Value) :
    (push values).on v = settled v ((v.push? values).map fun w => (w.size, w)) := by
  unfold push TypedVector.push?
  rw [on_get_bind, on_refuseIf_bind]
  split
  · rfl
  · cases values with
    | nil => rfl
    | cons first rest =>
      obtain ⟨elements, sizeLocked, typeLocked, elementClass⟩ := v
      cases elements with
      | untyped =>
        dsimp only [TypedVector.type?, Elements.type?, Option.or]
        cases ElementType.ofTag? first.tag with
        | none => rfl
        | some type =>
          rw [on_demand_some_bind, Option.bind_eq_bind, Option.bind_some]
          cases Elements.ofValues? type (first :: rest) <;> rfl
      | typed type items =>
        dsimp only [TypedVector.type?, Elements.type?, Option.or]
        rw [on_demand_some_bind, Elements.ofValues?, Option.bind_eq_bind]
        cases type.readAll? (first :: rest) with
        | none => rfl
        | some more =>
          rw [Option.map_some, on_demand_some_bind, on_replace_bind, Elements.append_typed]
          rfl

theorem on_pop : pop.on v = settled v v.pop? := by
  unfold pop TypedVector.pop?
  rw [on_get_bind, on_refuseIf_bind]
  split
  · rfl
  · cases v.elements with
    | untyped => rfl
    | typed type items =>
      dsimp only
      cases items.getLast? <;> rfl

variable {v}

theorem on_cut_untyped (h : v.elements = .untyped) (first count : Nat) (value : Value)
    (rest : List Value) :
    (cut first count (value :: rest)).on v = settled v (do
      let type ← ElementType.ofTag? value.tag
      let elements ← Elements.ofValues? type (value :: rest)
      return ([], { v with elements })) := by
  have htype : v.type? = none := by rw [TypedVector.type?, h]; rfl
  have hvalues : v.values = [] := by rw [TypedVector.values, h]; rfl
  simp only [cut, on_get_bind, htype, hvalues]
  show (demand (ElementType.ofTag? value.tag) >>= _).on v = _
  cases ElementType.ofTag? value.tag with
  | none => rfl
  | some type =>
    -- there are no elements around what is inserted
    simp only [on_demand_some_bind, List.take_nil, List.drop_nil, List.nil_append, List.append_nil,
      Option.bind_eq_bind, Option.bind_some]
    cases Elements.ofValues? type (value :: rest) <;> rfl

/-- Elements that are written out and read again are the same elements. -/
theorem on_cut_typed {type : ElementType} {items : List type.Carrier}
    (h : v.elements = .typed type items) (first count : Nat) (insert : List Value) :
    (cut first count insert).on v = settled v (do
      let added ← type.readAll? insert
      return (((items.drop first).take count).map type.write,
        { v with elements := .typed type (items.take first ++ added ++ items.drop (first + count)) })) := by
  have htype : v.type? = some type := by rw [TypedVector.type?, h]; rfl
  have hvalues : v.values = items.map type.write := by rw [TypedVector.values, h]; rfl
  simp only [cut, on_get_bind, htype, hvalues, ← List.map_take, ← List.map_drop]
  show (demand (Elements.ofValues? type insert) >>= _).on v = _
  simp only [Elements.ofValues?_around]
  rw [Elements.ofValues?]
  cases type.readAll? insert <;> rfl

variable (v)

theorem on_splice (start : Int) (count : Option Nat) (insert : List Value) :
    (splice start count insert).on v = settled v (v.splice? start count insert) := by
  unfold splice TypedVector.splice?
  rw [on_get_bind]
  dsimp only
  rw [on_refuseIf_bind]
  split
  · rfl
  · cases h : v.elements with
    | untyped =>
      cases insert with
      | nil =>
        have htype : v.type? = none := by rw [TypedVector.type?, h]; rfl
        simp [cut, htype]
      | cons value rest => exact on_cut_untyped h _ _ value rest
    | typed type items => exact on_cut_typed h _ _ insert

theorem on_restrictTo (name : Option String) :
    (restrictTo name).on v = settled v ((v.restrictTo? name).map ((), ·)) := by
  unfold restrictTo TypedVector.restrictTo?
  obtain ⟨elements, sizeLocked, typeLocked, elementClass⟩ := v
  cases name with
  | none => rfl
  | some name =>
    cases elements with
    | untyped => rfl
    | typed type items => cases type <;> rfl

end Edit

/-! ## Operations with their Arguments -/

/-- What an operation reports unless it is refused. -/
inductive Report where
  /-- Nothing but that it has been done. -/
  | done
  /-- The new size. -/
  | size (n : Nat)
  /-- The element that has been removed. -/
  | value (v : Value)
  /-- The elements that have been removed. -/
  | values (vs : List Value)

/-- An operation that may be refused, with its arguments. -/
inductive Operation where
  /-- Declares or changes the type. -/
  | retype (type : ElementType)
  /-- Stores a value at a position. -/
  | put (index : Nat) (value : Value)
  /-- Cuts off or fills up with zeros. -/
  | resize (size : Nat)
  /-- Replaces every element. -/
  | assign (values : List Value)
  /-- Takes over the elements of another vector. -/
  | copyFrom (other : TypedVector)
  /-- Appends values. -/
  | push (values : List Value)
  /-- Removes the last element. -/
  | pop
  /-- Removes elements and puts others in their place. -/
  | splice (start : Int) (count : Option Nat) (insert : List Value)
  /-- Limits the elements to objects of a class, or lifts the limit. -/
  | restrictTo (name : Option String)

namespace Operation

/-- An operation as a sequence of assignments. -/
def edit : Operation → Edit Report
  | retype type => do
    Edit.retype type
    return .done
  | put index value => do
    Edit.put index value
    return .done
  | resize size => do
    Edit.resize size
    return .done
  | assign values => do
    Edit.assign values
    return .done
  | copyFrom other => do
    Edit.copyFrom other
    return .done
  | push values => do
    let size ← Edit.push values
    return .size size
  | pop => do
    let value ← Edit.pop
    return .value value
  | splice start count insert => do
    let removed ← Edit.splice start count insert
    return .values removed
  | restrictTo name => do
    Edit.restrictTo name
    return .done

/-- The report of an operation and the vector that it makes, unless it is refused. -/
def made? : Operation → TypedVector → Option (Report × TypedVector)
  | retype type, v => (v.retype? type).map (.done, ·)
  | put index value, v => (v.set? index value).map (.done, ·)
  | resize size, v => (v.resize? size).map (.done, ·)
  | assign values, v => (v.assign? values).map (.done, ·)
  | copyFrom other, v => (v.copyFrom? other).map (.done, ·)
  | push values, v => (v.push? values).map fun w => (.size w.size, w)
  | pop, v => v.pop?.map fun (value, w) => (.value value, w)
  | splice start count insert, v =>
    (v.splice? start count insert).map fun (removed, w) => (.values removed, w)
  | restrictTo name, v => (v.restrictTo? name).map (.done, ·)

/-- An edit that does what an operation does still does so when its report is put in other words. -/
theorem on_reported {α β : Type} {edit : Edit α} {v : TypedVector} {made : Option β}
    {f : β → α × TypedVector} (h : edit.on v = Edit.settled v (made.map f)) (report : α → Report) :
    (do let x ← edit; return report x : Edit Report).on v =
      Edit.settled v (made.map fun b => (report (f b).1, (f b).2)) := by
  rw [Edit.on_bind, h]
  cases made <;> rfl

/-- **An operation in place is the operation.** -/
theorem on_edit (op : Operation) (v : TypedVector) : op.edit.on v = Edit.settled v (op.made? v) := by
  cases op with
  | retype type => exact on_reported (Edit.on_retype v type) fun _ => .done
  | put index value => exact on_reported (Edit.on_put v index value) fun _ => .done
  | resize size => exact on_reported (Edit.on_resize v size) fun _ => .done
  | assign values => exact on_reported (Edit.on_assign v values) fun _ => .done
  | copyFrom other => exact on_reported (Edit.on_copyFrom v other) fun _ => .done
  | push values => exact on_reported (Edit.on_push v values) .size
  | pop =>
    have h : Edit.pop.on v = Edit.settled v (v.pop?.map id) := by rw [Option.map_id_fun, Edit.on_pop]; rfl
    exact on_reported h .value
  | splice start count insert =>
    have h : (Edit.splice start count insert).on v =
        Edit.settled v ((v.splice? start count insert).map id) := by
      rw [Option.map_id_fun, Edit.on_splice]
      rfl
    exact on_reported h .values
  | restrictTo name => exact on_reported (Edit.on_restrictTo v name) fun _ => .done

end Operation

end ScriptBridge
