import ScriptBridge.Proofs.TypedVector.InPlace

/-!
# Refusals and Locks

An operation that is refused leaves everything as it has been. One that is not refused leaves the size
of a vector of locked size and the declared type of a vector of locked type, and no operation touches
a lock. Apart from changing the type and naming a class, operations keep a declared type in any case,
and the element class with it.

Main statements: `Operation.effect` (what an operation can do) and `Operation.refusals_and_locks`.
-/

namespace ScriptBridge

namespace TypedVector

variable {v w : TypedVector}

/-! ## Operations that Keep the Type -/

/-- What all operations keep but changing the type and naming a class. -/
structure Stays (v w : TypedVector) : Prop where
  sizeLocked : w.sizeLocked = v.sizeLocked
  typeLocked : w.typeLocked = v.typeLocked
  elementClass : w.elementClass = v.elementClass
  /-- A declared type stays. -/
  type : ∀ type, v.type? = some type → w.type? = some type
  /-- A vector of locked size neither grows nor shrinks. -/
  size : v.sizeLocked = true → w.size = v.size

theorem Stays.refl (v : TypedVector) : v.Stays v := ⟨rfl, rfl, rfl, fun _ => id, fun _ => rfl⟩

theorem Stays.trans {u : TypedVector} (h : u.Stays v) (h' : v.Stays w) : u.Stays w where
  sizeLocked := h'.sizeLocked.trans h.sizeLocked
  typeLocked := h'.typeLocked.trans h.typeLocked
  elementClass := h'.elementClass.trans h.elementClass
  type type htype := h'.type type (h.type type htype)
  size hlocked := (h'.size (h.sizeLocked.trans hlocked)).trans (h.size hlocked)

/-- New elements of the declared type, as many as before if the size is locked. -/
theorem stays_elements {e : Elements} (htype : ∀ type, v.type? = some type → e.type? = some type)
    (hsize : v.sizeLocked = true → e.size = v.size) : v.Stays { v with elements := e } :=
  ⟨rfl, rfl, rfl, htype, hsize⟩

/-- A size that is not locked may change. -/
theorem stays_unlocked {e : Elements} (hlocked : ¬ v.sizeLocked = true)
    (htype : ∀ type, v.type? = some type → e.type? = some type) : v.Stays { v with elements := e } :=
  stays_elements htype fun hlocked' => absurd hlocked' hlocked

/-- Elements that values are read as have the type that has been declared before the first of them
was looked at. -/
theorem type?_of_adopted {type : ElementType} {tag? : Option ElementType} {given : List Value}
    {e : Elements} (hadopt : v.type?.or tag? = some type) (hread : Elements.ofValues? type given = some e)
    (declared : ElementType) (h : v.type? = some declared) : e.type? = some declared := by
  rw [h, Option.some_or] at hadopt
  rw [Elements.type?_of_ofValues? hread, hadopt]

/-- The type changes only if it is not locked, and then all elements convert. -/
theorem retype?_cases {type : ElementType} (h : v.retype? type = some w) :
    w = v ∨ v.type? ≠ some type ∧ (v.type? = none ∨ v.typeLocked = false) ∧
      ∃ e, Elements.ofValues? type v.values = some e ∧ w = { v with elements := e } := by
  unfold retype? at h
  split at h
  · exact Or.inl (Option.some.inj h).symm
  · next hother =>
    split at h
    · cases h
    · next hfree =>
      obtain ⟨e, he, rfl⟩ := Option.map_eq_some_iff.1 h
      refine Or.inr ⟨hother, ?_, e, he, rfl⟩
      rw [Bool.and_eq_true, not_and] at hfree
      cases htype : v.type? with
      | none => exact Or.inl rfl
      | some declared => exact Or.inr (Bool.eq_false_iff.2 (hfree (by rw [htype]; rfl)))

theorem stays_adoptType? {value : Value} (h : v.adoptType? value = some w) : v.Stays w := by
  unfold adoptType? at h
  split at h
  · rw [← Option.some.inj h]
    exact .refl v
  · next huntyped =>
    obtain ⟨type, -, h⟩ := Option.bind_eq_some_iff.1 h
    rcases retype?_cases h with rfl | ⟨-, -, e, he, rfl⟩
    · exact .refl w
    · refine stays_elements (fun declared hdeclared => ?_) fun _ => ?_
      · exact absurd (by rw [hdeclared]; rfl) huntyped
      · exact (Elements.size_of_ofValues? he).trans (Elements.length_values v.elements)

theorem stays_set? {index : Nat} {value : Value} (h : v.set? index value = some w) : v.Stays w := by
  unfold set? at h
  split at h
  · cases h
  · next hinside =>
    obtain ⟨u, hadopt, h⟩ := Option.bind_eq_some_iff.1 h
    have hu := stays_adoptType? hadopt
    refine hu.trans ?_
    have hsize : u.sizeLocked = true → index ≠ u.size := by
      intro hlocked hindex
      rw [hu.sizeLocked] at hlocked
      rw [hu.size hlocked] at hindex
      simp [hindex, hlocked] at hinside
    obtain ⟨elements, sizeLocked, typeLocked, elementClass⟩ := u
    cases elements with
    | untyped => cases h
    | typed type items =>
      obtain ⟨x, -, h⟩ := Option.bind_eq_some_iff.1 h
      obtain rfl := Option.some.inj h
      refine stays_elements (fun _ => id) fun hlocked => ?_
      -- the position behind the last element is not open
      have hindex : index ≠ items.length := hsize hlocked
      show List.length _ = items.length
      rw [if_neg hindex, List.length_set]

theorem stays_resize? {size : Nat} (h : v.resize? size = some w) : v.Stays w := by
  unfold resize? at h
  split at h
  · rw [← Option.some.inj h]
    exact .refl v
  · split at h
    · cases h
    · next hlocked =>
      obtain ⟨elements, sizeLocked, typeLocked, elementClass⟩ := v
      cases elements with
      | untyped => cases h
      | typed type items =>
        obtain rfl := Option.some.inj h
        exact stays_unlocked hlocked fun _ => id

theorem stays_assign? {given : List Value} (h : v.assign? given = some w) : v.Stays w := by
  unfold assign? at h
  split at h
  · cases h
  · next hallowed =>
    have hsize : v.sizeLocked = true → given.length = v.size := by
      intro hlocked
      simpa [hlocked] using hallowed
    cases given with
    | nil =>
      obtain ⟨elements, sizeLocked, typeLocked, elementClass⟩ := v
      cases elements with
      | untyped =>
        rw [← Option.some.inj h]
        exact .refl _
      | typed type items =>
        obtain rfl := Option.some.inj h
        exact stays_elements (fun _ => id) hsize
    | cons first rest =>
      simp only [Option.bind_eq_bind, Option.bind_eq_some_iff] at h
      obtain ⟨type, hadopt, e, hread, h⟩ := h
      obtain rfl := Option.some.inj h
      exact stays_elements (type?_of_adopted hadopt hread) fun hlocked =>
        (Elements.size_of_ofValues? hread).trans (hsize hlocked)

theorem stays_copyFrom? {other : TypedVector} (h : v.copyFrom? other = some w) : v.Stays w := by
  unfold copyFrom? at h
  split at h
  · cases h
  · next hallowed =>
    split at h
    · next hsame =>
      obtain rfl := Option.some.inj h
      have hsize : v.sizeLocked = true → other.size = v.size := by
        intro hlocked
        simpa [hlocked] using hallowed
      refine stays_elements (fun type htype => ?_) hsize
      rw [htype, Option.isNone_some, Bool.false_or, beq_iff_eq] at hsame
      exact hsame.symm
    · exact stays_assign? h

theorem stays_push? {given : List Value} (h : v.push? given = some w) : v.Stays w := by
  unfold push? at h
  split at h
  · cases h
  · next hlocked =>
    cases given with
    | nil =>
      rw [← Option.some.inj h]
      exact .refl v
    | cons first rest =>
      obtain ⟨elements, sizeLocked, typeLocked, elementClass⟩ := v
      cases elements with
      | untyped =>
        simp only [Option.bind_eq_bind, Option.bind_eq_some_iff] at h
        obtain ⟨type, -, e, -, h⟩ := h
        obtain rfl := Option.some.inj h
        exact stays_unlocked hlocked fun _ htype => nomatch htype
      | typed type items =>
        obtain ⟨more, -, h⟩ := Option.bind_eq_some_iff.1 h
        obtain rfl := Option.some.inj h
        exact stays_unlocked hlocked fun _ => id

theorem stays_pop? {value : Value} (h : v.pop? = some (value, w)) : v.Stays w := by
  unfold pop? at h
  split at h
  · cases h
  · next hlocked =>
    obtain ⟨elements, sizeLocked, typeLocked, elementClass⟩ := v
    cases elements with
    | untyped => cases h
    | typed type items =>
      obtain ⟨x, -, h⟩ := Option.map_eq_some_iff.1 h
      obtain ⟨-, rfl⟩ := Prod.mk.inj h
      exact stays_unlocked hlocked fun _ => id

theorem position_le (index : Int) (size : Nat) : position index size ≤ size := by
  unfold position
  dsimp only
  omega

/-- As many elements as are cut out are put in. -/
theorem length_replaced {α : Type} {items added : List α} {first count : Nat}
    (hfirst : first ≤ items.length) (hcount : count ≤ items.length - first)
    (hsame : count = added.length) :
    (items.take first ++ added ++ items.drop (first + count)).length = items.length := by
  rw [List.length_append, List.length_append, List.length_take, List.length_drop]
  omega

theorem stays_splice? {start : Int} {count : Option Nat} {insert removed : List Value}
    (h : v.splice? start count insert = some (removed, w)) : v.Stays w := by
  have hfirst := position_le start v.size
  unfold splice? at h
  dsimp only at h
  split at h
  · cases h
  · next hallowed =>
    have hsize : v.sizeLocked = true →
        min (count.getD (v.size - position start v.size)) (v.size - position start v.size) =
          insert.length := by
      intro hlocked
      simpa [hlocked] using hallowed
    obtain ⟨elements, sizeLocked, typeLocked, elementClass⟩ := v
    cases elements with
    | untyped =>
      cases insert with
      | nil =>
        obtain ⟨-, rfl⟩ := Prod.mk.inj (Option.some.inj h)
        exact .refl _
      | cons first rest =>
        simp only [Option.bind_eq_bind, Option.bind_eq_some_iff] at h
        obtain ⟨type, -, e, hread, h⟩ := h
        obtain ⟨-, rfl⟩ := Prod.mk.inj (Option.some.inj h)
        refine stays_elements (fun _ htype => nomatch htype) fun hlocked => ?_
        -- nothing can be removed, so nothing has been inserted
        have hlength := hsize hlocked
        have hnone : (0 : Nat) = (first :: rest).length := by
          rw [← hlength]
          show 0 = min _ (0 - _)
          omega
        cases hnone
    | typed type items =>
      obtain ⟨added, hread, h⟩ := Option.bind_eq_some_iff.1 h
      obtain ⟨-, rfl⟩ := Prod.mk.inj (Option.some.inj h)
      refine stays_elements (fun _ => id) fun hlocked => ?_
      have hlength := (hsize hlocked).trans (ElementType.length_of_readAll? hread).symm
      exact length_replaced hfirst (Nat.min_le_right _ _) hlength

/-! ## Naming a Class -/

/-- A class is named for objects only; elements and type stay, but a vector without a type becomes
one of objects. -/
theorem restrictTo?_cases {name : Option String} (h : v.restrictTo? name = some w) :
    ∃ e, w = { v with elements := e, elementClass := name } ∧ e.size = v.size ∧
      (∀ type, v.type? = some type → e.type? = some type) ∧
      (name.isSome = true → e.type? = some .object) := by
  unfold restrictTo? at h
  split at h
  · next hnone =>
    obtain rfl := Option.some.inj h
    rw [Option.isNone_iff_eq_none] at hnone
    refine ⟨v.elements, rfl, rfl, fun _ => id, fun hsome => ?_⟩
    rw [hnone] at hsome
    cases hsome
  · split at h
    · next helements =>
      obtain rfl := Option.some.inj h
      refine ⟨.typed .object [], rfl, ?_, fun type htype => ?_, fun _ => rfl⟩
      · rw [size, helements]
        rfl
      · rw [type?, helements] at htype
        cases htype
    · next items helements =>
      obtain rfl := Option.some.inj h
      exact ⟨v.elements, rfl, rfl, fun _ => id, fun _ => by rw [helements]; rfl⟩
    · cases h

end TypedVector

/-! ## All Operations -/

namespace Operation

open TypedVector

variable {op : Operation} {v w : TypedVector} {report : Report}

/-- What an operation can do. -/
inductive Effect (v : TypedVector) : Operation → TypedVector → Prop
  /-- It keeps a declared type and the element class. -/
  | stays {op : Operation} {w : TypedVector} : v.Stays w → Effect v op w
  /-- It changes the type, which is not locked. -/
  | retypes {type : ElementType} {e : Elements} : v.type? ≠ some type →
      v.type? = none ∨ v.typeLocked = false → Elements.ofValues? type v.values = some e →
      Effect v (.retype type) { v with elements := e }
  /-- It names a class for the elements, which are objects then, or lifts the limit. -/
  | restricts {name : Option String} {e : Elements} : e.size = v.size →
      (∀ type, v.type? = some type → e.type? = some type) →
      (name.isSome = true → e.type? = some .object) →
      Effect v (.restrictTo name) { v with elements := e, elementClass := name }

theorem effect (h : op.made? v = some (report, w)) : Effect v op w := by
  cases op with
  | retype type =>
    obtain ⟨u, hu, heq⟩ := Option.map_eq_some_iff.1 h
    obtain ⟨-, rfl⟩ := Prod.mk.inj heq
    rcases retype?_cases hu with rfl | ⟨hother, hfree, e, hread, rfl⟩
    · exact .stays (.refl u)
    · exact .retypes hother hfree hread
  | put index value =>
    obtain ⟨u, hu, heq⟩ := Option.map_eq_some_iff.1 h
    exact .stays ((Prod.mk.inj heq).2 ▸ stays_set? hu)
  | resize size =>
    obtain ⟨u, hu, heq⟩ := Option.map_eq_some_iff.1 h
    exact .stays ((Prod.mk.inj heq).2 ▸ stays_resize? hu)
  | assign values =>
    obtain ⟨u, hu, heq⟩ := Option.map_eq_some_iff.1 h
    exact .stays ((Prod.mk.inj heq).2 ▸ stays_assign? hu)
  | copyFrom other =>
    obtain ⟨u, hu, heq⟩ := Option.map_eq_some_iff.1 h
    exact .stays ((Prod.mk.inj heq).2 ▸ stays_copyFrom? hu)
  | push values =>
    obtain ⟨u, hu, heq⟩ := Option.map_eq_some_iff.1 h
    exact .stays ((Prod.mk.inj heq).2 ▸ stays_push? hu)
  | pop =>
    obtain ⟨⟨value, u⟩, hu, heq⟩ := Option.map_eq_some_iff.1 h
    exact .stays ((Prod.mk.inj heq).2 ▸ stays_pop? hu)
  | splice start count insert =>
    obtain ⟨⟨removed, u⟩, hu, heq⟩ := Option.map_eq_some_iff.1 h
    exact .stays ((Prod.mk.inj heq).2 ▸ stays_splice? hu)
  | restrictTo name =>
    obtain ⟨u, hu, heq⟩ := Option.map_eq_some_iff.1 h
    obtain ⟨-, rfl⟩ := Prod.mk.inj heq
    obtain ⟨e, rfl, hsize, htype, hobject⟩ := restrictTo?_cases hu
    exact .restricts hsize htype hobject

/-- What locks hold against. -/
structure Locked (v w : TypedVector) : Prop where
  sizeLocked : w.sizeLocked = v.sizeLocked
  typeLocked : w.typeLocked = v.typeLocked
  size : v.sizeLocked = true → w.size = v.size
  type : v.typeLocked = true → ∀ type, v.type? = some type → w.type? = some type

theorem Effect.locked (h : Effect v op w) : Locked v w := by
  cases h with
  | stays h => exact ⟨h.sizeLocked, h.typeLocked, h.size, fun _ => h.type⟩
  | retypes hother hfree hread =>
    refine ⟨rfl, rfl, fun _ => ?_, fun hlocked type htype => ?_⟩
    · exact (Elements.size_of_ofValues? hread).trans (Elements.length_values v.elements)
    · rcases hfree with hnone | hfree
      · cases hnone.symm.trans htype
      · cases hfree.symm.trans hlocked
  | restricts hsize htype _ => exact ⟨rfl, rfl, fun _ => hsize, fun _ => htype⟩

/-- **An operation that is refused changes nothing, and locks hold.** In place, an operation makes the
vector that it answers and leaves the old one as it has been when there is no answer; whatever it does,
the locks stay, a vector of locked size keeps its size, and one of locked type keeps its type. -/
theorem refusals_and_locks (op : Operation) (v : TypedVector) :
    op.edit.on v = Edit.settled v (op.made? v) ∧
    ((op.edit.on v).1 = none → (op.edit.on v).2 = v) ∧ Locked v (op.edit.on v).2 := by
  rw [on_edit]
  cases hmade : op.made? v with
  | none => exact ⟨rfl, fun _ => rfl, rfl, rfl, fun _ => rfl, fun _ _ => id⟩
  | some made =>
    obtain ⟨report, w⟩ := made
    exact ⟨rfl, nofun, (effect hmade).locked⟩

/-- A text behind a number is not appended to a vector without a type, and leaves it without one. -/
theorem late_text_refused :
    ((push [.int 1, .string "one"]).edit.on .empty).1 = none ∧
    ((push [.int 1, .string "one"]).edit.on .empty).2 = .empty :=
  have hrefused : ((push [.int 1, .string "one"]).edit.on .empty).1 = none := rfl
  ⟨hrefused, (refusals_and_locks (push [.int 1, .string "one"]) .empty).2.1 hrefused⟩

end Operation

end ScriptBridge
