import ScriptBridge.Proofs.TypedVector.Declared
import ScriptBridge.Snapshot.Loading

/-!
# The Class of Typed Vectors

Once the class of typed vectors has been registered, other classes and their members do not get in its
way. As long as nothing is bound to the class itself but functions that awaken nobody, its instances
start with an empty vector and have the six properties that they have been given.

Main statements: `Registry.get?_register` (what a registration does to one class) and
`HoldsVectors.knows`.
-/

namespace ScriptBridge

variable {P : Platform}

namespace Registry

/-! ## Registrations and One Class -/

namespace Registration

/-- The class that receives a member, unless it is a built-in one. -/
def target? : Registration P → Option ClassNumber
  | .setFresh c _ => some c
  | .bindProperty c _ _ _ => some c
  | .bindElements c _ _ => some c
  | .bindFunction c _ _ => some c
  | _ => none

/-- What becomes of the class that receives a member. -/
def extend : Registration P → RegisteredClass P → RegisteredClass P
  | .setFresh _ native, d => { d with fresh := some native }
  | .bindProperty _ name accessor flags, d =>
    let flags := if accessor.acceptsWrites then flags else flags.union .readonly
    { d with properties := d.properties.insert name ⟨name, flags, accessor⟩ }
  | .bindElements _ accessor flags, d => { d with elements := some ⟨flags, accessor⟩ }
  | .bindFunction _ name procedure, d => { d with functions := d.functions.insert name procedure }
  | _, d => d

/-- Nothing is bound to a class, unless it is a function that does not awaken. -/
def Spares (c : ClassNumber) (call : Registration P) : Prop :=
  call.target? = some c →
    ∃ name procedure, call = .bindFunction c name procedure ∧ name ≠ Loading.awakeName

theorem outline_extend (call : Registration P) (d : RegisteredClass P) :
    (call.extend d).outline = d.outline := by
  cases call <;> rfl

end Registration

variable {r r' : Registry P} {c k : ClassNumber} {d : RegisteredClass P}

theorem get?_push_of_get? (hget : r.get? c = some d) (outline : ClassOutline) :
    (r.push outline).get? c = some d := by
  have hlt := (Array.getElem?_eq_some_iff.1 hget).1
  rw [get?_push, if_neg (by omega), hget]

theorem get?_declareClass {name : String} {parent : Option String} {singleton : Bool}
    (hget : r.get? c = some d) (h : r.declareClass name parent singleton = .ok (k, r')) :
    r'.get? c = some d := by
  unfold declareClass at h
  split at h
  · cases h
  · split at h
    · obtain ⟨-, rfl⟩ := Prod.mk.inj (Except.ok.inj h)
      exact get?_push_of_get? hget _
    · split at h
      · cases h
      · obtain ⟨-, rfl⟩ := Prod.mk.inj (Except.ok.inj h)
        exact get?_push_of_get? hget _

/-- A class that is replaced is found in its place, and the others are found where they have been. -/
theorem get?_setClass_of_get? {e e' : RegisteredClass P} (hget : r.get? c = some d)
    (hk : r.get? k = some e) (f : RegisteredClass P → RegisteredClass P) (he' : e' = f e) :
    (r.setClass k e').get? c = some (if some k = some c then f d else d) := by
  rw [get?_setClass hk]
  by_cases hck : c = k
  · subst hck
    obtain rfl := Option.some.inj (hget.symm.trans hk)
    rw [if_pos rfl, if_pos rfl, he']
  · rw [if_neg hck, if_neg (fun heq => hck (Option.some.inj heq).symm), hget]

theorem get?_bindFunction {name : String} {procedure : Procedure P} (hget : r.get? c = some d)
    (h : r.bindFunction k name procedure = .ok r') :
    r'.get? c = some (if some k = some c then
      (Registration.bindFunction k name procedure).extend d else d) := by
  obtain ⟨e, he, h⟩ := except_bind_eq_ok h
  split at h
  · cases h
  · obtain rfl := Except.ok.inj h
    exact get?_setClass_of_get? hget (demand_eq_ok he)
      (Registration.bindFunction k name procedure).extend rfl

/-- A function for a built-in class leaves the others alone. -/
theorem get?_bindBuiltinFunction {className name : String} {procedure : Procedure P}
    (hget : r.get? c = some d) (hbuiltin : d.outline.builtin = false)
    (h : r.bindBuiltinFunction className name procedure = .ok r') : r'.get? c = some d := by
  unfold bindBuiltinFunction at h
  split at h
  · cases h
  · next k _ =>
    split at h
    · next outline houtline =>
      split at h
      · next hk =>
        -- the class is not the one that receives the function
        have hne : k ≠ c := by
          rintro rfl
          have hsame : r.tree.get? k = some d.outline := by
            rw [ClassTree.get?, getElem?_outlines, hget, Option.map_some]
          rw [hsame] at houtline
          rw [← Option.some.inj houtline, hbuiltin] at hk
          cases hk
        have hfound := get?_bindFunction hget h
        rwa [if_neg (fun heq => hne (Option.some.inj heq))] at hfound
      · cases h
    · cases h

/-- A registration does to a class that is not built in what it says, and to the others nothing. -/
theorem get?_register {call : Registration P} (hget : r.get? c = some d)
    (hbuiltin : d.outline.builtin = false) (h : r.register call = .ok r') :
    r'.get? c = some (if call.target? = some c then call.extend d else d) := by
  cases call with
  | declareClass name parent singleton =>
    obtain ⟨⟨k, declared⟩, hdeclare, rfl⟩ := except_map_eq_ok h
    exact get?_declareClass hget hdeclare
  | setFresh k native =>
    obtain ⟨e, he, h⟩ := except_bind_eq_ok h
    obtain rfl := Except.ok.inj h
    exact get?_setClass_of_get? hget (demand_eq_ok he) (Registration.setFresh k native).extend rfl
  | bindProperty k name accessor flags =>
    obtain ⟨-, -, h⟩ := except_bind_eq_ok h
    obtain ⟨e, he, h⟩ := except_bind_eq_ok h
    dsimp only at h
    split at h
    · cases h
    · obtain rfl := Except.ok.inj h
      exact get?_setClass_of_get? hget (demand_eq_ok he)
        (Registration.bindProperty k name accessor flags).extend rfl
  | bindElements k accessor flags =>
    obtain ⟨-, -, h⟩ := except_bind_eq_ok h
    obtain ⟨e, he, h⟩ := except_bind_eq_ok h
    split at h
    · cases h
    · obtain rfl := Except.ok.inj h
      exact get?_setClass_of_get? hget (demand_eq_ok he)
        (Registration.bindElements k accessor flags).extend rfl
  | bindFunction k name procedure => exact get?_bindFunction hget h
  | bindBuiltinFunction className name procedure => exact get?_bindBuiltinFunction hget hbuiltin h
  | bindGlobal name procedure =>
    simp only [Registry.register, bindGlobal] at h
    split at h
    · cases h
    · obtain rfl := Except.ok.inj h
      exact hget

theorem get?_register_self {call : Registration P} (htarget : call.target? = some c)
    (hget : r.get? c = some d) (hbuiltin : d.outline.builtin = false) (h : r.register call = .ok r') :
    r'.get? c = some (call.extend d) := by
  rw [get?_register hget hbuiltin h, if_pos htarget]

/-- What registrations do to one class that receives all they bind. -/
theorem get?_foldlM_register {α : Type} (call : α → Registration P) {xs : List α}
    (htarget : ∀ x, (call x).target? = some c) (hget : r.get? c = some d)
    (hbuiltin : d.outline.builtin = false)
    (h : xs.foldlM (fun r x => r.register (call x)) r = .ok r') :
    r'.get? c = some (xs.foldl (fun d x => (call x).extend d) d) := by
  induction xs generalizing r d with
  | nil => exact Except.ok.inj h ▸ hget
  | cons x xs ih =>
    rw [List.foldlM_cons] at h
    obtain ⟨r₁, hx, hrest⟩ := except_bind_eq_ok h
    exact ih (get?_register_self (htarget x) hget hbuiltin hx)
      (by rw [Registration.outline_extend, hbuiltin]) hrest

end Registry

/-! ## The Members of Vectors -/

namespace TypedVector.Members

/-- The properties as they are bound. -/
def bindings : List (BoundProperty P) :=
  properties.map fun (name, accessor, flags) => ⟨name, flags, accessor⟩

/-- The properties by name. -/
def table : Table (BoundProperty P) := .ofList (bindings.map fun binding => (binding.name, binding))

end TypedVector.Members

namespace Registry

/-- A class whose instances are typed vectors: with the properties that those have, and without a
function that awakens. -/
structure VectorClass (d : RegisteredClass P) : Prop where
  outline : d.outline = ⟨TypedVector.className, none, false, false⟩
  properties : d.properties = TypedVector.Members.table
  fresh : d.fresh = some fun _ => .vector .empty
  sleepless : d.functions.find? Loading.awakeName = none

/-- The class of typed vectors has been registered with a number, and nothing has been bound to it
since, unless it is a function that does not awaken. -/
inductive HoldsVectors (c : ClassNumber) : Registry P → Prop
  | declared {r r' : Registry P} :
      r.Declared → r.declareTypedVector = .ok (c, r') → HoldsVectors c r'
  | register {r r' : Registry P} {call : Registration P} :
      HoldsVectors c r → call.Spares c → r.register call = .ok r' → HoldsVectors c r'

variable {r r' : Registry P} {c : ClassNumber}

theorem get?_of_declareClass {name : String} {singleton : Bool}
    (h : r.declareClass name none singleton = .ok (c, r')) :
    r'.get? c = some (.ofOutline ⟨name, none, singleton, false⟩) := by
  unfold declareClass at h
  split at h
  · cases h
  · obtain ⟨rfl, rfl⟩ := Prod.mk.inj (Except.ok.inj h)
    rw [get?_push, if_pos rfl]

theorem vectorClass_of_declareTypedVector (h : r.declareTypedVector = .ok (c, r')) :
    ∃ d, r'.get? c = some d ∧ VectorClass d := by
  obtain ⟨⟨c, r₁⟩, hclass, h⟩ := except_bind_eq_ok h
  obtain ⟨r₂, hfresh, h⟩ := except_bind_eq_ok h
  obtain ⟨r₃, hproperties, h⟩ := except_bind_eq_ok h
  obtain ⟨r₄, helements, h⟩ := except_bind_eq_ok h
  obtain ⟨r₅, hfunctions, h⟩ := except_bind_eq_ok h
  obtain ⟨rfl, rfl⟩ := Prod.mk.inj (Except.ok.inj h)
  have hget₁ := get?_of_declareClass hclass
  have hget₂ := get?_register_self (show (Registration.setFresh c _).target? = some c from rfl) hget₁
    rfl hfresh
  have hget₃ := get?_foldlM_register (fun member : String × Accessor P × PropertyFlags =>
    .bindProperty c member.1 member.2.1 member.2.2) (fun _ => rfl) hget₂ rfl hproperties
  have hget₄ := get?_register_self (show (Registration.bindElements c _ _).target? = some c from rfl)
    hget₃ rfl helements
  have hget₅ := get?_foldlM_register (fun member : String × VectorMethod =>
    .bindFunction c member.1 (.vector member.2)) (fun _ => rfl) hget₄ rfl hfunctions
  exact ⟨_, hget₅, rfl, rfl, rfl, rfl⟩

theorem number_of_declareTypedVector (h : r.declareTypedVector = .ok (c, r')) :
    c = ⟨r.classes.size⟩ := by
  obtain ⟨⟨c, r₁⟩, hclass, h⟩ := except_bind_eq_ok h
  obtain ⟨r₂, -, h⟩ := except_bind_eq_ok h
  obtain ⟨r₃, -, h⟩ := except_bind_eq_ok h
  obtain ⟨r₄, -, h⟩ := except_bind_eq_ok h
  obtain ⟨r₅, -, h⟩ := except_bind_eq_ok h
  obtain ⟨rfl, -⟩ := Prod.mk.inj (Except.ok.inj h)
  unfold declareClass at hclass
  split at hclass
  · cases hclass
  · exact (Prod.mk.inj (Except.ok.inj hclass)).1.symm

theorem holdsVectors_standard (h : standard = .ok r) : r.HoldsVectors ⟨2⟩ := by
  obtain ⟨⟨c, declared⟩, hdeclare, rfl⟩ := except_map_eq_ok h
  obtain rfl : c = ⟨2⟩ := number_of_declareTypedVector hdeclare
  exact .declared .builtins hdeclare

theorem HoldsVectors.declaredRegistry (h : r.HoldsVectors c) : r.Declared := by
  induction h with
  | declared hr hdeclare => exact declareTypedVector_induct (fun _ _ _ _ hr => hr.register) hr hdeclare
  | register _ _ hcall ih => exact ih.register hcall

theorem HoldsVectors.vectorClass (h : r.HoldsVectors c) : ∃ d, r.get? c = some d ∧ VectorClass d := by
  induction h with
  | declared _ hdeclare => exact vectorClass_of_declareTypedVector hdeclare
  | @register r r' call _ hspares hcall ih =>
    obtain ⟨d, hget, hd⟩ := ih
    refine ⟨_, get?_register hget (by rw [hd.outline]) hcall, ?_⟩
    split
    · next htarget =>
      obtain ⟨name, procedure, rfl, hname⟩ := hspares htarget
      refine ⟨hd.outline, hd.properties, hd.fresh, ?_⟩
      rw [Registration.extend, Table.find?_insert, if_neg (Ne.symm hname), hd.sleepless]
    · exact hd

/-- What is found on the class of typed vectors. -/
structure KnowsVectors (r : Registry P) (c : ClassNumber) : Prop where
  outline : ∃ d, r.get? c = some d ∧ d.outline = ⟨TypedVector.className, none, false, false⟩
  lookup : r.lookup? TypedVector.className = some c
  object : c ≠ .object
  array : c ≠ .array
  property : ∀ name, r.resolveProperty? c name = TypedVector.Members.table.find? name
  visible : r.visibleProperties c = TypedVector.Members.bindings
  fresh : r.resolveFresh? c = some fun _ => .vector .empty
  sleepless : r.resolveFunction? c Loading.awakeName = none

theorem lineage_of_outline {d : RegisteredClass P} (hget : r.get? c = some d)
    (hparent : d.outline.parent = none) : r.lineage c = [d] := by
  rw [lineage, hierarchy_of_root hget hparent, List.filterMap_cons_some hget, List.filterMap_nil]

theorem HoldsVectors.knows (h : r.HoldsVectors c) : r.KnowsVectors c := by
  obtain ⟨d, hget, hd⟩ := h.vectorClass
  have hsound := h.declaredRegistry.sound
  have hlineage := lineage_of_outline hget (by rw [hd.outline])
  -- the built-in classes say so
  have hbuiltin : ∀ {k : ClassNumber} {e : RegisteredClass P}, r.get? k = some e →
      e.outline.builtin = true → c ≠ k := by
    rintro k e hk hbuiltin rfl
    rw [← Option.some.inj (hget.symm.trans hk), hd.outline] at hbuiltin
    cases hbuiltin
  constructor
  case outline => exact ⟨d, hget, hd.outline⟩
  case lookup =>
    have hfound := h.declaredRegistry.lookup?_outline hget
    rwa [hd.outline] at hfound
  case object =>
    obtain ⟨e, hk, he⟩ := hsound.object
    exact hbuiltin hk (by rw [he])
  case array =>
    obtain ⟨e, hk, he⟩ := hsound.array
    exact hbuiltin hk (by rw [he])
  case property =>
    intro name
    rw [resolveProperty?, hlineage, List.findSome?_cons, hd.properties]
    cases TypedVector.Members.table.find? name <;> rfl
  case visible =>
    rw [visibleProperties, hlineage, List.reverse_singleton, List.foldl_cons, List.foldl_nil,
      hd.properties]
    rfl
  case fresh => rw [resolveFresh?, hlineage, List.findSome?_cons, hd.fresh]
  case sleepless => rw [resolveFunction?, hlineage, List.findSome?_cons, hd.sleepless]; rfl

end Registry

end ScriptBridge
