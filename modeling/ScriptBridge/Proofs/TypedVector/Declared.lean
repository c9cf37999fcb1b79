import ScriptBridge.Proofs.TypedVector.Members
import ScriptBridge.Proofs.Registry.Declared

/-!
# Registries that Leave Vectors Alone

The embedding program may register classes of its own, also such that extend the class of typed
vectors. What it binds is expected to leave the vector in native state alone, so that scripts get at
it through the members of the class of typed vectors only.

Main statements: `LeavesVectors.register`, `leavesVectors_standard` and `declared_standard`.
-/

namespace ScriptBridge

variable {P : Platform}

open NativeAction (Spares)

/-! ## Members of Classes -/

/-- What a name is bound to is a property of the class of typed vectors, or leaves vectors alone. -/
def BoundProperty.LeavesVectors (name : String) (b : BoundProperty P) : Prop :=
  (∀ value m, Spares (b.accessor.write value m)) ∨
    (name, b.accessor, b.flags) ∈ TypedVector.Members.properties

/-- The elements of typed vectors, or elements that leave vectors alone. -/
def ElementAccessor.LeavesVectors (a : ElementAccessor P) : Prop :=
  (∀ index value m, Spares (a.set index value m)) ∨ a = TypedVector.Members.elements

/-- Fresh native state without objects in a vector. -/
def FreshEmpty (native : P.World → Native P.Layer) : Prop :=
  ∀ world v, (native world).vector? = some v → v.handles = []

/-- A class whose instances start without objects in their vectors, and whose members leave vectors
alone unless they are members of the class of typed vectors. -/
structure RegisteredClass.LeavesVectors (d : RegisteredClass P) : Prop where
  fresh : ∀ native, d.fresh = some native → FreshEmpty native
  properties : ∀ entry ∈ d.properties.entries, entry.2.LeavesVectors entry.1
  elements : ∀ b, d.elements = some b → b.accessor.LeavesVectors

namespace Registry

/-- All classes leave vectors alone. -/
def LeavesVectors (r : Registry P) : Prop := ∀ c d, r.get? c = some d → d.LeavesVectors

/-- A registration that binds nothing but what leaves vectors alone. -/
def Registration.LeavesVectors : Registration P → Prop
  | .setFresh _ native => FreshEmpty native
  | .bindProperty _ name accessor flags => BoundProperty.LeavesVectors name ⟨name, flags, accessor⟩
  | .bindElements _ accessor _ => accessor.LeavesVectors
  | _ => True

theorem leavesVectors_ofOutline (outline : ClassOutline) :
    (RegisteredClass.ofOutline outline : RegisteredClass P).LeavesVectors where
  fresh _ h := nomatch h
  properties _ h := nomatch h
  elements _ h := nomatch h

theorem LeavesVectors.push {r : Registry P} (hr : r.LeavesVectors) (outline : ClassOutline) :
    (r.push outline).LeavesVectors := by
  intro c d hget
  rw [get?_push] at hget
  split at hget
  · rw [← Option.some.inj hget]
    exact leavesVectors_ofOutline outline
  · exact hr c d hget

theorem LeavesVectors.setClass {r : Registry P} (hr : r.LeavesVectors) {c : ClassNumber}
    {d d' : RegisteredClass P} (hget : r.get? c = some d) (hd' : d'.LeavesVectors) :
    (r.setClass c d').LeavesVectors := by
  intro k e hk
  rw [get?_setClass hget] at hk
  split at hk
  · rw [← Option.some.inj hk]
    exact hd'
  · exact hr k e hk

theorem leavesVectors_builtins : (builtins : Registry P).LeavesVectors := by
  refine LeavesVectors.push (LeavesVectors.push ?_ _) _
  intro c d hget
  simp [get?] at hget

/-- What can be bound without flags that say otherwise accepts writes. -/
theorem acceptsWrites_of_mem {name : String} {accessor : Accessor P} {flags : PropertyFlags}
    (h : (name, accessor, flags) ∈ TypedVector.Members.properties) :
    accessor.acceptsWrites = true := by
  simp only [TypedVector.Members.properties, List.mem_cons, Prod.mk.injEq, List.not_mem_nil,
    or_false] at h
  rcases h with ⟨-, rfl, -⟩ | ⟨-, rfl, -⟩ | ⟨-, rfl, -⟩ | ⟨-, rfl, -⟩ | ⟨-, rfl, -⟩ | ⟨-, rfl, -⟩
  all_goals rfl

theorem except_map_eq_ok {ε α β : Type} {x : Except ε α} {f : α → β} {b : β}
    (h : x.map f = .ok b) : ∃ a, x = .ok a ∧ f a = b := by
  cases x with
  | error e => cases h
  | ok a => exact ⟨a, rfl, Except.ok.inj h⟩

theorem LeavesVectors.declareClass {r r' : Registry P} (hr : r.LeavesVectors) {name : String}
    {parent : Option String} {singleton : Bool} {c : ClassNumber}
    (h : r.declareClass name parent singleton = .ok (c, r')) : r'.LeavesVectors := by
  unfold Registry.declareClass at h
  split at h
  · cases h
  · split at h
    · obtain ⟨-, rfl⟩ := Prod.mk.inj (Except.ok.inj h)
      exact hr.push _
    · split at h
      · cases h
      · obtain ⟨-, rfl⟩ := Prod.mk.inj (Except.ok.inj h)
        exact hr.push _

theorem LeavesVectors.bindFunction {r r' : Registry P} (hr : r.LeavesVectors) {c : ClassNumber}
    {name : String} {procedure : Procedure P} (h : r.bindFunction c name procedure = .ok r') :
    r'.LeavesVectors := by
  obtain ⟨d, hd, h⟩ := except_bind_eq_ok h
  have hd := demand_eq_ok hd
  split at h
  · cases h
  · obtain rfl := Except.ok.inj h
    exact hr.setClass hd ⟨(hr c d hd).fresh, (hr c d hd).properties, (hr c d hd).elements⟩

/-- Nothing but such registrations fill a registry that leaves vectors alone. -/
theorem LeavesVectors.register {r r' : Registry P} (hr : r.LeavesVectors) {call : Registration P}
    (hcall : call.LeavesVectors) (h : r.register call = .ok r') : r'.LeavesVectors := by
  cases call with
  | declareClass name parent singleton =>
    obtain ⟨⟨c, declared⟩, hdeclare, rfl⟩ := except_map_eq_ok h
    exact hr.declareClass hdeclare
  | setFresh c native =>
    obtain ⟨d, hd, h⟩ := except_bind_eq_ok h
    have hd := demand_eq_ok hd
    obtain rfl := Except.ok.inj h
    refine hr.setClass hd ⟨fun native' hnative => ?_, (hr c d hd).properties, (hr c d hd).elements⟩
    rw [← Option.some.inj hnative]
    exact hcall
  | bindProperty c name accessor flags =>
    obtain ⟨-, -, h⟩ := except_bind_eq_ok h
    obtain ⟨d, hd, h⟩ := except_bind_eq_ok h
    have hd := demand_eq_ok hd
    dsimp only at h
    split at h
    · cases h
    · obtain rfl := Except.ok.inj h
      refine hr.setClass hd ⟨(hr c d hd).fresh, fun entry hentry => ?_, (hr c d hd).elements⟩
      rcases Table.mem_entries_insert hentry with rfl | hentry
      · refine hcall.imp id fun hmember => ?_
        -- a member of vectors can be written, so it is not bound as read-only
        rw [if_pos (acceptsWrites_of_mem hmember)]
        exact hmember
      · exact (hr c d hd).properties entry hentry
  | bindElements c accessor flags =>
    obtain ⟨-, -, h⟩ := except_bind_eq_ok h
    obtain ⟨d, hd, h⟩ := except_bind_eq_ok h
    have hd := demand_eq_ok hd
    split at h
    · cases h
    · obtain rfl := Except.ok.inj h
      refine hr.setClass hd ⟨(hr c d hd).fresh, (hr c d hd).properties, fun b hb => ?_⟩
      rw [← Option.some.inj hb]
      exact hcall
  | bindFunction c name procedure => exact hr.bindFunction h
  | bindBuiltinFunction className name procedure =>
    simp only [Registry.register, bindBuiltinFunction] at h
    split at h
    · cases h
    · split at h
      · split at h
        · exact hr.bindFunction h
        · cases h
      · cases h
  | bindGlobal name procedure =>
    simp only [Registry.register, bindGlobal] at h
    split at h
    · cases h
    · obtain rfl := Except.ok.inj h
      exact hr

/-- What registrations that leave vectors alone keep is kept by a list of them. -/
theorem foldlM_induct {I : Registry P → Prop}
    (hstep : ∀ r r' call, Registration.LeavesVectors call → I r → r.register call = .ok r' → I r')
    {α : Type} {r r' : Registry P} (hr : I r) (call : α → Registration P) {xs : List α}
    (hcalls : ∀ x ∈ xs, (call x).LeavesVectors)
    (h : xs.foldlM (fun r x => r.register (call x)) r = .ok r') : I r' := by
  induction xs generalizing r with
  | nil => exact Except.ok.inj h ▸ hr
  | cons x xs ih =>
    rw [List.foldlM_cons] at h
    obtain ⟨r₁, hx, hrest⟩ := except_bind_eq_ok h
    exact ih (hstep r r₁ (call x) (hcalls x List.mem_cons_self) hr hx)
      (fun y hy => hcalls y (List.mem_cons_of_mem _ hy)) hrest

theorem register_declareClass {r r' : Registry P} {name : String} {parent : Option String}
    {singleton : Bool} {c : ClassNumber}
    (h : r.declareClass name parent singleton = .ok (c, r')) :
    r.register (.declareClass name parent singleton) = .ok r' := by
  rw [Registry.register, h]
  rfl

/-- The class of typed vectors is made by registrations that leave vectors alone, or bind its own
members. -/
theorem declareTypedVector_induct {I : Registry P → Prop}
    (hstep : ∀ r r' call, Registration.LeavesVectors call → I r → r.register call = .ok r' → I r')
    {r r' : Registry P} {c : ClassNumber} (hr : I r) (h : r.declareTypedVector = .ok (c, r')) :
    I r' := by
  obtain ⟨⟨c, r₁⟩, hclass, h⟩ := except_bind_eq_ok h
  obtain ⟨r₂, hfresh, h⟩ := except_bind_eq_ok h
  obtain ⟨r₃, hproperties, h⟩ := except_bind_eq_ok h
  obtain ⟨r₄, helements, h⟩ := except_bind_eq_ok h
  obtain ⟨r₅, hfunctions, h⟩ := except_bind_eq_ok h
  obtain ⟨rfl, rfl⟩ := Prod.mk.inj (Except.ok.inj h)
  have hempty : Registration.LeavesVectors (P := P) (.setFresh c fun _ => .vector .empty) := by
    intro _ v hv
    rw [← Option.some.inj hv]
    rfl
  have helement : Registration.LeavesVectors (P := P)
      (.bindElements c TypedVector.Members.elements .enumerable) := Or.inr rfl
  have h₁ : I r₁ := hstep _ _ (.declareClass _ _ _) trivial hr (register_declareClass hclass)
  have h₃ : I r₃ := foldlM_induct hstep (hstep _ _ (.setFresh c _) hempty h₁ hfresh)
    (fun member : String × Accessor P × PropertyFlags =>
      .bindProperty c member.1 member.2.1 member.2.2) (fun _ hmember => Or.inr hmember) hproperties
  exact foldlM_induct hstep (hstep _ _ (.bindElements c _ _) helement h₃ helements)
    (fun member : String × VectorMethod => .bindFunction c member.1 (.vector member.2))
    (fun _ _ => trivial) hfunctions

theorem leavesVectors_standard {r : Registry P} (h : standard = .ok r) : r.LeavesVectors := by
  obtain ⟨⟨c, declared⟩, hdeclare, rfl⟩ := except_map_eq_ok h
  exact declareTypedVector_induct (fun _ _ _ hcall hr => hr.register hcall) leavesVectors_builtins
    hdeclare

/-- The registry with the class of typed vectors is one of those that can be filled. -/
theorem declared_standard {r : Registry P} (h : standard = .ok r) : r.Declared := by
  obtain ⟨⟨c, declared⟩, hdeclare, rfl⟩ := except_map_eq_ok h
  exact declareTypedVector_induct (fun _ _ _ _ hr => hr.register) .builtins hdeclare

/-! ## What is Found on a Class -/

variable {r : Registry P} {c : ClassNumber}

theorem LeavesVectors.of_mem_lineage (hr : r.LeavesVectors) {d : RegisteredClass P}
    (hd : d ∈ r.lineage c) : d.LeavesVectors := by
  obtain ⟨k, -, hget⟩ := List.mem_filterMap.1 hd
  exact hr k d hget

theorem LeavesVectors.property (hr : r.LeavesVectors) {name : String} {b : BoundProperty P}
    (h : r.resolveProperty? c name = some b) : b.LeavesVectors name := by
  obtain ⟨d, hd, hfind⟩ := List.exists_of_findSome?_eq_some h
  exact (hr.of_mem_lineage hd).properties _ (Table.find?_eq_some_iff.1 hfind)

theorem LeavesVectors.elements (hr : r.LeavesVectors) {b : BoundElements P}
    (h : r.resolveElements? c = some b) : b.accessor.LeavesVectors := by
  obtain ⟨d, hd, helements⟩ := List.exists_of_findSome?_eq_some h
  exact (hr.of_mem_lineage hd).elements b helements

theorem LeavesVectors.fresh (hr : r.LeavesVectors) {native : P.World → Native P.Layer}
    (h : r.resolveFresh? c = some native) : FreshEmpty native := by
  obtain ⟨d, hd, hfresh⟩ := List.exists_of_findSome?_eq_some h
  exact (hr.of_mem_lineage hd).fresh native hfresh

end Registry

end ScriptBridge
