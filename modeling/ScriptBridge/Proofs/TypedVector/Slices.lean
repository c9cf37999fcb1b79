import ScriptBridge.Proofs.Realm.NativeState
import ScriptBridge.Proofs.Registry.Resolution
import ScriptBridge.Proofs.TypedVector.Class
import ScriptBridge.Proofs.TypedVector.Indices

/-!
# Slices of Instances

A class may extend the class of typed vectors and put layers of its own over the vector. A slice of an
instance is an instance of the same class. But where `construct` asks the class for its native state, a
slice brings the vector alone along: what asks for the vector finds the slice, and what asks for a layer
finds nothing.

Main statements: `Host.run_callMethod_slice`, `Realm.sliced_allocate` and `Host.slice_carries_vector_alone`.
-/

namespace ScriptBridge

variable {P : Platform}

/-! ## Classes of Vectors -/

/-- A class that derives from the class of typed vectors is not built in. -/
theorem Registry.Declared.not_builtin_of_vectors {r : Registry P} (hr : r.Declared)
    {c vectors : ClassNumber} {d : RegisteredClass P} (hget : r.get? c = some d)
    (hvectors : r.lookup? TypedVector.className = some vectors)
    (hderives : r.derivesFrom c vectors = true) : d.outline.builtin = false := by
  have hsound := hr.sound
  rw [← Bool.not_eq_true]
  intro hbuiltin
  -- the classes that are built in have other names and extend nothing
  have houtline : d.outline.parent = none ∧ d.outline.name ≠ TypedVector.className := by
    obtain ⟨object, hobject, hname⟩ := hsound.object
    obtain ⟨array, harray, haname⟩ := hsound.array
    obtain ⟨index⟩ := c
    have hlt : index < 2 := (hsound.classes _ d hget).builtin hbuiltin
    obtain rfl | rfl : index = 0 ∨ index = 1 := by omega
    · rw [Option.some.inj (hget.symm.trans hobject), hname]
      exact ⟨rfl, by decide⟩
    · rw [Option.some.inj (hget.symm.trans harray), haname]
      exact ⟨rfl, by decide⟩
  rcases (hsound.derivesFrom_iff hget).1 hderives with rfl | ⟨p, hparent, -⟩
  · obtain ⟨e, he, hname⟩ := Registry.exists_of_lookup? hvectors
    rw [Option.some.inj (he.symm.trans hget)] at hname
    exact houtline.2 hname
  · rw [houtline.1] at hparent
    cases hparent

/-! ## The Course of a Slice -/

namespace Realm

variable {r : Realm P} {c : ClassNumber} {d : RegisteredClass P}

theorem run_wrapNative {name : String} (hlookup : r.registry.lookup? name = some c)
    (hget : r.registry.get? c = some d) (hbuiltin : d.outline.builtin = false)
    (native : Native P.Layer) :
    Id.run ((wrapNative name native).run.run r) =
      (.ok (r.allocate (.ofForm (.instanceOf c (some native)))).1,
        (r.allocate (.ofForm (.instanceOf c (some native)))).2) := by
  unfold wrapNative
  rw [run_get]
  simp only [hlookup, hget, Option.all_some, hbuiltin]
  rfl

end Realm

namespace VectorMethod

variable {r : Realm P} {this : Handle} {call : Invocation} {start stop : Int32} {vec : TypedVector}

theorem run_runSlice_of_none (hnumbers : twoNumbers? call 0 = none) :
    Id.run ((runSlice this call).run.run r) =
      (.error (.usage "slice(start?: int, end?: int)"), r) := by
  unfold runSlice
  rw [hnumbers]
  rfl

theorem run_runSlice_of_error {error : ScriptError}
    (hnumbers : twoNumbers? call 0 = some (start, stop))
    (hnative : r.nativeAs .vector this = .error error) :
    Id.run ((runSlice this call).run.run r) = (.error error, r) := by
  unfold runSlice
  rw [hnumbers]
  dsimp only
  rw [Realm.run_get, hnative]
  rfl

theorem run_runSlice_of_ok {c : ClassNumber} {d : RegisteredClass P}
    (hnumbers : twoNumbers? call 0 = some (start, stop))
    (hnative : r.nativeAs .vector this = .ok vec) (hname : r.className? this = some d.outline.name)
    (hlookup : r.registry.lookup? d.outline.name = some c) (hget : r.registry.get? c = some d)
    (hbuiltin : d.outline.builtin = false) :
    let stop? := if 2 ≤ call.arguments.length then some stop.toInt else none
    let copy := r.allocate (.ofForm (.instanceOf c (some (.vector (vec.slice start.toInt stop?)))))
    Id.run ((runSlice this call).run.run r) = (.ok (.object copy.1), copy.2) := by
  intro stop? copy
  unfold runSlice
  rw [hnumbers]
  dsimp only
  rw [Realm.run_get, hnative, hname, Option.getD_some]
  -- the vector has been found, and what is left is to wrap its part
  exact Realm.run_bind_of_ok (Realm.run_wrapNative hlookup hget hbuiltin
    (.vector (vec.slice start.toInt stop?)))

end VectorMethod

/-- A method call that finds the function of typed vectors is a call of this function. -/
theorem Host.run_callMethod_slice (host : Host P) {r : Realm P} {c : ClassNumber} {v : Handle}
    (hclass : r.classOf? v = some c)
    (hslice : r.registry.resolveFunction? c "slice" = some (.vector .slice)) (args : List Value) :
    Id.run ((host.callMethod v "slice" args).run.run r) =
      Id.run ((VectorMethod.runSlice v (.ofArguments (args.map r.expand))).run.run r) := by
  obtain ⟨object, hget, -⟩ := Option.bind_eq_some_iff.1 hclass
  have hlive : r.resolves v = true := Heap.contains_iff.2 ⟨object, hget⟩
  unfold callMethod
  rw [Realm.run_get]
  simp only [hlive, hclass, Option.bind_some, hslice]
  -- the invocation carries the answer out as it is
  show Id.run (((VectorMethod.runSlice v (.ofArguments (args.map r.expand)) >>= fun answer =>
    pure ((Invocation.ofArguments (args.map r.expand)).answer answer)) >>= fun call =>
    pure call.takeAnswer.1).run.run r) = _
  rw [bind_assoc]
  rcases hrun : Id.run ((VectorMethod.runSlice v (.ofArguments (args.map r.expand))).run.run r) with
    ⟨answer | error, r'⟩
  · rw [Realm.run_bind_of_error (congrArg Prod.fst hrun)]
    exact congrArg (Prod.mk _) (congrArg Prod.snd hrun)
  · rw [Realm.run_bind_of_ok hrun]
    rfl

/-! ## What a Slice Answers -/

namespace Realm

/-- A part of the vector of `v` has been copied as a new object `w`. -/
structure Sliced (r r' : Realm P) (v w : Handle) (c : ClassNumber) (vec part : TypedVector) : Prop where
  /-- The object is a new one. -/
  fresh : ¬ r.heap.Issued w
  /-- All other objects are as they were. -/
  others : ∀ h, h ≠ w → r'.heap.get? h = r.heap.get? h
  /-- It is an instance of the class. -/
  classOf : r'.classOf? w = some c
  /-- Its native state is the part and nothing else. -/
  native : r'.native w = .ok (.vector part)
  /-- A property of the class reads off the part what it can. -/
  property : ∀ name b, r.registry.resolveProperty? c name = some b →
    r'.property w name = b.accessor.get (.vector part)
  /-- A property that asks for the vector is read as it is on the vector. -/
  vector : ∀ name b get, r.registry.resolveProperty? c name = some b →
    b.accessor.get = Facet.reader .vector get →
    r.property v name = get vec ∧ r'.property w name = get part
  /-- The properties that vectors have by themselves can be read. -/
  members : ∀ name b, r.registry.resolveProperty? c name = some b →
    b ∈ TypedVector.Members.bindings → ∃ value, r'.property w name = .ok value
  /-- A property that asks for what a vector alone is not cannot be read. -/
  other : ∀ (α : Type) (facet : Facet P.Layer α) name b get,
    r.registry.resolveProperty? c name = some b → b.accessor.get = facet.reader get →
    facet.find? (.vector part) = none →
    r'.property w name = .error (.thrown ("receiver is not a " ++ facet.name))

theorem nativeAs_eq_ok {r : Realm P} {h : Handle} {α : Type} {facet : Facet P.Layer α} {part : α}
    (hpart : r.nativeAs facet h = .ok part) :
    ∃ native, r.native h = .ok native ∧ facet.find? native = some part := by
  obtain ⟨native, hnative, hfind⟩ := Registry.except_bind_eq_ok hpart
  refine ⟨native, hnative, ?_⟩
  cases hfound : facet.find? native with
  | some found =>
    rw [hfound] at hfind
    rw [Except.ok.inj hfind]
  | none =>
    rw [hfound] at hfind
    cases hfind

theorem reader_of_find? {α : Type} {facet : Facet P.Layer α} {native : Native P.Layer} {part : α}
    (hfind : facet.find? native = some part) (get : α → Except ScriptError Value) :
    facet.reader get native = get part := by
  rw [Facet.reader, Facet.demand, hfind]
  rfl

theorem reader_of_find?_eq_none {α : Type} {facet : Facet P.Layer α} {native : Native P.Layer}
    (hfind : facet.find? native = none) (get : α → Except ScriptError Value) :
    facet.reader get native = .error (.thrown ("receiver is not a " ++ facet.name)) := by
  rw [Facet.reader, Facet.demand, hfind]
  rfl

/-- The properties of vectors can be read off every vector. -/
theorem exists_get_of_mem_bindings {b : BoundProperty P} (hb : b ∈ TypedVector.Members.bindings)
    (vec : TypedVector) : ∃ value, b.accessor.get (.vector vec) = .ok value := by
  obtain ⟨member, hmember, rfl⟩ := List.mem_map.1 hb
  simp only [TypedVector.Members.properties, List.mem_cons, List.not_mem_nil, or_false] at hmember
  rcases hmember with rfl | rfl | rfl | rfl | rfl | rfl <;> exact ⟨_, rfl⟩

theorem sliced_allocate {r : Realm P} (hwf : r.heap.WellFormed) (hroom : r.heap.HasRoom 1) {v : Handle}
    {c : ClassNumber} (hclass : r.classOf? v = some c) {vec : TypedVector}
    (hvector : r.nativeAs .vector v = .ok vec) (part : TypedVector) :
    let copy := r.allocate (.ofForm (.instanceOf c (some (.vector part))))
    Sliced r copy.2 v copy.1 c vec part := by
  intro copy
  obtain ⟨native, hnative, hvec⟩ := nativeAs_eq_ok hvector
  have hheap := hwf.get?_allocate hroom (.ofForm (.instanceOf c (some (.vector part))))
  have hget : copy.2.heap.get? copy.1 = some (.ofForm (.instanceOf c (some (.vector part)))) :=
    (hheap copy.1).trans (if_pos rfl)
  have hcopy : copy.2.native copy.1 = .ok (.vector part) := by
    rw [Realm.native, hget]
    rfl
  have hclassOf : copy.2.classOf? copy.1 = some c := by
    rw [classOf?, hget]
    rfl
  -- both instances answer for their native state
  have hread : ∀ name b, r.registry.resolveProperty? c name = some b →
      r.property v name = b.accessor.get native ∧
        copy.2.property copy.1 name = b.accessor.get (.vector part) := by
    intro name b hb
    obtain ⟨k, hv⟩ := responds_of_native hwf hnative
    obtain ⟨k', hw⟩ := responds_of_native
      (show copy.2.heap.WellFormed from hwf.allocate hroom _) hcopy
    obtain rfl := Option.some.inj (hclass.symm.trans hv.classOf)
    obtain rfl := Option.some.inj (hclassOf.symm.trans hw.classOf)
    have hb' : copy.2.registry.resolveProperty? c name = some b := hb
    rw [hv.property, hw.property, hb, hb']
    exact ⟨rfl, rfl⟩
  constructor
  case fresh => exact hwf.not_issued_allocate hroom _
  -- an allocation changes what one handle leads to, and that handle is a new one
  case others => exact fun h hne => (hheap h).trans (if_neg hne)
  case classOf => exact hclassOf
  case native => exact hcopy
  case property => exact fun name b hb => (hread name b hb).2
  case vector =>
    intro name b get hb hget
    rw [(hread name b hb).1, (hread name b hb).2, hget]
    exact ⟨reader_of_find? hvec get, reader_of_find? rfl get⟩
  case members =>
    intro name b hb hmember
    rw [(hread name b hb).2]
    exact exists_get_of_mem_bindings hmember part
  case other =>
    intro α facet name b get hb hget hfind
    rw [(hread name b hb).2, hget, reader_of_find?_eq_none hfind]

end Realm

/-- **A slice carries the vector alone.** Whatever class extends that of typed vectors, and whatever
layers its instances have over the vector: a slice of an instance is refused for its arguments, or because
the instance has no vector, and then nothing changes; otherwise it is a new instance of the same class, which
holds the elements between the two positions, and of which can be read what asks for the vector, but not
what asks for a layer. -/
theorem Host.slice_carries_vector_alone (host : Host P) {r : Realm P} (hr : r.Reachable)
    (hroom : r.heap.HasRoom 1) {vectors c : ClassNumber}
    (hvectors : r.registry.lookup? TypedVector.className = some vectors)
    (hderives : r.registry.derivesFrom c vectors = true)
    (hslice : r.registry.resolveFunction? c "slice" = some (.vector .slice)) {v : Handle}
    (hclass : r.classOf? v = some c) (args : List Value) :
    let call := Invocation.ofArguments (args.map r.expand)
    let outcome := Id.run ((host.callMethod v "slice" args).run.run r)
    (VectorMethod.twoNumbers? call 0 = none →
      outcome = (.error (.usage "slice(start?: int, end?: int)"), r)) ∧
    ∀ start stop, VectorMethod.twoNumbers? call 0 = some (start, stop) →
      (∀ error, r.nativeAs .vector v = .error error → outcome = (.error error, r)) ∧
      ∀ vec, r.nativeAs .vector v = .ok vec →
        let stop? := if 2 ≤ args.length then some stop.toInt else none
        let part := vec.slice start.toInt stop?
        let first := TypedVector.position start.toInt vec.size
        let last := stop?.elim vec.size (TypedVector.position · vec.size)
        part.type? = vec.type? ∧ part.values = (vec.values.take (max first last)).drop first ∧
        ∃ w r', outcome = (.ok (.object w), r') ∧ Realm.Sliced r r' v w c vec part := by
  intro call outcome
  have hrun : outcome = Id.run ((VectorMethod.runSlice v call).run.run r) :=
    host.run_callMethod_slice hclass hslice args
  rw [hrun]
  refine ⟨VectorMethod.run_runSlice_of_none, fun start stop hnumbers => ⟨?missing, ?found⟩⟩
  case missing => exact fun error hnative => VectorMethod.run_runSlice_of_error hnumbers hnative
  case found =>
    intro vec hvector stop? part first last
    refine ⟨TypedVector.type?_slice vec _ _, TypedVector.values_slice vec _ _, ?_⟩
    -- the class of the receiver is found again under its name
    obtain ⟨d, hget⟩ := Registry.exists_of_derivesFrom hderives
    have hdeclared := hr.declared
    have hname : r.className? v = some d.outline.name := by
      rw [Realm.className?, hclass, Option.bind_some, Registry.name?, hget, Option.map_some]
    have hslice := VectorMethod.run_runSlice_of_ok hnumbers hvector hname
      (hdeclared.lookup?_outline hget) hget (hdeclared.not_builtin_of_vectors hget hvectors hderives)
    have hlength : call.arguments.length = args.length := List.length_map _
    rw [hlength] at hslice
    exact ⟨_, _, hslice, Realm.sliced_allocate hr.sound.wellFormed hroom hclass hvector part⟩

/-! ## A Layer over a Vector -/

namespace Registry

/-- The standard classes, and a class whose instances have a bag over their vector, with a property that
reads a slot of the bag. -/
def declareLabels : Except RegistrationError (Registry Scenario.platform) := do
  let r ← standard
  let r ← r.register (.declareClass "Labels" (some TypedVector.className) false)
  let r ← r.register (.setFresh ⟨3⟩ fun _ =>
    .derived (Scenario.Bag.ofSlots .alpha "labels" [] [] false) (.vector .empty))
  r.register (.bindProperty ⟨3⟩ "size"
    (Scenario.PropertySpec.accessor ⟨"size", .alpha, "size", .typed .int none⟩) .none)

/-- The registry with these classes. -/
def withLabels : Registry Scenario.platform := declareLabels.toOption.getD .builtins

theorem declared_withLabels : withLabels.Declared := by
  unfold withLabels
  cases h : declareLabels with
  | error error => exact .builtins
  | ok r =>
    obtain ⟨r₁, h₁, h⟩ := except_bind_eq_ok h
    obtain ⟨r₂, h₂, h⟩ := except_bind_eq_ok h
    obtain ⟨r₃, h₃, h₄⟩ := except_bind_eq_ok h
    exact .register (.register (.register (declared_standard h₁) h₂) h₃) h₄

end Registry

namespace Realm

/-- A realm with an instance of this class, which a script has constructed and filled. -/
def ofLabels : Realm Scenario.platform :=
  let r := after (construct "Labels") (ofRegistry .withLabels .standard Scenario.Stage.empty)
  after (VectorMethod.run .push (some ⟨1, 0⟩) (.ofArguments [.int 7, .int 8])) r

theorem reachable_ofLabels : ofLabels.Reachable ∧ ofLabels.heap.HasRoom 1 := by
  have hcapacity : ofLabels.heap.capacity = 2 := by cbv
  have hsize : UInt32.size = 4294967296 := rfl
  have hsteps : Steps (ofRegistry .withLabels .standard Scenario.Stage.empty) ofLabels :=
    .trans (acts_construct "Labels" _)
      (VectorMethod.acts_run .push (some ⟨1, 0⟩) (.ofArguments [.int 7, .int 8]) _)
  refine ⟨⟨.withLabels, .standard, Scenario.Stage.empty, Registry.declared_withLabels, hsteps, ?_⟩, ?_⟩
  · omega
  · unfold Heap.HasRoom
    omega

/-- All labels but the first are copied. -/
def copyLabels : Action Scenario.platform Value :=
  (Scenario.hostWithin false 0).callMethod ⟨1, 0⟩ "slice" [.int 1]

theorem slice_carries_labels_alone :
    ofLabels.Reachable ∧ ofLabels.heap.HasRoom 1 ∧
    ofLabels.registry.lookup? TypedVector.className = some ⟨2⟩ ∧
    ofLabels.registry.derivesFrom ⟨3⟩ ⟨2⟩ = true ∧
    ofLabels.registry.resolveFunction? ⟨3⟩ "slice" = some (.vector .slice) ∧
    ofLabels.classOf? ⟨1, 0⟩ = some ⟨3⟩ ∧
    VectorMethod.twoNumbers? (.ofArguments ([.int 1].map ofLabels.expand)) 0 = some (1, 0) ∧
    ∃ vec w r', ofLabels.nativeAs .vector ⟨1, 0⟩ = .ok vec ∧
      Id.run (copyLabels.run.run ofLabels) = (.ok (.object w), r') ∧
      (vec.slice 1 none).values = [.int 8] ∧
      Sliced ofLabels r' ⟨1, 0⟩ w ⟨3⟩ vec (vec.slice 1 none) := by
  obtain ⟨hr, hroom⟩ := reachable_ofLabels
  have hfacts : (ofLabels.registry.lookup? TypedVector.className,
      ofLabels.registry.derivesFrom ⟨3⟩ ⟨2⟩, ofLabels.registry.resolveFunction? ⟨3⟩ "slice",
      ofLabels.classOf? ⟨1, 0⟩,
      VectorMethod.twoNumbers? (.ofArguments ([.int 1].map ofLabels.expand)) 0,
      (ofLabels.nativeAs .vector ⟨1, 0⟩).map fun vec => (vec.slice 1 none).values) =
        (some ⟨2⟩, true, some (.vector .slice), some ⟨3⟩, some (1, 0), .ok [.int 8]) := by cbv
  simp only [Prod.mk.injEq] at hfacts
  obtain ⟨hvectors, hderives, hslice, hclass, hnumbers, hstate⟩ := hfacts
  obtain ⟨vec, hvector, hvalues⟩ := Registry.except_map_eq_ok hstate
  obtain ⟨-, hfound⟩ := (Scenario.hostWithin false 0).slice_carries_vector_alone hr hroom hvectors
    hderives hslice hclass [.int 1]
  obtain ⟨-, -, w, r', hrun, hsliced⟩ := (hfound 1 0 hnumbers).2 vec hvector
  exact ⟨hr, hroom, hvectors, hderives, hslice, hclass, hnumbers, vec, w, r', hvector, hrun, hvalues,
    hsliced⟩

/-- The size, which can be read on the labels, cannot be read on their copy. -/
theorem size_lost_on_copy :
    ofLabels.Reachable ∧
    ofLabels.registry.derivesFrom ⟨3⟩ ⟨2⟩ = true ∧
    ((ofLabels.registry.resolveFresh? ⟨3⟩).any fun fresh =>
      (fresh ofLabels.world).vector?.isSome) = true ∧
    ofLabels.classOf? ⟨1, 0⟩ = some ⟨3⟩ ∧ ofLabels.property ⟨1, 0⟩ "size" = .ok (.int 0) ∧
    answer copyLabels ofLabels = .ok (.object ⟨2, 0⟩) ∧
    (after copyLabels ofLabels).classOf? ⟨2, 0⟩ = some ⟨3⟩ ∧
    (after copyLabels ofLabels).property ⟨2, 0⟩ "size" =
      .error (.thrown "receiver is not a Alpha") := by
  have hbefore : (ofLabels.registry.derivesFrom ⟨3⟩ ⟨2⟩,
      (ofLabels.registry.resolveFresh? ⟨3⟩).any fun fresh => (fresh ofLabels.world).vector?.isSome,
      ofLabels.classOf? ⟨1, 0⟩, ofLabels.property ⟨1, 0⟩ "size") =
        (true, true, some ⟨3⟩, .ok (.int 0)) := by cbv
  have hafter : (answer copyLabels ofLabels, (after copyLabels ofLabels).classOf? ⟨2, 0⟩,
      (after copyLabels ofLabels).property ⟨2, 0⟩ "size") =
        (.ok (.object ⟨2, 0⟩), some ⟨3⟩, .error (.thrown "receiver is not a Alpha")) := by cbv
  simp only [Prod.mk.injEq] at hbefore hafter
  obtain ⟨hderives, hfresh, hclass, hread⟩ := hbefore
  exact ⟨reachable_ofLabels.1, hderives, hfresh, hclass, hread, hafter⟩

end Realm

end ScriptBridge
