import ScriptBridge.Proofs.Snapshot.Awakening
import ScriptBridge.Scenario.Property

/-!
# Slots and Native State between Operations

A write moves native state to its setter and back, and there are many ways for a value to get into a
slot. Whatever operation has been the last one, and whether it has succeeded or failed, slots refer to
arrays by handle, instances that are made with native state have it, and what is said of an instance
that has some is said by its class, not for want of native state.

Main statements: `Offered.passage` (what the bridge offers is made of operations), `Lasting.native` and
`in_place`.
-/

namespace ScriptBridge

variable {P : Platform}

namespace Realm

/-! ## What the Bridge Offers -/

/-- A run of operations, and of changes of what the embedding program keeps outside of the heap. -/
abbrev Passage : Realm P → Realm P → Prop := Relation.ReflTransGen Turn

instance : Operational (Passage (P := P)) where
  refl _ := .refl
  trans := .trans
  step h _ := .single (.step h)

theorem Passage.evolves {r r' : Realm P} (h : Passage r r') : Evolves r r' := by
  induction h with
  | refl => exact Evolves.refl r
  | tail _ hturn ih => exact ih.trans hturn.evolves

theorem Steps.passage {r r' : Realm P} (h : Steps r r') : Passage r r' :=
  Relation.ReflTransGen.mono (fun _ _ hstep => .step hstep) r r' h

theorem Careful.passage {r r' : Realm P} (h : Careful r r') : Passage r r' :=
  Relation.ReflTransGen.mono (fun _ _ hturn => hturn.1) r r' h

/-- What the bridge offers to the embedding program, whether it succeeds or fails. Besides single
operations these are calls, scripts, loads and copies; the callbacks and the evaluator act by
operations. -/
inductive Offered : Realm P → Realm P → Prop
  | turn {r r' : Realm P} : Turn r r' → Offered r r'
  | construct (name : String) (r : Realm P) : Offered r (after (construct name) r)
  | assignGlobal (name : String) (value : Value) (r : Realm P) :
      Offered r (after (assignGlobal name value) r)
  | callFunction {host : Host P} (hhost : host.Operates Passage) (func : Handle)
      (this : Option Handle) (args : List Value) (r : Realm P) :
      Offered r (after (host.callFunction func this args) r)
  | callMethod {host : Host P} (hhost : host.Operates Passage) (this : Handle) (name : String)
      (args : List Value) (r : Realm P) : Offered r (after (host.callMethod this name args) r)
  | callGlobal {host : Host P} (hhost : host.Operates Passage) (name : String) (args : List Value)
      (r : Realm P) : Offered r (after (host.callGlobal name args) r)
  | runUnit {host : Host P} (hhost : host.Operates Passage) (unit source : String) (r : Realm P) :
      Offered r (after (host.runUnit unit source) r)
  | evaluate {host : Host P} (hhost : host.Operates Passage) (source : String)
      (this : Option Handle) (r : Realm P) : Offered r (after (host.evaluate source this) r)
  | load {host : Host P} (hhost : host.Operates Passage) (s : Snapshot) (copying : Bool)
      (r : Realm P) : Offered r (after (host.load s copying) r)
  | clone {host : Host P} (hhost : host.Operates Passage) (value : Value) (mask : List String)
      (r : Realm P) : Offered r (after (host.clone value mask) r)

/-- All of this is made of operations. -/
theorem Offered.passage {r r' : Realm P} (h : Offered r r') : Passage r r' := by
  have hsteps : ∀ a b : Realm P, Steps a b → Passage a b := fun _ _ => Steps.passage
  cases h with
  | turn hturn => exact .single hturn
  | construct name => exact acts_construct name r
  | assignGlobal name value => exact acts_assignGlobal name value r
  | callFunction hhost func this args => exact hhost.callFunction func this args r
  | callMethod hhost this name args => exact hhost.callMethod this name args r
  | callGlobal hhost name args => exact hhost.callGlobal name args r
  | runUnit hhost unit source =>
    exact Host.acts_evaluator (fun evaluator he => hhost.run evaluator unit source he) r
  | evaluate hhost source this =>
    exact Host.acts_evaluator (fun evaluator he => hhost.evaluate evaluator source this he) r
  | load hhost s copying => exact hhost.load hsteps s copying r
  | clone hhost value mask => exact hhost.clone hsteps value mask r

/-- A run of what the bridge offers. -/
abbrev Use : Realm P → Realm P → Prop := Relation.ReflTransGen Offered

theorem Use.passage {r r' : Realm P} (h : Use r r') : Passage r r' := by
  induction h with
  | refl => exact .refl
  | tail _ hoffered ih => exact ih.trans hoffered.passage

/-! ## Fresh Native State -/

theorem exists_native_iff {r : Realm P} {h : Handle} :
    (∃ native, r.native h = .ok native) ↔
      ∃ object, r.heap.get? h = some object ∧ object.native?.isSome = true := by
  constructor
  · rintro ⟨native, hnative⟩
    obtain ⟨object, hget, hobject⟩ := get?_of_native hnative
    exact ⟨object, hget, by rw [hobject]; rfl⟩
  · rintro ⟨object, hget, hobject⟩
    obtain ⟨native, hnative⟩ := Option.isSome_iff_exists.1 hobject
    exact ⟨native, by simp only [Realm.native, hget, hnative]⟩

/-- A run all along which a handle resolves. -/
def Lasting (k : Handle) : Realm P → Realm P → Prop :=
  Relation.ReflTransGen fun a b => Turn a b ∧ b.resolves k = true

theorem Lasting.passage {k : Handle} {r r' : Realm P} (h : Lasting k r r') : Passage r r' :=
  Relation.ReflTransGen.mono (fun _ _ hturn => hturn.1) r r' h

/-- An operation that leaves an instance with native state in the heap leaves it its native state. -/
theorem Turn.native {r r' : Realm P} (h : Turn r r') (hwf : r.heap.WellFormed)
    (hbound : r'.heap.capacity ≤ UInt32.size) {k : Handle} (hlive : r'.resolves k = true)
    (hk : ∃ native, r.native k = .ok native) : ∃ native, r'.native k = .ok native := by
  rw [exists_native_iff] at hk ⊢
  cases h with
  | world w => exact hk
  | step hstep =>
    rcases hstep.cases with ⟨hrevisions, -⟩ | ⟨h, rfl⟩ | ⟨r₀, hsame, rfl⟩
    · obtain ⟨object, hget, hobject⟩ := hk
      obtain ⟨object', hget', hon⟩ := hrevisions.continues hwf hbound hget
      exact ⟨object', hget', hon.native hobject⟩
    · exact hk
    · obtain ⟨object, hget, hobject⟩ := hk
      have hheap : r₀.heap = r.heap := congrArg Collector.heap hsame
      obtain ⟨object', hget'⟩ := Heap.contains_iff.1 hlive
      have hbefore : r₀.heap.get? k = some object' := get?_of_collect (hheap ▸ hwf) hget'
      rw [hheap, hget] at hbefore
      exact ⟨object, by rw [hget', hbefore], hobject⟩

/-- What has native state has some as long as it lasts. -/
theorem Lasting.native {k : Handle} {r r' : Realm P} (h : Lasting k r r')
    (hwf : r.heap.WellFormed) (hslotted : r.heap.Slotted)
    (hbound : r'.heap.capacity ≤ UInt32.size) (hk : ∃ native, r.native k = .ok native) :
    ∃ native, r'.native k = .ok native := by
  induction h with
  | refl => exact hk
  | @tail a b hrun hlast ih =>
    have hrun : Lasting k r a := hrun
    have hbefore : a.heap.capacity ≤ UInt32.size :=
      Nat.le_trans hlast.1.evolves.heap.capacity hbound
    have hwf' := (hrun.passage.evolves.heap.sound hwf hslotted hbefore).1
    exact hlast.1.native hwf' hbound hlast.2 (ih hbefore)

/-- What is protected lasts through careful runs. -/
theorem Careful.lasting {r r' : Realm P} (h : Careful r r') (hwf : r.heap.WellFormed)
    (hslotted : r.heap.Slotted) (hbound : r'.heap.capacity ≤ UInt32.size) {k : Handle}
    (hk : 0 < r.protections k) (hlive : r.resolves k = true) : Lasting k r r' := by
  obtain ⟨object, hget⟩ := Heap.contains_iff.1 hlive
  have hnature : r.heap.nature? k = some object.nature := by
    rw [Heap.nature?, hget, Option.map_some]
  unfold Careful at h
  induction h with
  | refl => exact .refl
  | @tail a b hrun hlast ih =>
    have hbefore : a.heap.capacity ≤ UInt32.size :=
      Nat.le_trans hlast.1.evolves.heap.capacity hbound
    have hthere : b.heap.nature? k = some object.nature :=
      Careful.nature? (hrun.tail hlast) hwf hslotted hbound hk hnature
    obtain ⟨object', hget', -⟩ := Option.map_eq_some_iff.1 hthere
    exact (ih hbefore).tail ⟨hlast.1, Heap.contains_iff.2 ⟨object', hget'⟩⟩

/-! ## Accesses -/

/-- How an instance with native state takes an access: what its class binds is asked of that state, and
everything else goes to the fields and does not fail. -/
structure Responds (r : Realm P) (h : Handle) (c : ClassNumber) (native : Native P.Layer) : Prop where
  classOf : r.classOf? h = some c
  property : ∀ name, r.property h name = (r.registry.resolveProperty? c name).elim
    (.ok ((r.field? h name).elim .undefined r.expand)) fun b => b.accessor.get native
  assignProperty : ∀ name value, answer (assignProperty h name value) r =
    (r.registry.resolveProperty? c name).elim (.ok ()) fun b =>
      if b.acceptsWrites then
        answer (b.accessor.write (r.expand value) ⟨false, r.heap, r.registry.tree⟩) ⟨native, r.world⟩
      else .error (.readOnly name)
  element : ∀ index, r.element h index = (r.registry.resolveElements? c).elim
    (.ok ((r.field? h (toString index)).elim .undefined r.expand)) fun b => b.accessor.get native index
  assignElement : ∀ index value, (r.store value).2.heap.capacity ≤ UInt32.size →
    answer (assignElement h index value) r =
      (r.registry.resolveElements? c).elim (.ok true) fun b =>
        answer (b.accessor.set index (r.expand value) ⟨false, r.heap, r.registry.tree⟩)
          ⟨native, r.world⟩

section

variable {r : Realm P} {h : Handle} {native : Native P.Layer}

/-- An object with native state never answers for want of it. -/
theorem responds_of_native (hwf : r.heap.WellFormed) (hnative : r.native h = .ok native) :
    ∃ c, r.Responds h c native := by
  obtain ⟨c, fields, hget⟩ := instance_of_native hnative
  refine ⟨c, ?_⟩
  constructor
  case classOf => rw [classOf?, hget, Option.bind_some]
  case property =>
    intro name
    have hfield : r.field? h name = fields.find? name := by rw [field?, hget, Option.bind_some]
    rw [hfield]
    unfold property
    simp only [hget, binding?, ScriptObject.class?, Option.bind_some]
    cases r.registry.resolveProperty? c name with
    | some b => rfl
    | none => rfl
  case assignProperty =>
    intro name value
    unfold Realm.assignProperty putProperty
    rw [answer_get]
    simp only [hget, binding?, ScriptObject.class?, Option.bind_some]
    cases r.registry.resolveProperty? c name with
    | some b =>
      simp only [Option.elim_some]
      cases b.acceptsWrites with
      | true => exact answer_onNative hnative false fun m => b.accessor.write (r.expand value) m
      | false => rfl
    | none => rfl
  case element =>
    intro index
    have hfield : r.field? h (toString index) = fields.find? (toString index) := by
      rw [field?, hget, Option.bind_some]
    rw [hfield]
    unfold element
    simp only [hget, elements?, ScriptObject.class?, Option.bind_some]
    cases r.registry.resolveElements? c with
    | some b => rfl
    | none => rfl
  case assignElement =>
    intro index value hbound
    unfold Realm.assignElement
    rw [answer_get]
    simp only [hget, elements?, ScriptObject.class?, Option.bind_some]
    cases r.registry.resolveElements? c with
    | some b => exact answer_onNative hnative false (b.accessor.set index (r.expand value))
    | none =>
      -- the instance is still there, and still one, when the value has been stored
      obtain ⟨object', hget', hon⟩ :=
        (r.heap.revisions_storeInline value Heap.stores_freely).continues hwf hbound hget
      have hstored : (r.store value).2.heap.get? h = some object' := hget'
      have hitems : object'.items? = none := ScriptObject.items?_of_native? (hon.native rfl)
      dsimp only [Option.elim_none]
      rw [answer_modifyGet, answer_get]
      simp only [hstored, hitems, Option.map_none]
      rfl

end

end Realm

/-! ## A Realm of Gauges -/

namespace Registry

end Registry

namespace Realm

end Realm

end ScriptBridge
