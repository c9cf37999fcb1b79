import ScriptBridge.Proofs.Heap.SlotForm
import ScriptBridge.Proofs.Registry.Declared
import ScriptBridge.Realm.Instance
import Mathlib.Logic.Relation

/-!
# Reachable Realms

A realm starts with a registry that has been filled and changes by the operations that scripts and
the embedding program have at hand, whether they succeed or fail. What holds of all realms that can
come about follows from what one operation does to the classes and to the heap.

Main statements: `Step.evolves` and `Reachable.sound`.
-/

namespace ScriptBridge

/-- A relation between states that can be followed from step to step. -/
class Course {σ : Type} (R : σ → σ → Prop) : Prop where
  refl : ∀ s, R s s
  trans : ∀ {a b c}, R a b → R b c → R a c

namespace Realm

variable {P : Platform}

/-! ## Effects of actions -/

/-- The state after an action, whether it has failed or not. -/
def after {ε σ α : Type} (action : ExceptT ε (StateM σ) α) (s : σ) : σ := (Id.run (action.run.run s)).2

/-- The answer of an action, whether it has failed or not. -/
def answer {ε σ α : Type} (action : ExceptT ε (StateM σ) α) (s : σ) : Except ε α :=
  (Id.run (action.run.run s)).1

theorem answer_get {ε σ α : Type} (next : σ → ExceptT ε (StateM σ) α) (s : σ) :
    answer (get >>= next) s = answer (next s) s := rfl

theorem answer_modifyGet {ε σ α β : Type} (f : σ → α × σ) (next : α → ExceptT ε (StateM σ) β)
    (s : σ) : answer (modifyGet f >>= next) s = answer (next (f s).1) (f s).2 := rfl

section

variable {ε σ α β : Type} {R : σ → σ → Prop} {s : σ}

theorem after_pure (hrefl : ∀ s, R s s) (answer : α) :
    R s (after (pure answer : ExceptT ε (StateM σ) α) s) := hrefl s

theorem after_get {next : σ → ExceptT ε (StateM σ) β} (h : R s (after (next s) s)) :
    R s (after (get >>= next) s) := h

theorem after_lift (hrefl : ∀ s, R s s) (x : Except ε α) :
    R s (after (liftM x : ExceptT ε (StateM σ) α) s) := by
  cases x <;> exact hrefl s

theorem after_lift_bind_of_ok (hrefl : ∀ s, R s s) {x : Except ε α}
    {next : α → ExceptT ε (StateM σ) β} (h : ∀ answer, x = .ok answer → R s (after (next answer) s)) :
    R s (after ((liftM x : ExceptT ε (StateM σ) α) >>= next) s) := by
  cases x with
  | error error => exact hrefl s
  | ok answer => exact h answer rfl

theorem after_lift_bind (hrefl : ∀ s, R s s) {x : Except ε α}
    {next : α → ExceptT ε (StateM σ) β} (h : ∀ answer, R s (after (next answer) s)) :
    R s (after ((liftM x : ExceptT ε (StateM σ) α) >>= next) s) :=
  after_lift_bind_of_ok hrefl fun answer _ => h answer

theorem after_modifyGet (htrans : ∀ {a b c}, R a b → R b c → R a c) {f : σ → α × σ}
    {next : α → ExceptT ε (StateM σ) β} (h : R s (f s).2)
    (h' : R (f s).2 (after (next (f s).1) (f s).2)) :
    R s (after (modifyGet f >>= next) s) := htrans h h'

/-- One action after another: what the first one leaves behind is where the second one starts. -/
theorem after_bind (htrans : ∀ {a b c}, R a b → R b c → R a c) {action : ExceptT ε (StateM σ) α}
    {next : α → ExceptT ε (StateM σ) β} (h : R s (after action s))
    (h' : ∀ answer, R (after action s) (after (next answer) (after action s))) :
    R s (after (action >>= next) s) := by
  unfold after at h h' ⊢
  rw [ExceptT.run_bind, StateT.run_bind]
  cases hrun : action.run.run s with
  | mk outcome s' =>
    rw [hrun] at h h'
    cases outcome with
    | ok answer => exact htrans h (h' answer)
    | error error => exact h

/-- An answer of its own does not change what an action leaves behind. -/
theorem after_bind_pure (action : ExceptT ε (StateM σ) α) (answer : β) (s : σ) :
    after (action >>= fun _ => pure answer) s = after action s := by
  unfold after
  rw [ExceptT.run_bind, StateT.run_bind]
  cases hrun : action.run.run s with
  | mk outcome s' => cases outcome <;> rfl

theorem run_of_answer {step : ExceptT ε (StateM σ) α} {answer : α}
    (h : (Id.run (step.run.run s)).1 = .ok answer) :
    Id.run (step.run.run s) = (.ok answer, after step s) := Prod.ext h rfl

/-- A step that succeeds consists of steps that succeed. -/
theorem exists_of_run_bind {step : ExceptT ε (StateM σ) α} {next : α → ExceptT ε (StateM σ) β}
    {s'' : σ} {b : β} (h : Id.run ((step >>= next).run.run s) = (.ok b, s'')) :
    ∃ a s', Id.run (step.run.run s) = (.ok a, s') ∧ Id.run ((next a).run.run s') = (.ok b, s'') := by
  rw [ExceptT.run_bind, StateT.run_bind] at h
  rcases hrun : step.run.run s with ⟨outcome, s'⟩
  rw [hrun] at h
  cases outcome with
  | ok answer => exact ⟨answer, s', rfl, h⟩
  | error error => cases (Prod.mk.inj h).1

theorem run_bind_of_ok {step : ExceptT ε (StateM σ) α} {next : α → ExceptT ε (StateM σ) β} {s' : σ}
    {a : α} (h : Id.run (step.run.run s) = (.ok a, s')) :
    Id.run ((step >>= next).run.run s) = Id.run ((next a).run.run s') := by
  have hstep : step.run.run s = pure (.ok a, s') := h
  rw [ExceptT.run_bind, StateT.run_bind, hstep]
  rfl

theorem run_bind_of_error {step : ExceptT ε (StateM σ) α} {next : α → ExceptT ε (StateM σ) β}
    {error : ε} (h : answer step s = .error error) :
    Id.run ((step >>= next).run.run s) = (.error error, after step s) := by
  have hstep : step.run.run s = pure (.error error, after step s) := Prod.ext h rfl
  rw [ExceptT.run_bind, StateT.run_bind, hstep]
  rfl

end

/-! ## What an operation can do -/

/-- What a realm can become: the classes and the options stay as they are, and the heap stays in
order. -/
structure Evolves (r r' : Realm P) : Prop where
  /-- The classes do not change. -/
  registry : r'.registry = r.registry
  /-- The options do not change. -/
  options : r'.options = r.options
  /-- The heap stays in order. -/
  heap : r.heap.Grows r'.heap

theorem Evolves.refl (r : Realm P) : Evolves r r := ⟨rfl, rfl, Heap.Grows.refl⟩

theorem Evolves.trans {a b c : Realm P} (h : Evolves a b) (h' : Evolves b c) : Evolves a c :=
  ⟨h'.registry.trans h.registry, h'.options.trans h.options, h.heap.trans h'.heap⟩

theorem evolves_modifyObject (h : Handle) {f : ScriptObject P → ScriptObject P}
    (hf : ∀ object, object.Slotted → (f object).Slotted) (r : Realm P) :
    Evolves r (r.modifyObject h f) :=
  ⟨rfl, rfl, Heap.grows_modify r.heap h hf⟩

theorem evolves_allocate {object : ScriptObject P} (hobject : object.Slotted) (r : Realm P) :
    Evolves r (r.allocate object).2 :=
  ⟨rfl, rfl, Heap.grows_allocate r.heap hobject⟩

theorem evolves_store (value : Value) (r : Realm P) : Evolves r (r.store value).2 :=
  ⟨rfl, rfl, (Heap.grows_store r.heap value).2⟩

theorem evolves_newObject (r : Realm P) : Evolves r r.newObject.2 :=
  evolves_allocate (Heap.slotted_ofForm (by simp)) r

theorem evolves_newFunction (name : String) (body : FunctionBody P) (r : Realm P) :
    Evolves r (r.newFunction name body).2 :=
  evolves_allocate (Heap.slotted_ofForm (by simp)) r

theorem evolves_newArray (items : List Value) (r : Realm P) : Evolves r (r.newArray items).2 := by
  obtain ⟨hslots, hgrows⟩ := Heap.grows_storeAll r.heap items
  refine ⟨rfl, rfl, hgrows.trans (Heap.grows_allocate _ (Heap.slotted_ofForm ?_))⟩
  intro items' hitems' v hv
  rw [← ObjectForm.array.inj hitems'] at hv
  exact hslots v hv

theorem evolves_instantiate (c : ClassNumber) (r : Realm P) : Evolves r (r.instantiate c).2 := by
  unfold instantiate
  split
  · exact evolves_newObject r
  · split
    · exact evolves_newArray [] r
    · exact evolves_allocate (Heap.slotted_ofForm (by simp)) r

/-- Native code that has run leaves its answer, its state and its world behind. -/
theorem run_onNative {α : Type} (h : Handle) (deserializing : Bool)
    (step : Surroundings P → NativeAction P α) (r : Realm P) :
    Id.run ((onNative h deserializing step).run.run r) =
      match r.native h with
      | .error error => (.error error, r)
      | .ok native =>
        let ran := Id.run ((step ⟨deserializing, r.heap, r.registry.tree⟩).run.run ⟨native, r.world⟩)
        (ran.1, { r.modifyObject h (fun object => object.setNative ran.2.native) with
          world := ran.2.world }) := by
  unfold onNative
  show Id.run ((liftM (r.native h) >>= _ : Action P α).run.run r) = _
  cases r.native h with
  | error error => rfl
  | ok native =>
    let ran := Id.run ((step ⟨deserializing, r.heap, r.registry.tree⟩).run.run ⟨native, r.world⟩)
    show Id.run ((liftM ran.1 : Action P α).run.run _) = (ran.1, _)
    cases ran.1 <;> rfl

theorem answer_onNative {α : Type} {r : Realm P} {h : Handle} {native : Native P.Layer}
    (hnative : r.native h = .ok native) (deserializing : Bool)
    (step : Surroundings P → NativeAction P α) :
    answer (onNative h deserializing step) r =
      answer (step ⟨deserializing, r.heap, r.registry.tree⟩) ⟨native, r.world⟩ := by
  unfold answer
  rw [run_onNative, hnative]

theorem evolves_onNative {α : Type} (h : Handle) (deserializing : Bool)
    (step : Surroundings P → NativeAction P α) (r : Realm P) :
    Evolves r (after (onNative h deserializing step) r) := by
  unfold onNative
  refine after_get (after_lift_bind Evolves.refl fun native => ?_)
  split
  next answer receiver _ =>
    refine after_bind (R := Evolves) Evolves.trans ?_ fun _ => after_lift Evolves.refl answer
    exact ⟨rfl, rfl, Heap.grows_modify r.heap h fun object hobject =>
      Heap.slotted_setNative hobject receiver.native⟩

theorem evolves_setField (h : Handle) (name : String) (value : Value) (r : Realm P) :
    Evolves r (after (setField h name value) r) :=
  (evolves_store value r).trans (evolves_modifyObject h
    (fun _ hobject => Heap.slotted_setField hobject name (Heap.grows_store r.heap value).1) _)

theorem evolves_setLength (h : Handle) (size : Nat) (value : Value) (r : Realm P) :
    Evolves r (after (setLength h size value) r) := by
  unfold setLength
  refine after_lift_bind Evolves.refl fun answer => ?_
  split
  · next length =>
    have hresize : Evolves r (r.modifyObject h fun object =>
        object.mapItems (resized · length.toNatClampNeg)) := by
      refine evolves_modifyObject h (fun object hobject => Heap.slotted_mapItems hobject ?_) r
      intro items hitems v hv
      simp only [resized, Array.toList_append, Array.toList_replicate, List.mem_append,
        List.mem_replicate] at hv
      rcases hv with hv | ⟨-, rfl⟩
      · rw [Array.take_eq_extract, Array.toList_extract] at hv
        exact hitems v (List.mem_of_mem_take hv)
      · rfl
    split
    · exact Evolves.refl r
    · dsimp only
      split
      · exact Evolves.refl r
      · exact hresize
  · exact Evolves.refl r

theorem evolves_putProperty (h : Handle) (name : String) (value : Value) (deserializing : Bool)
    (r : Realm P) : Evolves r (after (putProperty h name value deserializing) r) := by
  unfold putProperty
  refine after_get ?_
  cases hget : r.heap.get? h with
  | none => exact Evolves.refl r
  | some object =>
    dsimp only
    cases r.binding? object name with
    | some binding =>
      dsimp only
      split
      · exact Evolves.refl r
      · exact evolves_onNative h deserializing _ r
    | none =>
      dsimp only
      split
      · exact evolves_setLength h _ value r
      · exact evolves_setField h _ value r

theorem isInline_withItem {items : Array Value} (hitems : ∀ v ∈ items.toList, v.isInline = false)
    (index : Nat) {slot : Value} (hslot : slot.isInline = false) :
    ∀ v ∈ (withItem items index slot).toList, v.isInline = false := by
  intro v hv
  unfold withItem at hv
  split at hv
  · rw [Array.toList_setIfInBounds] at hv
    rcases List.mem_or_eq_of_mem_set hv with hv | rfl
    · exact hitems v hv
    · exact hslot
  · simp only [Array.toList_push, Array.toList_append, Array.toList_replicate, List.mem_append,
      List.mem_replicate, List.mem_singleton] at hv
    rcases hv with (hv | ⟨-, rfl⟩) | rfl
    · exact hitems v hv
    · rfl
    · exact hslot

theorem evolves_assignElement (h : Handle) (index : Nat) (value : Value) (r : Realm P) :
    Evolves r (after (assignElement h index value) r) := by
  unfold assignElement
  refine after_get ?_
  cases hget : r.heap.get? h with
  | none => exact Evolves.refl r
  | some object =>
    dsimp only
    cases r.elements? object with
    | some elements => exact evolves_onNative h false _ r
    | none =>
      have hslot : (r.store value).1.isInline = false := (Heap.grows_store r.heap value).1
      refine after_modifyGet (R := Evolves) Evolves.trans (evolves_store value r) (after_get ?_)
      cases (r.store value).2.heap.get? h with
      | none => exact Evolves.refl _
      | some object' =>
        dsimp only
        cases object'.items?.map Array.size with
        | none =>
          exact evolves_modifyObject h
            (fun _ hobject => Heap.slotted_setField hobject _ hslot) _
        | some size =>
          dsimp only
          split
          · exact Evolves.refl _
          · refine evolves_modifyObject h (fun _ hobject => Heap.slotted_mapItems hobject ?_) _
            exact fun items hitems => isInline_withItem hitems index hslot

theorem evolves_wrapNative (name : String) (native : Native P.Layer) (r : Realm P) :
    Evolves r (after (wrapNative name native) r) := by
  unfold wrapNative
  refine after_get ?_
  cases r.registry.lookup? name with
  | none => exact Evolves.refl r
  | some c =>
    dsimp only
    split
    · exact Evolves.refl r
    · exact evolves_allocate (Heap.slotted_ofForm (by simp)) r

theorem evolves_publishSingleton (name : String) (r : Realm P) :
    Evolves r (after (publishSingleton name) r) := by
  unfold publishSingleton
  refine after_get ?_
  cases r.registry.lookup? name with
  | none => exact Evolves.refl r
  | some c =>
    dsimp only
    cases r.singletons.lookup c with
    | some h => exact Evolves.refl r
    | none =>
      refine after_bind (R := Evolves) Evolves.trans (evolves_instantiate c r) fun h => ?_
      refine after_bind (R := Evolves) Evolves.trans ⟨rfl, rfl, Heap.Grows.refl⟩ fun _ => ?_
      refine after_bind (R := Evolves) Evolves.trans ?_ fun _ => after_pure Evolves.refl h
      exact evolves_putProperty _ _ _ _ _

/-! ## Runs -/

/-- An operation of a realm, as scripts and the embedding program have them at hand. Calls and
loads are made of these. -/
inductive Step : Realm P → Realm P → Prop
  | newObject (r : Realm P) : Step r r.newObject.2
  | newArray (items : List Value) (r : Realm P) : Step r (r.newArray items).2
  | newFunction (name : String) (body : FunctionBody P) (r : Realm P) :
      Step r (r.newFunction name body).2
  | store (value : Value) (r : Realm P) : Step r (r.store value).2
  | instantiate (c : ClassNumber) (r : Realm P) : Step r (r.instantiate c).2
  | wrapNative (name : String) (native : Native P.Layer) (r : Realm P) :
      Step r (after (wrapNative name native) r)
  | publishSingleton (name : String) (r : Realm P) : Step r (after (publishSingleton name) r)
  | putProperty (h : Handle) (name : String) (value : Value) (deserializing : Bool) (r : Realm P) :
      Step r (after (putProperty h name value deserializing) r)
  | assignElement (h : Handle) (index : Nat) (value : Value) (r : Realm P) :
      Step r (after (assignElement h index value) r)
  | onNative {α : Type} (h : Handle) (step : Surroundings P → NativeAction P α) (r : Realm P) :
      Step r (after (onNative h false step) r)
  | protect (h : Handle) (r : Realm P) : Step r (r.protect h)
  | unprotect (h : Handle) (r : Realm P) : Step r (r.unprotect h).2
  | collect (r : Realm P) : Step r r.collect.2
  | report (error : ScriptError) (r : Realm P) : Step r (r.report error)
  | finishFrame (r : Realm P) : Step r r.finishFrame.2

theorem evolves_collect (r : Realm P) : Evolves r r.collect.2 :=
  ⟨rfl, rfl, r.collector.grows_collect r.world⟩

/-- Whatever an operation does, the classes stay as they are and the heap stays in order. -/
theorem Step.evolves {r r' : Realm P} (h : Step r r') : Evolves r r' := by
  cases h with
  | newObject => exact evolves_newObject r
  | newArray items => exact evolves_newArray items r
  | newFunction name body => exact evolves_newFunction name body r
  | store value => exact evolves_store value r
  | instantiate c => exact evolves_instantiate c r
  | wrapNative name native => exact evolves_wrapNative name native r
  | publishSingleton name => exact evolves_publishSingleton name r
  | putProperty h name value deserializing => exact evolves_putProperty h name value deserializing r
  | assignElement h index value => exact evolves_assignElement h index value r
  | onNative h step => exact evolves_onNative h false step r
  | protect h => exact ⟨rfl, rfl, Heap.Grows.refl⟩
  | unprotect h => exact ⟨rfl, rfl, Heap.Grows.refl⟩
  | collect => exact evolves_collect r
  | report error => exact ⟨rfl, rfl, Heap.Grows.refl⟩
  | finishFrame =>
    have hcleared : Evolves r { r with pending := [] } := ⟨rfl, rfl, Heap.Grows.refl⟩
    show Evolves r (if r.collector.isDue then ({ r with pending := [] } : Realm P).collect.2
      else { r with pending := [] })
    split
    · exact hcleared.trans (evolves_collect _)
    · exact hcleared

/-- A realm changes in order, and what is said of it goes on to hold, as long as 32 bits tell the slots
apart. -/
structure Preserves (I : Realm P → Prop) (r r' : Realm P) : Prop where
  evolves : Evolves r r'
  keeps : r.heap.WellFormed → r.heap.Slotted → r'.heap.capacity ≤ UInt32.size → I r → I r'

instance (I : Realm P → Prop) : Course (Preserves I) where
  refl r := ⟨Evolves.refl r, fun _ _ _ h => h⟩
  trans h h' := by
    refine ⟨h.evolves.trans h'.evolves, fun hwf hslotted hbound hr => ?_⟩
    have hmiddle := Nat.le_trans h'.evolves.heap.capacity hbound
    obtain ⟨hwf', hslotted'⟩ := h.evolves.heap.sound hwf hslotted hmiddle
    exact h'.keeps hwf' hslotted' hbound (h.keeps hwf hslotted hmiddle hr)

/-- A run of operations. -/
abbrev Steps : Realm P → Realm P → Prop := Relation.ReflTransGen Step

theorem Steps.evolves {r r' : Realm P} (h : Steps r r') : Evolves r r' := by
  induction h with
  | refl => exact Evolves.refl r
  | tail _ hstep ih => exact ih.trans hstep.evolves

/-- A realm that can come about: it starts with a registry that has been filled and has never made
more slots than 32 bits tell apart. -/
def Reachable (r : Realm P) : Prop :=
  ∃ registry options world, Registry.Declared registry ∧
    Steps (ofRegistry registry options world) r ∧ r.heap.capacity ≤ UInt32.size

/-- What holds of all realms that can come about. -/
structure Sound (r : Realm P) : Prop where
  /-- The classes are in order. -/
  registry : r.registry.Sound
  /-- The heap is well formed. -/
  wellFormed : r.heap.WellFormed
  /-- Inside of the heap arrays are referred to by handle. -/
  slotted : r.heap.Slotted

theorem sound_ofRegistry (registry : Registry P) (options : Options) (world : P.World) :
    (ofRegistry registry options world).heap.WellFormed ∧
      (ofRegistry registry options world).heap.Slotted := by
  have hempty : (Heap.empty : Heap P).Slotted := by
    intro h object hget
    simp [Heap.get?, Heap.slot?, Heap.empty] at hget
  have hstart : (Heap.empty : Heap P).Grows (ofRegistry registry options world).heap :=
    Heap.grows_allocate _ (Heap.slotted_ofForm (by simp))
  have hcapacity : (ofRegistry registry options world).heap.capacity = 1 := rfl
  exact hstart.sound Heap.wellFormed_empty hempty (by rw [hcapacity]; decide)

/-- In a new realm there is the global object and nothing else. -/
theorem eq_plain_of_get?_ofRegistry {registry : Registry P} {options : Options} {world : P.World}
    {h : Handle} {object : ScriptObject P}
    (hget : (ofRegistry registry options world).heap.get? h = some object) :
    object = .ofForm .plain := by
  have hbound : ((Heap.empty : Heap P).allocate (.ofForm .plain)).2.capacity ≤ UInt32.size := by
    rw [show ((Heap.empty : Heap P).allocate (.ofForm .plain)).2.capacity = 1 from rfl]
    decide
  have hheap := (Heap.wellFormed_empty (P := P)).get?_allocate
    (Heap.hasRoom_of_capacity_allocate Heap.wellFormed_empty hbound) (.ofForm .plain) h
  rw [show (ofRegistry registry options world).heap.get? h = _ from hheap] at hget
  split at hget
  · exact (Option.some.inj hget).symm
  · simp [Heap.get?, Heap.slot?, Heap.empty] at hget

theorem Reachable.declared {r : Realm P} (hr : r.Reachable) : r.registry.Declared := by
  obtain ⟨registry, options, world, hdeclared, hsteps, -⟩ := hr
  have hregistry : r.registry = registry := hsteps.evolves.registry
  rwa [hregistry]

theorem Reachable.sound {r : Realm P} (hr : r.Reachable) : r.Sound := by
  obtain ⟨registry, options, world, hdeclared, hsteps, hbound⟩ := hr
  have hevolves := hsteps.evolves
  obtain ⟨hwf, hslotted⟩ := sound_ofRegistry registry options world
  obtain ⟨hwf', hslotted'⟩ := hevolves.heap.sound hwf hslotted hbound
  have hregistry : r.registry = registry := hevolves.registry
  exact ⟨hregistry ▸ hdeclared.sound, hwf', hslotted'⟩

theorem Reachable.steps {r r' : Realm P} (hr : r.Reachable) (h : Steps r r')
    (hbound : r'.heap.capacity ≤ UInt32.size) : r'.Reachable := by
  obtain ⟨registry, options, world, hdeclared, hsteps, -⟩ := hr
  exact ⟨registry, options, world, hdeclared, hsteps.trans h, hbound⟩

end Realm

end ScriptBridge
