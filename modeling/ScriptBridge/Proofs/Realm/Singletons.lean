import ScriptBridge.Proofs.Snapshot.Awakening
import ScriptBridge.Proofs.TypedVector.Declared

/-!
# Singletons

What scripts do, loads and copies included, makes instances of a singleton class in one place only:
where the singleton is installed, and that happens once. There is one exception. A part of a vector is
made as an instance of the class of the vector, whatever that is, so a singleton class that extends the
class of typed vectors gets another instance with each part that is taken of its installed one.

Main statements: `singletons_sole` and `twins_ofTwins`.
-/

namespace ScriptBridge

variable {P : Platform}

namespace Realm

/-! ## The Live Instances -/

/-- Live instances are of registered classes, and the only live instance of a singleton class is the
installed one. -/
def Sole (r : Realm P) : Prop :=
  ∀ h object c, r.heap.get? h = some object → object.class? = some c →
    ∃ d, r.registry.get? c = some d ∧
      (d.outline.singleton = true → r.singletons.lookup c = some h)

/-- No change that scripts bring about makes a second instance of a singleton class. -/
abbrev KeepsSole : Realm P → Realm P → Prop := Preserves fun r => r.registry.Declared ∧ r.Sole

variable {r r' : Realm P}

theorem keepsSole_of_alters (hevolves : Evolves r r')
    (halters : Alters (fun _ => True) r.registry.Common r r') : KeepsSole r r' := by
  refine ⟨hevolves, fun hwf _ hbound ⟨hdeclared, hr⟩ => ⟨hevolves.registry ▸ hdeclared, ?_⟩⟩
  intro h object' c hget hclass
  rw [hevolves.registry, halters.singletons]
  rcases halters.revisions.origin hwf hbound hget with ⟨object, hbefore, hon⟩ | ⟨object, hmade, hon⟩
  · rw [ScriptObject.class?_eq_of_nature_eq hon.nature] at hclass
    exact hr h object c hbefore hclass
  -- what is new is of no singleton class
  · rw [ScriptObject.class?_eq_of_nature_eq hon.nature] at hclass
    obtain ⟨d, hd, hsingle⟩ := hmade c hclass
    exact ⟨d, hd, fun hsole => absurd (hsole.symm.trans hsingle) Bool.true_eq_false.mp⟩

theorem keepsSole_of_heap_eq (hevolves : Evolves r r') (hheap : r'.heap = r.heap)
    (hsingletons : r'.singletons = r.singletons) : KeepsSole r r' := by
  refine ⟨hevolves, fun _ _ _ ⟨hdeclared, hr⟩ => ⟨hevolves.registry ▸ hdeclared, ?_⟩⟩
  unfold Sole
  rw [hheap, hevolves.registry, hsingletons]
  exact hr

/-- Whatever items a value brings along can be stored without making an instance. -/
theorem stores_common (r : Realm P) : Heap.Stores (fun _ => True) r.registry.Common :=
  ⟨fun _ => trivial, fun _ => Registry.common_of_class? rfl⟩

theorem keepsSole_putProperty (h : Handle) (name : String) (value : Value) (deserializing : Bool)
    (r : Realm P) : KeepsSole r (after (putProperty h name value deserializing) r) :=
  keepsSole_of_alters (evolves_putProperty h name value deserializing r)
    (alters_putProperty trivial name (Or.inr (stores_common r)) deserializing r)

theorem keepsSole_assignElement (h : Handle) (index : Nat) (value : Value) (r : Realm P) :
    KeepsSole r (after (assignElement h index value) r) :=
  keepsSole_of_alters (evolves_assignElement h index value r)
    (alters_assignElement trivial index (Or.inr (stores_common r)) r)

theorem keepsSole_onNative {α : Type} (h : Handle) (step : Surroundings P → NativeAction P α)
    (r : Realm P) : KeepsSole r (after (onNative h false step) r) :=
  keepsSole_of_alters (evolves_onNative h false step r)
    (alters_onNative trivial false step r)

theorem keepsSole_collect (r : Realm P) : KeepsSole r r.collect.2 :=
  ⟨evolves_collect r, fun hwf _ _ ⟨hdeclared, hr⟩ =>
    ⟨hdeclared, fun h object c hget => hr h object c (get?_of_collect hwf hget)⟩⟩

theorem keepsSole_finishFrame (r : Realm P) : KeepsSole r r.finishFrame.2 := by
  have hcleared : KeepsSole r { r with pending := [] } :=
    keepsSole_of_heap_eq ⟨rfl, rfl, Heap.Grows.refl⟩ rfl rfl
  rcases finishFrame_cases r with hsame | hcollected
  · rw [hsame]
    exact hcleared
  · rw [hcollected]
    exact Course.trans hcleared (keepsSole_collect _)

/-! ## Instances -/

theorem keepsSole_instantiate {c : ClassNumber}
    (hcommon : r.registry.Common (.ofForm (r.freshForm c))) : KeepsSole r (r.instantiate c).2 :=
  keepsSole_of_alters (evolves_instantiate c r) (alters_instantiate hcommon)

/-- A singleton class gets its instance when no other one is live. -/
theorem keepsSole_installed {name : String} {c : ClassNumber}
    (hclass : r.registry.lookup? name = some c) (hnone : r.singletons.lookup c = none) :
    KeepsSole r (r.installed c) := by
  have hevolves : Evolves r (r.installed c) :=
    (evolves_instantiate c r).trans ⟨rfl, rfl, Heap.Grows.refl⟩
  refine ⟨hevolves, fun hwf _ hbound ⟨hdeclared, hr⟩ => ⟨hevolves.registry ▸ hdeclared, ?_⟩⟩
  intro h object k hget hk
  rw [hevolves.registry]
  have hheap : (r.installed c).heap = (r.heap.allocate (.ofForm (r.freshForm c))).2 :=
    congrArg (fun made => made.2.heap) (instantiate_eq c r)
  have hhandle : (r.instantiate c).1 = (r.heap.allocate (.ofForm (r.freshForm c))).1 :=
    congrArg Prod.fst (instantiate_eq c r)
  have hlookup : (r.installed c).singletons.lookup k =
      if k = c then some (r.heap.allocate (.ofForm (r.freshForm c))).1
      else r.singletons.lookup k := by
    show List.lookup k ((c, (r.instantiate c).1) :: r.singletons) = _
    rw [hhandle, List.lookup_cons]
    by_cases hkc : k = c
    · simp [hkc]
    · simp [hkc, beq_false_of_ne hkc]
  rw [hheap] at hbound hget
  rw [hwf.get?_allocate (Heap.hasRoom_of_capacity_allocate hwf hbound)] at hget
  rw [hlookup]
  split at hget
  · next hh =>
    obtain rfl := Option.some.inj hget
    obtain rfl := class?_freshForm hk
    obtain ⟨d, hd, -⟩ := Registry.exists_of_lookup? hclass
    exact ⟨d, hd, fun _ => by rw [if_pos rfl, hh]⟩
  -- an instance of the class itself would have been installed
  · obtain ⟨d, hd, hsole⟩ := hr h object k hget hk
    refine ⟨d, hd, fun hsingle => ?_⟩
    have hinstalled := hsole hsingle
    by_cases hkc : k = c
    · rw [hkc, hnone] at hinstalled
      cases hinstalled
    · rw [if_neg hkc, hinstalled]

theorem keepsSole_publishSingleton (name : String) (r : Realm P) :
    KeepsSole r (after (publishSingleton name) r) := by
  rcases publishSingleton_cases name r with hsame | ⟨c, hclass, hnone, hdone⟩
  · rw [hsame]
    exact Course.refl r
  · rw [hdone]
    exact Course.trans (keepsSole_installed hclass hnone)
      (keepsSole_putProperty r.globals name (.object (r.instantiate c).1) false _)

theorem keepsSole_construct (name : String) (r : Realm P) :
    KeepsSole r (after (construct name) r) := by
  unfold construct
  refine after_get ?_
  cases hclass : r.registry.lookup? name with
  | none => exact Course.refl r
  | some c =>
    dsimp only
    split
    · exact Course.refl r
    · next hsingle => exact keepsSole_instantiate (common_freshForm hclass hsingle)

/-- An object is wrapped around native state as an instance of a class that is no singleton class. -/
theorem keepsSole_wrapNative {name : String} (native : Native P.Layer)
    (hsingle : ∀ d, r.registry.registered? name = some d → d.outline.singleton = false) :
    KeepsSole r (after (wrapNative name native) r) := by
  refine keepsSole_of_alters (evolves_wrapNative name native r)
    (alters_wrapNative fun c d hclass hget _ k hk => ?_)
  obtain rfl := Option.some.inj hk
  exact ⟨d, hget, hsingle d (by rw [Registry.registered?, hclass, Option.bind_some, hget])⟩

instance : RunsParts (KeepsSole (P := P)) where
  onPart _ h _ r := keepsSole_onNative h _ r

/-- The class that is named by an instance of no singleton class is no singleton class. -/
theorem Sole.singleton_of_className? (hdeclared : r.registry.Declared) (hr : r.Sole) {h : Handle}
    {native : Native P.Layer} (hnative : r.native h = .ok native)
    (hsingle : r.isSingletonInstance h = false) :
    ∃ name d, r.className? h = some name ∧ r.registry.registered? name = some d ∧
      d.outline.singleton = false := by
  obtain ⟨c, fields, hget⟩ := instance_of_native hnative
  obtain ⟨d, hd, -⟩ := hr h _ c hget rfl
  have hclass : r.classOf? h = some c := by rw [classOf?, hget, Option.bind_some]
  refine ⟨d.outline.name, d, ?_, ?_, ?_⟩
  · rw [className?, hclass, Option.bind_some, Registry.name?, hd, Option.map_some]
  · rw [Registry.registered?, hdeclared.lookup?_outline hd, Option.bind_some, hd]
  · rwa [isSingletonInstance, hclass, Option.bind_some, hd, Option.any_some] at hsingle

/-- A part is taken of a vector that is no instance of a singleton class. -/
theorem keepsSole_runSlice {this : Handle} (hsingle : r.isSingletonInstance this = false)
    (call : Invocation) : KeepsSole r (after (VectorMethod.runSlice this call) r) := by
  unfold VectorMethod.runSlice
  cases VectorMethod.twoNumbers? call 0 with
  | none => exact Course.refl r
  | some range =>
    refine after_get (after_lift_bind_of_ok Course.refl fun v hv => ?_)
    obtain ⟨native, hnative, -⟩ := Registry.except_bind_eq_ok hv
    refine after_bind (R := KeepsSole) Course.trans ?_ fun _ => Course.refl _
    refine ⟨evolves_wrapNative _ _ r, fun hwf hslotted hbound hr => ?_⟩
    obtain ⟨name, d, hname, hd, hother⟩ :=
      hr.2.singleton_of_className? hr.1 hnative hsingle
    rw [hname, Option.getD_some] at hbound ⊢
    refine (keepsSole_wrapNative _ fun d' hd' => ?_).keeps hwf hslotted hbound hr
    rw [← Option.some.inj (hd.symm.trans hd'), hother]

/-- The functions of typed vectors, but no part is taken of an instance of a singleton class. -/
theorem keepsSole_run {method : VectorMethod} {this : Option Handle}
    (hslice : method = .slice → ∀ h, this = some h → r.isSingletonInstance h = false)
    (call : Invocation) : KeepsSole r (after (method.run this call) r) := by
  by_cases hmethod : method = .slice
  · subst hmethod
    cases this with
    | none => exact Course.refl r
    | some this =>
      exact after_bind (R := KeepsSole) Course.trans (keepsSole_runSlice (hslice rfl this rfl) call)
        fun _ => Course.refl _
  · exact VectorMethod.acts_run_of_ne_slice (R := KeepsSole) hmethod this call r

end Realm

/-! ## Loads -/

open Realm (after KeepsSole keepsSole_of_alters keepsSole_of_heap_eq keepsSole_instantiate)

theorem Loading.Move.keepsSole {a b : Realm P × List Handle} (h : Loading.Move a b) :
    KeepsSole a.1 b.1 := by
  cases h with
  | make hcommon =>
    exact Course.trans (keepsSole_instantiate hcommon)
      (keepsSole_of_heap_eq ⟨rfl, rfl, Heap.Grows.refl⟩ rfl rfl)
  | function f hstep =>
    exact keepsSole_of_alters hstep.evolves
      (Realm.alters_allocate (Registry.common_of_class? rfl) _)
  | write _ hstep halters =>
    exact keepsSole_of_alters hstep.evolves
      (halters.imp (fun _ _ => trivial) fun _ hfalse => hfalse.elim)

theorem Loading.Moves.keepsSole {a b : Realm P × List Handle} (h : Loading.Moves a b) :
    KeepsSole a.1 b.1 := by
  induction h with
  | refl => exact Course.refl _
  | tail _ hmove ih => exact Course.trans ih hmove.keepsSole

namespace Host

variable {host : Host P}

/-- Whatever the snapshot is, a load makes no second instance of a singleton class, if its calls that
awaken instances do not. -/
theorem keepsSole_load {s : Snapshot} {copying : Bool} {r : Realm P}
    (hcalls : ∀ call ∈ host.awakeCalls s copying r,
      KeepsSole call.2 (after (host.callMethod call.1 Loading.awakeName []) call.2)) :
    KeepsSole r (after (host.load s copying) r) := by
  rw [after_load]
  have hbuilt : KeepsSole r (r.building s copying).realm := Loading.Moves.keepsSole moves_building
  have hending : KeepsSole (r.building s copying).realm (host.ending s copying r).realm :=
    ending_of_calls hcalls fun _ _ => keepsSole_of_heap_eq ⟨rfl, rfl, Heap.Grows.refl⟩ rfl rfl
  refine Course.trans (Course.trans hbuilt hending) ?_
  exact keepsSole_of_heap_eq (Realm.steps_unprotectAll _ _).evolves (Realm.heap_unprotectAll _ _)
    (Realm.singletons_unprotectAll _ _)

theorem keepsSole_clone {value : Value} {mask : List String} {r : Realm P}
    (hcalls : ∀ s, r.save value true (some mask) = .ok s → ∀ call ∈ host.awakeCalls s true r,
      KeepsSole call.2 (after (host.callMethod call.1 Loading.awakeName []) call.2)) :
    KeepsSole r (after (host.clone value mask) r) :=
  Realm.after_get (Realm.after_lift_bind_of_ok Course.refl fun s hs => keepsSole_load (hcalls s hs))

end Host

/-! ## Runs of Scripts -/

namespace Realm

/-- An operation of a realm as scripts have it at hand, or one of the embedding program that makes no
instance of a singleton class. No part is taken of a vector that is an instance of a singleton
class. -/
inductive ScriptTurn : Realm P → Realm P → Prop
  | newObject (r : Realm P) : ScriptTurn r r.newObject.2
  | newArray (items : List Value) (r : Realm P) : ScriptTurn r (r.newArray items).2
  | newFunction (name : String) (body : FunctionBody P) (r : Realm P) :
      ScriptTurn r (r.newFunction name body).2
  | store (value : Value) (r : Realm P) : ScriptTurn r (r.store value).2
  | construct (name : String) (r : Realm P) : ScriptTurn r (after (construct name) r)
  | publishSingleton (name : String) (r : Realm P) : ScriptTurn r (after (publishSingleton name) r)
  | putProperty (h : Handle) (name : String) (value : Value) (deserializing : Bool) (r : Realm P) :
      ScriptTurn r (after (putProperty h name value deserializing) r)
  | assignElement (h : Handle) (index : Nat) (value : Value) (r : Realm P) :
      ScriptTurn r (after (assignElement h index value) r)
  | callVector (method : VectorMethod) (this : Option Handle) (call : Invocation) (r : Realm P) :
      (method = .slice → ∀ h, this = some h → r.isSingletonInstance h = false) →
      ScriptTurn r (after (method.run this call) r)
  | wrapNative (name : String) (native : Native P.Layer) (r : Realm P) :
      (∀ d, r.registry.registered? name = some d → d.outline.singleton = false) →
      ScriptTurn r (after (wrapNative name native) r)
  | onNative {α : Type} (h : Handle) (step : Surroundings P → NativeAction P α) (r : Realm P) :
      ScriptTurn r (after (onNative h false step) r)
  | protect (h : Handle) (r : Realm P) : ScriptTurn r (r.protect h)
  | unprotect (h : Handle) (r : Realm P) : ScriptTurn r (r.unprotect h).2
  | collect (r : Realm P) : ScriptTurn r r.collect.2
  | report (error : ScriptError) (r : Realm P) : ScriptTurn r (r.report error)
  | finishFrame (r : Realm P) : ScriptTurn r r.finishFrame.2
  | world (w : P.World) (r : Realm P) : ScriptTurn r { r with world := w }

/-- None of these operations makes a second instance of a singleton class. -/
theorem ScriptTurn.keepsSole {r r' : Realm P} (h : ScriptTurn r r') : KeepsSole r r' := by
  cases h with
  | newObject =>
    exact keepsSole_of_alters (evolves_newObject r)
      (alters_allocate (Registry.common_of_class? rfl) r)
  | newArray items =>
    exact keepsSole_of_alters (evolves_newArray items r) (alters_newArray items (stores_common r) r)
  | newFunction name body =>
    exact keepsSole_of_alters (evolves_newFunction name body r)
      (alters_allocate (Registry.common_of_class? rfl) r)
  | store value =>
    exact keepsSole_of_alters (evolves_store value r) (alters_store (Or.inr (stores_common r)) r)
  | construct name => exact keepsSole_construct name r
  | publishSingleton name => exact keepsSole_publishSingleton name r
  | putProperty h name value deserializing => exact keepsSole_putProperty h name value deserializing r
  | assignElement h index value => exact keepsSole_assignElement h index value r
  | callVector method this call _ hslice => exact keepsSole_run hslice call
  | wrapNative name native _ hsingle => exact keepsSole_wrapNative native hsingle
  | onNative h step => exact keepsSole_onNative h step r
  | protect h => exact keepsSole_of_heap_eq ⟨rfl, rfl, Heap.Grows.refl⟩ rfl rfl
  | unprotect h => exact keepsSole_of_heap_eq ⟨rfl, rfl, Heap.Grows.refl⟩ rfl rfl
  | collect => exact keepsSole_collect r
  | report error => exact keepsSole_of_heap_eq ⟨rfl, rfl, Heap.Grows.refl⟩ rfl rfl
  | finishFrame => exact keepsSole_finishFrame r
  | world w => exact keepsSole_of_heap_eq ⟨rfl, rfl, Heap.Grows.refl⟩ rfl rfl

/-- A run of such operations, loads and copies. The calls that awaken instances are such runs in
turn. -/
inductive ScriptTurns : Realm P → Realm P → Prop
  | refl (r : Realm P) : ScriptTurns r r
  | turn {r r' r'' : Realm P} : ScriptTurns r r' → ScriptTurn r' r'' → ScriptTurns r r''
  | load {r r' : Realm P} (host : Host P) (s : Snapshot) (copying : Bool) : ScriptTurns r r' →
      (∀ call ∈ host.awakeCalls s copying r',
        ScriptTurns call.2 (after (host.callMethod call.1 Loading.awakeName []) call.2)) →
      ScriptTurns r (after (host.load s copying) r')
  | clone {r r' : Realm P} (host : Host P) (value : Value) (mask : List String) : ScriptTurns r r' →
      (∀ s, r'.save value true (some mask) = .ok s → ∀ call ∈ host.awakeCalls s true r',
        ScriptTurns call.2 (after (host.callMethod call.1 Loading.awakeName []) call.2)) →
      ScriptTurns r (after (host.clone value mask) r')

theorem ScriptTurns.keepsSole {r r' : Realm P} (h : ScriptTurns r r') : KeepsSole r r' := by
  induction h with
  | refl r => exact Course.refl r
  | turn _ hturn ih => exact Course.trans ih hturn.keepsSole
  | load host s copying _ _ ih ihcalls => exact Course.trans ih (Host.keepsSole_load ihcalls)
  | clone host value mask _ _ ih ihcalls => exact Course.trans ih (Host.keepsSole_clone ihcalls)

/-- In a new realm there are no instances. -/
theorem sole_ofRegistry (registry : Registry P) (options : Options) (world : P.World) :
    (ofRegistry registry options world).Sole := by
  intro h object c hget hclass
  obtain rfl := eq_plain_of_get?_ofRegistry hget
  cases hclass

/-- The class of an object that is no instance is built in, so it is no singleton class. -/
theorem Sole.lookup_of_classOf? {r : Realm P} (hr : r.Sole) (hsound : r.registry.Sound) {c : ClassNumber}
    {d : RegisteredClass P} (hd : r.registry.get? c = some d) (hsingle : d.outline.singleton = true)
    {h : Handle} (hclass : r.classOf? h = some c) : r.singletons.lookup c = some h := by
  obtain ⟨⟨form, fields⟩, hget, hform⟩ := Option.bind_eq_some_iff.1 hclass
  have hbuiltin : ∀ k e, r.registry.get? k = some e → e.outline.singleton = false → k ≠ c := by
    rintro k e hk hother rfl
    rw [← Option.some.inj (hd.symm.trans hk), hsingle] at hother
    cases hother
  cases form with
  | plain =>
    obtain ⟨e, he, houtline⟩ := hsound.object
    exact absurd (Option.some.inj hform) (hbuiltin _ e he (by rw [houtline]))
  | array items =>
    obtain ⟨e, he, houtline⟩ := hsound.array
    exact absurd (Option.some.inj hform) (hbuiltin _ e he (by rw [houtline]))
  | instanceOf k native =>
    obtain rfl := Option.some.inj hform
    obtain ⟨e, he, hsole⟩ := hr h _ k hget rfl
    exact hsole (Option.some.inj (hd.symm.trans he) ▸ hsingle)
  | function f => cases hform

/-- **Singletons are sole.** In every realm that scripts bring about, by operations, loads and copies,
a singleton class has at most one live instance, and that is the installed one, as long as no part is
taken of it as of a vector. -/
theorem singletons_sole {registry : Registry P} (hdeclared : registry.Declared) {options : Options}
    {world : P.World} {r : Realm P} (h : ScriptTurns (ofRegistry registry options world) r)
    (hbound : r.heap.capacity ≤ UInt32.size) {c : ClassNumber} {d : RegisteredClass P}
    (hd : r.registry.get? c = some d) (hsingle : d.outline.singleton = true) :
    (∀ k, r.classOf? k = some c → r.singletons.lookup c = some k) ∧
    ∀ k k', r.classOf? k = some c → r.classOf? k' = some c → k = k' := by
  have hkeeps := h.keepsSole
  obtain ⟨hwf, hslotted⟩ := sound_ofRegistry registry options world
  obtain ⟨hdeclared', hsole⟩ := hkeeps.keeps hwf hslotted hbound
    ⟨hdeclared, sole_ofRegistry registry options world⟩
  have hinstalled : ∀ k, r.classOf? k = some c → r.singletons.lookup c = some k :=
    fun k hk => hsole.lookup_of_classOf? hdeclared'.sound hd hsingle hk
  refine ⟨hinstalled, fun k k' hk hk' => ?_⟩
  exact Option.some.inj ((hinstalled k hk).symm.trans (hinstalled k' hk'))

end Realm

/-! ## A Singleton that is a Vector -/

namespace Registry

/-- The standard classes, and a singleton class that extends the class of typed vectors. -/
def declareRack : Except RegistrationError (Registry Scenario.platform) := do
  let r ← standard
  r.register (.declareClass "Rack" (some TypedVector.className) true)

/-- The registry with these classes. -/
def withRack : Registry Scenario.platform := declareRack.toOption.getD .builtins

theorem declared_withRack : withRack.Declared := by
  unfold withRack
  cases h : declareRack with
  | error error => exact .builtins
  | ok r =>
    obtain ⟨r₁, h₁, h₂⟩ := except_bind_eq_ok h
    exact .register (declared_standard h₁) h₂

end Registry

namespace Realm

/-- A realm in which the singleton has been installed. -/
def ofRack : Realm Scenario.platform :=
  after (publishSingleton "Rack") (ofRegistry .withRack .standard Scenario.Stage.empty)

/-- A script fails to construct the singleton, has it installed again, and takes a part of another
vector. -/
def ofBench : Realm Scenario.platform :=
  let r := after (construct "Rack") ofRack
  let r := after (publishSingleton "Rack") r
  let r := after (construct TypedVector.className) r
  after (VectorMethod.run .slice (some ⟨2, 0⟩) (.ofArguments [.int 0])) r

/-- Then the singleton is copied. -/
def ofWorkshop : Realm Scenario.platform :=
  after ((Scenario.hostWithin false 0).clone (.object ⟨1, 0⟩) []) ofBench

theorem scriptTurns_ofWorkshop :
    ScriptTurns (ofRegistry .withRack .standard Scenario.Stage.empty) ofWorkshop := by
  have hrack := ScriptTurns.turn (.refl _)
    (.publishSingleton "Rack" (ofRegistry .withRack .standard Scenario.Stage.empty))
  have hvector := ScriptTurns.turn (.turn (.turn hrack (.construct "Rack" _))
    (.publishSingleton "Rack" _)) (.construct TypedVector.className _)
  have hbench : ScriptTurns (ofRegistry .withRack .standard Scenario.Stage.empty) ofBench :=
    .turn hvector (.callVector .slice (some ⟨2, 0⟩) (.ofArguments [.int 0]) _ fun _ h hh => by
      obtain rfl := Option.some.inj hh
      cbv)
  -- no instance of these classes has a function that awakens it
  have hquiet : ((ofBench.save (.object ⟨1, 0⟩) true (some [])).map fun s =>
      ((Scenario.hostWithin false 0).awakeCalls s true ofBench).length) = .ok 0 := by cbv
  refine .clone (Scenario.hostWithin false 0) (.object ⟨1, 0⟩) [] hbench fun s hs call hcall => ?_
  rw [hs] at hquiet
  rw [List.eq_nil_of_length_eq_zero (Except.ok.inj hquiet)] at hcall
  cases hcall

/-- After all of this the singleton class has one live instance among three vectors. -/
theorem singletons_sole_ofWorkshop :
    Registry.withRack.Declared ∧
    ScriptTurns (ofRegistry .withRack .standard Scenario.Stage.empty) ofWorkshop ∧
    ofWorkshop.heap.capacity ≤ UInt32.size ∧
    (ofWorkshop.registry.get? ⟨3⟩).map (fun d => (d.outline.name, d.outline.singleton)) =
      some ("Rack", true) ∧
    ofWorkshop.heap.handles.map ofWorkshop.classOf? =
      [some .object, some ⟨3⟩, some ⟨2⟩, some ⟨2⟩] ∧
    (∀ k, ofWorkshop.classOf? k = some ⟨3⟩ → ofWorkshop.singletons.lookup ⟨3⟩ = some k) ∧
    ∀ k k', ofWorkshop.classOf? k = some ⟨3⟩ → ofWorkshop.classOf? k' = some ⟨3⟩ → k = k' := by
  have hfacts : (ofWorkshop.heap.capacity,
      (ofWorkshop.registry.get? ⟨3⟩).map (fun d => (d.outline.name, d.outline.singleton)),
      ofWorkshop.heap.handles.map ofWorkshop.classOf?) =
        (4, some ("Rack", true), [some .object, some ⟨3⟩, some ⟨2⟩, some ⟨2⟩]) := by cbv
  simp only [Prod.mk.injEq] at hfacts
  obtain ⟨hcapacity, hclass, hlive⟩ := hfacts
  have hbound : ofWorkshop.heap.capacity ≤ UInt32.size := by rw [hcapacity]; decide
  obtain ⟨d, hd, houtline⟩ := Option.map_eq_some_iff.1 hclass
  exact ⟨Registry.declared_withRack, scriptTurns_ofWorkshop, hbound, hclass, hlive,
    singletons_sole Registry.declared_withRack scriptTurns_ofWorkshop hbound hd
      (congrArg Prod.snd houtline)⟩

/-- A part is taken of the installed singleton. -/
def ofTwins : Realm Scenario.platform :=
  after (VectorMethod.run .slice (some ⟨1, 0⟩) (.ofArguments [.int 0])) ofRack

/-- The part is a second live instance of the singleton class. -/
theorem twins_ofTwins :
    ofTwins.Reachable ∧
    (ofTwins.registry.get? ⟨3⟩).map (fun d => d.outline.singleton) = some true ∧
    ofTwins.singletons.lookup ⟨3⟩ = some ⟨1, 0⟩ ∧
    ofTwins.classOf? ⟨1, 0⟩ = some ⟨3⟩ ∧ ofTwins.classOf? ⟨2, 0⟩ = some ⟨3⟩ := by
  have hfacts : (ofTwins.heap.capacity,
      (ofTwins.registry.get? ⟨3⟩).map (fun d => d.outline.singleton),
      ofTwins.singletons.lookup ⟨3⟩, ofTwins.classOf? ⟨1, 0⟩, ofTwins.classOf? ⟨2, 0⟩) =
        (3, some true, some ⟨1, 0⟩, some ⟨3⟩, some ⟨3⟩) := by cbv
  simp only [Prod.mk.injEq] at hfacts
  obtain ⟨hcapacity, hsingle, hinstalled, hfirst, hsecond⟩ := hfacts
  have hsteps : Steps (ofRegistry .withRack .standard Scenario.Stage.empty) ofTwins :=
    .trans (.single (.publishSingleton "Rack" _))
      (VectorMethod.acts_run .slice (some ⟨1, 0⟩) (.ofArguments [.int 0]) _)
  exact ⟨⟨.withRack, .standard, Scenario.Stage.empty, Registry.declared_withRack, hsteps,
    by rw [hcapacity]; decide⟩, hsingle, hinstalled, hfirst, hsecond⟩

end Realm

end ScriptBridge
