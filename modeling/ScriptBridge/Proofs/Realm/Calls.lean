import ScriptBridge.Proofs.Realm.Protection
import ScriptBridge.Snapshot.Loading
import Mathlib

/-!
# Calls

Calls are made of the operations of a realm, provided that the callbacks of the host and its
evaluator are. So they lead from realms that can come about to others of this kind, and what holds of
all of these holds after them. The same is said of other relations between realms that operations
lead along, such as careful runs.

Main statements: `Host.Operates.callMethod`, `Host.Operates.awakens` and `Reachable.acts`.
-/

namespace ScriptBridge

variable {P : Platform}

namespace Realm

/-! ## Actions that are made of operations -/

/-- A relation between realms that operations lead along, at least those that take no protection
down. -/
class Operational (R : Realm P → Realm P → Prop) : Prop extends Course R where
  step : ∀ {a b}, Step a b → (∀ h, a.protections h ≤ b.protections h) → R a b

instance : Operational (Steps (P := P)) where
  refl _ := .refl
  trans := .trans
  step h _ := .single h

instance : Operational (Careful (P := P)) where
  refl := Careful.refl
  trans := Careful.trans
  step h hkeeps := Careful.single (.step h) hkeeps

variable {R : Realm P → Realm P → Prop}

/-- An operation that leaves all protections as they are. -/
theorem Operational.freely [Operational R] {a b : Realm P} (h : Step a b) (h' : Freely a b) :
    R a b :=
  Operational.step h fun k => Nat.le_of_eq (h'.protections k).symm

/-- Whatever happens in an action, the realm changes by operations only. -/
def Acts {ε σ α : Type} (R : Realm P → Realm P → Prop) (realmOf : σ → Realm P)
    (action : ExceptT ε (StateM σ) α) : Prop :=
  ∀ s, R (realmOf s) (realmOf (after action s))

section

variable [Course R] {ε σ α β : Type} {realmOf : σ → Realm P}

theorem acts_pure (answer : α) : Acts R realmOf (pure answer : ExceptT ε (StateM σ) α) :=
  fun _ => Course.refl _

theorem acts_throw (error : ε) : Acts R realmOf (throw error : ExceptT ε (StateM σ) α) :=
  fun _ => Course.refl _

theorem acts_throw_bind (error : ε) (next : α → ExceptT ε (StateM σ) β) :
    Acts R realmOf ((throw error : ExceptT ε (StateM σ) α) >>= next) :=
  fun _ => Course.refl _

theorem acts_get : Acts R realmOf (get : ExceptT ε (StateM σ) σ) := fun _ => Course.refl _

theorem acts_lift (x : Except ε α) : Acts R realmOf (liftM x : ExceptT ε (StateM σ) α) :=
  fun _ => after_lift (R := fun s s' => R (realmOf s) (realmOf s')) (fun _ => Course.refl _) x

omit [Course R] in
theorem acts_modifyGet {f : σ → α × σ} (h : ∀ s, R (realmOf s) (realmOf (f s).2)) :
    Acts R realmOf (modifyGet f : ExceptT ε (StateM σ) α) := h

omit [Course R] in
theorem acts_modify {f : σ → σ} (h : ∀ s, R (realmOf s) (realmOf (f s))) :
    Acts R realmOf (modify f : ExceptT ε (StateM σ) PUnit) := h

theorem Acts.bind {action : ExceptT ε (StateM σ) α} {next : α → ExceptT ε (StateM σ) β}
    (h : Acts R realmOf action) (h' : ∀ answer, Acts R realmOf (next answer)) :
    Acts R realmOf (action >>= next) := by
  intro s
  apply after_bind (R := fun s s' => R (realmOf s) (realmOf s'))
  · exact fun h h' => Course.trans h h'
  · exact h s
  · exact fun answer => h' answer _

theorem acts_forM {step : α → ExceptT ε (StateM σ) PUnit} (h : ∀ x, Acts R realmOf (step x))
    (xs : List α) : Acts R realmOf (xs.forM step) := by
  induction xs with
  | nil => exact acts_pure _
  | cons x xs ih => exact (h x).bind fun _ => ih

end

/-- What holds of all realms that can come about holds after an action that is made of operations. -/
theorem Reachable.acts {ε α : Type} {r : Realm P} (hr : r.Reachable)
    {action : ExceptT ε (StateM (Realm P)) α} (h : Acts Steps id action)
    (hbound : (after action r).heap.capacity ≤ UInt32.size) : (after action r).Reachable :=
  hr.steps (h r) hbound

/-! ## Operations as actions -/

variable [Operational R]

theorem acts_putProperty (h : Handle) (name : String) (value : Value) (deserializing : Bool) :
    Acts R id (putProperty h name value deserializing) :=
  fun r => Operational.freely (.putProperty h name value deserializing r)
    (alters_putProperty trivial name (Or.inr Heap.stores_freely) deserializing r)

theorem acts_assignGlobal (name : String) (value : Value) :
    Acts R id (assignGlobal (P := P) name value) :=
  acts_get.bind fun r => acts_putProperty r.globals name value false

theorem acts_wrapNative (name : String) (native : Native P.Layer) :
    Acts R id (wrapNative name native) :=
  fun r => Operational.freely (.wrapNative name native r) (freely_wrapNative name native r)

/-- A class is instantiated by a script. -/
theorem acts_construct (name : String) : Acts R id (construct name) := by
  refine acts_get.bind fun r => ?_
  cases r.registry.lookup? name with
  | none => exact acts_throw _
  | some c =>
    dsimp only
    split
    · exact acts_throw _
    · exact acts_modifyGet fun r => Operational.freely (.instantiate c r) (freely_instantiate c r)

end Realm

open Realm (Operational Acts acts_pure acts_throw acts_get acts_lift acts_modifyGet acts_modify
  acts_forM alters_allocate freely_instantiate Steps)

variable {R : Realm P → Realm P → Prop}

/-! ## Typed vectors -/

/-- A relation between realms that native code leads along when it runs on a part of the native state
of an object. -/
class RunsParts (R : Realm P → Realm P → Prop) : Prop extends Course R where
  onPart : ∀ {α β : Type} (facet : Facet P.Layer α) h (step : α → Surroundings P → β × α),
    Acts R id (Realm.onPart facet h step)

instance [Operational R] : RunsParts R where
  onPart _ h _ r := Operational.freely (.onNative h _ r) (Realm.alters_onNative trivial false _ r)

namespace VectorMethod

section

variable [Course R]

theorem acts_runIndexOf (this : Handle) (call : Invocation) :
    Acts R id (runIndexOf this call) := by
  unfold runIndexOf
  split
  · exact acts_get.bind fun r => (acts_lift _).bind fun v => acts_pure _
  · exact acts_throw _

theorem acts_runToArray (this : Handle) : Acts R id (runToArray this) :=
  acts_get.bind fun _ => (acts_lift _).bind fun _ => acts_pure _

end

section

variable [RunsParts R]

theorem acts_runSplice (this : Handle) (call : Invocation) :
    Acts R id (runSplice this call) := by
  unfold runSplice
  cases twoNumbers? call 1 with
  | none => exact acts_throw _
  | some range => exact RunsParts.onPart _ this _

theorem acts_runSet (this : Handle) (call : Invocation) : Acts R id (runSet this call) := by
  unfold runSet
  split
  · exact RunsParts.onPart _ this _
  · split
    · exact acts_pure _
    · exact acts_get.bind fun r => (acts_lift _).bind fun v => RunsParts.onPart _ this _
  · exact acts_throw _

/-- All functions but one run on the receiver alone. -/
theorem acts_run_of_ne_slice {method : VectorMethod} (hmethod : method ≠ .slice)
    (this : Option Handle) (call : Invocation) : Acts R id (method.run this call) := by
  unfold run
  cases this with
  | none => exact acts_throw _
  | some this =>
    cases method with
    | push => exact (RunsParts.onPart _ this _).bind fun answer => acts_pure _
    | pop => exact (RunsParts.onPart _ this _).bind fun answer => acts_pure _
    | slice => exact absurd rfl hmethod
    | splice => exact (acts_runSplice this call).bind fun answer => acts_pure _
    | set => exact (acts_runSet this call).bind fun answer => acts_pure _
    | indexOf => exact (acts_runIndexOf this call).bind fun answer => acts_pure _
    | toArray => exact (acts_runToArray this).bind fun answer => acts_pure _

end

variable [Operational R]

theorem acts_runSlice (this : Handle) (call : Invocation) : Acts R id (runSlice this call) := by
  unfold runSlice
  cases twoNumbers? call 0 with
  | none => exact acts_throw _
  | some range =>
    refine acts_get.bind fun r => (acts_lift _).bind fun v => ?_
    exact (Realm.acts_wrapNative _ _).bind fun copy => acts_pure _

theorem acts_run (method : VectorMethod) (this : Option Handle) (call : Invocation) :
    Acts R id (method.run this call) := by
  by_cases hmethod : method = .slice
  · subst hmethod
    cases this with
    | none => exact acts_throw _
    | some this => exact (acts_runSlice this call).bind fun answer => acts_pure _
  · exact acts_run_of_ne_slice hmethod this call

end VectorMethod

/-- A relation between realms that the functions of typed vectors lead along. -/
class RunsVectors (R : Realm P → Realm P → Prop) : Prop extends Course R where
  run : ∀ (method : VectorMethod) this call, Acts R id (method.run this call)

instance [Operational R] : RunsVectors R where
  run := VectorMethod.acts_run

/-! ## Calls -/

namespace Host

/-- The callbacks of a host and its evaluator act on a realm by its operations only. -/
structure Operates (R : Realm P → Realm P → Prop) (host : Host P) : Prop where
  invoke : ∀ callback this call, Acts R id (host.invoke callback this call)
  run : ∀ evaluator unit source, host.evaluator? = some evaluator →
    Acts R id (evaluator.run unit source)
  evaluate : ∀ evaluator source this, host.evaluator? = some evaluator →
    Acts R id (evaluator.evaluate source this)
  call : ∀ evaluator name source this args, host.evaluator? = some evaluator →
    Acts R id (evaluator.call name source this args)

variable {host : Host P}

/-- What operations lead along may be forgotten in part. -/
theorem Operates.imp {R' : Realm P → Realm P → Prop} (h : host.Operates R)
    (himp : ∀ r r', R r r' → R' r r') : host.Operates R' where
  invoke callback this call r := himp _ _ (h.invoke callback this call r)
  run evaluator unit source he r := himp _ _ (h.run evaluator unit source he r)
  evaluate evaluator source this he r := himp _ _ (h.evaluate evaluator source this he r)
  call evaluator name source this args he r := himp _ _ (h.call evaluator name source this args he r)

variable [RunsVectors R]

/-- What is done with the evaluator, if there is one. -/
theorem acts_evaluator {α : Type} {next : Evaluator P → Action P α}
    (h : ∀ evaluator, host.evaluator? = some evaluator → Acts R id (next evaluator)) :
    Acts R id (host.evaluator >>= next) := by
  unfold evaluator
  cases hevaluator : host.evaluator? with
  | none => exact Realm.acts_throw_bind _ _
  | some evaluator => exact h evaluator hevaluator

theorem Operates.callNative (h : host.Operates R) (procedure : Procedure P) (this : Option Handle)
    (args : List Value) : Acts R id (host.callNative procedure this args) := by
  refine acts_get.bind fun r => Acts.bind ?_ fun call => acts_pure _
  cases procedure with
  | vector method => exact RunsVectors.run method this _
  | callback callback => exact h.invoke callback this _

theorem Operates.callFunction (h : host.Operates R) (func : Handle) (this : Option Handle)
    (args : List Value) : Acts R id (host.callFunction func this args) := by
  refine acts_get.bind fun r => ?_
  cases r.heap.get? func with
  | none => exact acts_throw _
  | some object =>
    dsimp only
    cases object.function? with
    | none => exact acts_throw _
    | some function =>
      dsimp only
      cases function.body with
      | native procedure => exact h.callNative procedure this args
      -- a script is run by the evaluator, if one is installed
      | script source =>
        exact acts_evaluator fun evaluator hevaluator =>
          h.call evaluator _ _ _ _ hevaluator

theorem Operates.callField (h : host.Operates R) (owner : Handle) (name : String)
    (this : Option Handle) (args : List Value) : Acts R id (host.callField owner name this args) := by
  refine acts_get.bind fun r => ?_
  cases (r.field? owner name).bind Value.function? with
  | none => exact acts_throw _
  | some func => exact h.callFunction func this args

theorem Operates.callMethod (h : host.Operates R) (this : Handle) (name : String)
    (args : List Value) : Acts R id (host.callMethod this name args) := by
  refine acts_get.bind fun r => ?_
  cases (r.classOf? this).bind (r.registry.resolveFunction? · name) with
  | none =>
    dsimp only
    split
    · exact Realm.acts_throw_bind _ _
    · exact h.callField this name _ args
  | some procedure =>
    dsimp only
    split
    · exact Realm.acts_throw_bind _ _
    · exact h.callNative procedure _ args

theorem Operates.callGlobal (h : host.Operates R) (name : String) (args : List Value) :
    Acts R id (host.callGlobal name args) := by
  refine acts_get.bind fun r => ?_
  cases r.registry.globals.find? name with
  | none => exact h.callField _ name _ args
  | some procedure => exact h.callNative procedure _ args

end Host

/-! ## Awakening -/

namespace Loading

variable {host : Host P}

theorem acts_ask [Course R] {α : Type} (question : Realm P → α) : Acts R realm (ask question) :=
  acts_get.bind fun _ => acts_pure _

/-- Awakens an instance, if it has a function for that. -/
def awakenOne (host : Host P) (h : Handle) : LoadingM P Unit := do
  if ← ask (canAwake · h) then
    match ← attempt (host.callMethod h awakeName []) with
    | .ok _ => pure ()
    | .error error =>
      if ← isStrict then throw (.script error)
      modify fun s => { s with realm := s.realm.report error }

theorem awaken_eq (host : Host P) :
    awaken host = (do
      let sleepers := (← get).sleepers
      modify fun s => { s with sleepers := [] }
      sleepers.forM (awakenOne host)) := rfl

/-- Of what a host does, a load needs the calls that awaken instances only. -/
def Awakens (R : Realm P → Realm P → Prop) (host : Host P) : Prop :=
  ∀ h, Acts R id (host.callMethod h awakeName [])

/-- Besides the call, awakening an instance reports an error at most. -/
theorem awakenOne_of_report [Course R] {sleeper : Handle} {t : Loading P}
    (hcall : canAwake t.realm sleeper = true →
      R t.realm (Realm.after (host.callMethod sleeper awakeName []) t.realm))
    (hreport : ∀ error r, R r (r.report error)) :
    R t.realm (Realm.after (awakenOne host sleeper) t).realm := by
  show R t.realm (Realm.after (if canAwake t.realm sleeper then _ else pure () : LoadingM P Unit)
    t).realm
  split
  · next hawake =>
    apply Realm.after_bind (R := fun s s' : Loading P => R s.realm s'.realm)
    · exact fun h h' => Course.trans h h'
    · exact hcall hawake
    · intro answer
      -- in lenient mode an error of the call is reported, and the load goes on
      cases answer with
      | ok answer => exact Course.refl _
      | error error =>
        refine Acts.bind (R := R) (acts_ask _) (fun strict => ?_) _
        split
        · exact Realm.acts_throw_bind _ _
        · exact acts_modify fun s => hreport error s.realm
  · exact Course.refl _

theorem acts_awakenOne_of_report [Course R] (h : Awakens R host)
    (hreport : ∀ error r, R r (r.report error)) (sleeper : Handle) :
    Acts R realm (awakenOne host sleeper) :=
  fun t => awakenOne_of_report (fun _ => h sleeper t.realm) hreport

theorem acts_awakenOne [Operational R] (h : Awakens R host) (sleeper : Handle) :
    Acts R realm (awakenOne host sleeper) :=
  acts_awakenOne_of_report h
    (fun error r => Operational.freely (.report error r) ⟨.refl, rfl, rfl⟩) sleeper

end Loading

namespace Host

variable {host : Host P}

/-- When a load is over, the protections that it has added are taken down. -/
theorem run_load (host : Host P) {s : Snapshot} {copying : Bool}
    (hadmitted : (!copying && s.holdsLiveObjects) = false) {r : Realm P}
    {answer : Except SnapshotError Value} {t : Loading P}
    (hload : Id.run ((Loading.load host s).run.run ⟨r, [], .empty, 0, [], [], []⟩) = (answer, t)) :
    Id.run ((host.load s copying).run.run r) = (answer, t.realm.unprotectAll t.made) := by
  let outcome := Id.run ((Loading.load host s).run.run ⟨r, [], .empty, 0, [], [], []⟩)
  have houtcome : outcome = (answer, t) := hload
  unfold Host.load
  rw [hadmitted, if_neg Bool.false_ne_true]
  show Id.run ((liftM outcome.1 : SnapshotAction P Value).run.run
    (outcome.2.realm.unprotectAll outcome.2.made)) = _
  rw [houtcome]
  cases answer <;> rfl

theorem Operates.awakens [RunsVectors R] (h : host.Operates R) : Loading.Awakens R host :=
  fun sleeper => h.callMethod sleeper Loading.awakeName []

end Host

end ScriptBridge
