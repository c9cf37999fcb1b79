import ScriptBridge.Proofs.Realm.Callbacks

/-!
# The Modes of a Realm

Whether a realm is strict or lenient is looked at by loads only. An action that looks at nothing but
the rest of a realm does the same in both modes. Of an action that loads snapshots in turn, and may
fail in strict mode where it would succeed in lenient mode, something weaker remains: its successes
are those of lenient mode.

Main statements: `Blind.refines`, `Host.Refines.callMethod` and `Scenario.refines_hostWithin`.
-/

namespace ScriptBridge

/-! ## Steps in two states -/

section

variable {ε σ α β : Type} {change : σ → σ}

/-- A step cannot tell a state from the changed one. -/
def Blind (change : σ → σ) (step : ExceptT ε (StateM σ) α) : Prop :=
  ∀ s, Id.run (step.run.run (change s)) =
    ((Id.run (step.run.run s)).1, change (Id.run (step.run.run s)).2)

/-- When a step succeeds, it does so with the same answer in the changed state. -/
def Refines (change : σ → σ) (step : ExceptT ε (StateM σ) α) : Prop :=
  ∀ s answer s', Id.run (step.run.run s) = (.ok answer, s') →
    Id.run (step.run.run (change s)) = (.ok answer, change s')

theorem Blind.refines {step : ExceptT ε (StateM σ) α} (h : Blind change step) :
    Refines change step := by
  intro s answer s' hrun
  rw [h s, hrun]

theorem blind_pure (answer : α) : Blind change (pure answer : ExceptT ε (StateM σ) α) := fun _ => rfl

theorem blind_throw (error : ε) : Blind change (throw error : ExceptT ε (StateM σ) α) := fun _ => rfl

theorem blind_throw_bind (error : ε) (next : α → ExceptT ε (StateM σ) β) :
    Blind change ((throw error : ExceptT ε (StateM σ) α) >>= next) := fun _ => rfl

theorem blind_lift (x : Except ε α) : Blind change (liftM x : ExceptT ε (StateM σ) α) := by
  intro s
  cases x <;> rfl

theorem blind_modify {f : σ → σ} (h : ∀ s, f (change s) = change (f s)) :
    Blind change (modify f : ExceptT ε (StateM σ) PUnit) := by
  intro s
  show (Except.ok PUnit.unit, f (change s)) = _
  rw [h s]
  rfl

theorem blind_modifyGet {f : σ → α × σ} (h : ∀ s, f (change s) = ((f s).1, change (f s).2)) :
    Blind change (modifyGet f : ExceptT ε (StateM σ) α) := by
  intro s
  show (Except.ok (f (change s)).1, (f (change s)).2) = _
  rw [h s]
  rfl

theorem Blind.bind {step : ExceptT ε (StateM σ) α} {next : α → ExceptT ε (StateM σ) β}
    (h : Blind change step) (h' : ∀ answer, Blind change (next answer)) :
    Blind change (step >>= next) := by
  intro s
  have hstep := h s
  simp only [ExceptT.run_bind, StateT.run_bind] at hstep ⊢
  rcases hrun : step.run.run s with ⟨outcome, s'⟩
  rw [hrun] at hstep
  have hchanged : step.run.run (change s) = (outcome, change s') := hstep
  rw [hchanged]
  cases outcome with
  | ok answer => exact h' answer s'
  | error error => rfl

/-- What is done with a state that the rest of the step looks at in part only. -/
theorem blind_get {next : σ → ExceptT ε (StateM σ) β} (hsame : ∀ s, next (change s) = next s)
    (h : ∀ s, Blind change (next s)) : Blind change (get >>= next) := by
  intro s
  show Id.run ((next (change s)).run.run (change s)) = _
  rw [hsame s]
  exact h s s

theorem refines_pure (answer : α) : Refines change (pure answer : ExceptT ε (StateM σ) α) :=
  (blind_pure answer).refines

theorem refines_throw (error : ε) : Refines change (throw error : ExceptT ε (StateM σ) α) :=
  (blind_throw error).refines

theorem refines_modify {f : σ → σ} (h : ∀ s, f (change s) = change (f s)) :
    Refines change (modify f : ExceptT ε (StateM σ) PUnit) :=
  (blind_modify h).refines

theorem Refines.bind {step : ExceptT ε (StateM σ) α} {next : α → ExceptT ε (StateM σ) β}
    (h : Refines change step) (h' : ∀ answer, Refines change (next answer)) :
    Refines change (step >>= next) := by
  intro s b s'' hrun
  obtain ⟨a, s', hstep, hnext⟩ := Realm.exists_of_run_bind hrun
  rw [Realm.run_bind_of_ok (h s a s' hstep)]
  exact h' a s' b s'' hnext

theorem refines_get {next : σ → ExceptT ε (StateM σ) β} (hsame : ∀ s, next (change s) = next s)
    (h : ∀ s, Refines change (next s)) : Refines change (get >>= next) := by
  intro s b s' hrun
  show Id.run ((next (change s)).run.run (change s)) = _
  rw [hsame s]
  exact h s s b s' hrun

theorem refines_forM {step : α → ExceptT ε (StateM σ) PUnit} (h : ∀ x, Refines change (step x))
    (xs : List α) : Refines change (xs.forM step) := by
  induction xs with
  | nil => exact refines_pure _
  | cons x xs ih => exact (h x).bind fun _ => ih

end

variable {P : Platform}

namespace Realm

/-- The same realm in another mode. -/
def inMode (mode : Strictness) (r : Realm P) : Realm P :=
  { r with options := { r.options with strictness := mode } }

/-- The mode is that of before. -/
def SameMode (r r' : Realm P) : Prop := r'.options.strictness = r.options.strictness

instance : Operational (SameMode (P := P)) where
  refl _ := rfl
  trans h h' := Eq.trans h' h
  step h _ := congrArg Options.strictness h.evolves.options

/-- An action that cannot tell one mode from another leaves the mode as it is. -/
theorem acts_sameMode_of_blind {α : Type} {action : Action P α}
    (h : ∀ mode, Blind (inMode mode) action) : Acts SameMode id action := by
  intro r
  have hrun := h r.options.strictness r
  -- in the mode that it has, a realm is what it is
  have hself : r.inMode r.options.strictness = r := rfl
  rw [hself] at hrun
  exact congrArg (fun ran => ran.2.options.strictness) hrun

/-! ## What the realm does itself -/

section

variable {mode : Strictness}

theorem blind_onNative {α : Type} (h : Handle) (deserializing : Bool)
    (step : Surroundings P → NativeAction P α) :
    Blind (inMode mode) (onNative h deserializing step) := by
  intro r
  rw [run_onNative, run_onNative]
  have hnative : (inMode mode r).native h = r.native h := rfl
  rw [hnative]
  cases r.native h <;> rfl

theorem blind_setField (h : Handle) (name : String) (value : Value) :
    Blind (inMode (P := P) mode) (setField h name value) :=
  Blind.bind (blind_modifyGet fun _ => rfl) fun _ => blind_modify fun _ => rfl

theorem blind_setLength (h : Handle) (size : Nat) (value : Value) :
    Blind (inMode (P := P) mode) (setLength h size value) := by
  unfold setLength
  refine (blind_lift _).bind fun length => ?_
  split
  · split
    · exact blind_throw_bind _ _
    · dsimp only
      split
      · exact blind_throw_bind _ _
      · exact blind_modify fun _ => rfl
  · exact blind_throw _

theorem blind_putProperty (h : Handle) (name : String) (value : Value) (deserializing : Bool) :
    Blind (inMode (P := P) mode) (putProperty h name value deserializing) := by
  refine blind_get (fun _ => rfl) fun r => ?_
  cases r.heap.get? h with
  | none => exact blind_throw _
  | some object =>
    dsimp only
    cases r.binding? object name with
    | some binding =>
      dsimp only
      split
      · exact blind_throw_bind _ _
      · exact blind_onNative h deserializing _
    | none =>
      dsimp only
      split
      · exact blind_setLength h _ value
      · exact blind_setField h _ value

theorem blind_assignElement (h : Handle) (index : Nat) (value : Value) :
    Blind (inMode (P := P) mode) (assignElement h index value) := by
  refine blind_get (fun _ => rfl) fun r => ?_
  cases r.heap.get? h with
  | none => exact blind_throw _
  | some object =>
    dsimp only
    cases r.elements? object with
    | some elements => exact blind_onNative h false _
    | none =>
      refine Blind.bind (blind_modifyGet fun _ => rfl) fun slot =>
        blind_get (fun _ => rfl) fun r' => ?_
      cases r'.heap.get? h with
      | none => exact blind_throw _
      | some object' =>
        dsimp only
        cases object'.items?.map Array.size with
        | none => exact Blind.bind (blind_modify fun _ => rfl) fun _ => blind_pure true
        | some size =>
          dsimp only
          split
          · exact blind_pure false
          · exact Blind.bind (blind_modify fun _ => rfl) fun _ => blind_pure true

theorem instantiate_inMode (c : ClassNumber) (r : Realm P) :
    instantiate c (r.inMode mode) = ((r.instantiate c).1, (r.instantiate c).2.inMode mode) := by
  unfold instantiate
  split
  · rfl
  · split <;> rfl

theorem blind_instantiate (c : ClassNumber) :
    Blind (inMode mode) (modifyGet (instantiate c) : Action P Handle) :=
  blind_modifyGet (instantiate_inMode c)

theorem blind_construct (name : String) : Blind (inMode (P := P) mode) (construct name) := by
  refine blind_get (fun _ => rfl) fun r => ?_
  cases r.registry.lookup? name with
  | none => exact blind_throw _
  | some c =>
    dsimp only
    split
    · exact blind_throw_bind _ _
    · exact blind_instantiate c

theorem blind_wrapNative (name : String) (native : Native P.Layer) :
    Blind (inMode mode) (wrapNative name native) := by
  refine blind_get (fun _ => rfl) fun r => ?_
  cases r.registry.lookup? name with
  | none => exact blind_throw _
  | some c =>
    dsimp only
    split
    · exact blind_throw_bind _ _
    · exact blind_modifyGet fun _ => rfl

theorem blind_onPart {α β : Type} (facet : Facet P.Layer α) (h : Handle)
    (step : α → Surroundings P → β × α) : Blind (inMode mode) (onPart facet h step) :=
  blind_onNative h false _

end

end Realm

open Realm (inMode Acts Operational)

/-! ## Typed vectors -/

namespace VectorMethod

variable {mode : Strictness}

theorem blind_runSlice (this : Handle) (call : Invocation) :
    Blind (inMode (P := P) mode) (runSlice this call) := by
  unfold runSlice
  cases twoNumbers? call 0 with
  | none => exact blind_throw _
  | some range =>
    refine blind_get (fun _ => rfl) fun r => (blind_lift _).bind fun v => ?_
    exact (Realm.blind_wrapNative _ _).bind fun copy => blind_pure _

theorem blind_runSplice (this : Handle) (call : Invocation) :
    Blind (inMode (P := P) mode) (runSplice this call) := by
  unfold runSplice
  cases twoNumbers? call 1 with
  | none => exact blind_throw _
  | some range => exact Realm.blind_onPart _ this _

theorem blind_runSet (this : Handle) (call : Invocation) :
    Blind (inMode (P := P) mode) (runSet this call) := by
  unfold runSet
  split
  · exact Realm.blind_onPart _ this _
  · split
    · exact blind_pure _
    · exact blind_get (fun _ => rfl) fun r => (blind_lift _).bind fun v => Realm.blind_onPart _ this _
  · exact blind_throw _

theorem blind_runIndexOf (this : Handle) (call : Invocation) :
    Blind (inMode (P := P) mode) (runIndexOf this call) := by
  unfold runIndexOf
  split
  · exact blind_get (fun _ => rfl) fun r => (blind_lift _).bind fun v => blind_pure _
  · exact blind_throw _

theorem blind_runToArray (this : Handle) : Blind (inMode (P := P) mode) (runToArray this) :=
  blind_get (fun _ => rfl) fun _ => (blind_lift _).bind fun _ => blind_pure _

theorem blind_run (method : VectorMethod) (this : Option Handle) (call : Invocation) :
    Blind (inMode (P := P) mode) (method.run this call) := by
  unfold run
  cases this with
  | none => exact blind_throw _
  | some this =>
    cases method with
    | push => exact (Realm.blind_onPart _ this _).bind fun answer => blind_pure _
    | pop => exact (Realm.blind_onPart _ this _).bind fun answer => blind_pure _
    | slice => exact (blind_runSlice this call).bind fun answer => blind_pure _
    | splice => exact (blind_runSplice this call).bind fun answer => blind_pure _
    | set => exact (blind_runSet this call).bind fun answer => blind_pure _
    | indexOf => exact (blind_runIndexOf this call).bind fun answer => blind_pure _
    | toArray => exact (blind_runToArray this).bind fun answer => blind_pure _

end VectorMethod

/-! ## Calls -/

namespace Host

/-- Callbacks and source text never look at the mode. -/
structure IgnoresMode (host : Host P) : Prop where
  invoke : ∀ mode callback this call, Blind (inMode mode) (host.invoke callback this call)
  run : ∀ mode evaluator unit source, host.evaluator? = some evaluator →
    Blind (inMode mode) (evaluator.run unit source)
  evaluate : ∀ mode evaluator source this, host.evaluator? = some evaluator →
    Blind (inMode mode) (evaluator.evaluate source this)
  call : ∀ mode evaluator name source this args, host.evaluator? = some evaluator →
    Blind (inMode mode) (evaluator.call name source this args)

/-- Callbacks and source text leave the mode alone, and where a call succeeds, it does the same in
lenient mode. They may load snapshots. -/
structure Refines (host : Host P) : Prop where
  operates : host.Operates Realm.SameMode
  invoke : ∀ callback this call,
    ScriptBridge.Refines (inMode .lenient) (host.invoke callback this call)
  call : ∀ evaluator name source this args, host.evaluator? = some evaluator →
    ScriptBridge.Refines (inMode .lenient) (evaluator.call name source this args)

variable {host : Host P}

/-- What never looks at the mode does the same in both. -/
theorem IgnoresMode.refines (h : host.IgnoresMode) : host.Refines where
  operates :=
    { invoke := fun callback this call =>
        Realm.acts_sameMode_of_blind fun mode => h.invoke mode callback this call
      run := fun evaluator unit source he =>
        Realm.acts_sameMode_of_blind fun mode => h.run mode evaluator unit source he
      evaluate := fun evaluator source this he =>
        Realm.acts_sameMode_of_blind fun mode => h.evaluate mode evaluator source this he
      call := fun evaluator name source this args he =>
        Realm.acts_sameMode_of_blind fun mode => h.call mode evaluator name source this args he }
  invoke callback this call := (h.invoke .lenient callback this call).refines
  call evaluator name source this args he :=
    (h.call .lenient evaluator name source this args he).refines

theorem Refines.callNative (h : host.Refines) (procedure : Procedure P) (this : Option Handle)
    (args : List Value) :
    ScriptBridge.Refines (inMode .lenient) (host.callNative procedure this args) := by
  refine refines_get (fun _ => rfl) fun r => ScriptBridge.Refines.bind ?_ fun call => refines_pure _
  cases procedure with
  | vector method => exact (method.blind_run this _).refines
  | callback callback => exact h.invoke callback this _

theorem Refines.callFunction (h : host.Refines) (func : Handle) (this : Option Handle)
    (args : List Value) :
    ScriptBridge.Refines (inMode .lenient) (host.callFunction func this args) := by
  refine refines_get (fun _ => rfl) fun r => ?_
  cases r.heap.get? func with
  | none => exact refines_throw _
  | some object =>
    dsimp only
    cases object.function? with
    | none => exact refines_throw _
    | some function =>
      dsimp only
      cases function.body with
      | native procedure => exact h.callNative procedure this args
      | script source =>
        dsimp only
        unfold evaluator
        cases hevaluator : host.evaluator? with
        | none => exact (blind_throw_bind _ _).refines
        | some evaluator => exact h.call evaluator _ _ _ _ hevaluator

theorem Refines.callField (h : host.Refines) (owner : Handle) (name : String)
    (this : Option Handle) (args : List Value) :
    ScriptBridge.Refines (inMode .lenient) (host.callField owner name this args) := by
  refine refines_get (fun _ => rfl) fun r => ?_
  cases (r.field? owner name).bind Value.function? with
  | none => exact refines_throw _
  | some func => exact h.callFunction func this args

/-- A method does the same in lenient mode, if it succeeds. -/
theorem Refines.callMethod (h : host.Refines) (this : Handle) (name : String) (args : List Value) :
    ScriptBridge.Refines (inMode .lenient) (host.callMethod this name args) := by
  refine refines_get (fun _ => rfl) fun r => ?_
  cases (r.classOf? this).bind (r.registry.resolveFunction? · name) with
  | none =>
    dsimp only
    split
    · exact (blind_throw_bind _ _).refines
    · exact h.callField this name _ args
  | some procedure =>
    dsimp only
    split
    · exact (blind_throw_bind _ _).refines
    · exact h.callNative procedure _ args

theorem Refines.callGlobal (h : host.Refines) (name : String) (args : List Value) :
    ScriptBridge.Refines (inMode .lenient) (host.callGlobal name args) := by
  refine refines_get (fun _ => rfl) fun r => ?_
  cases r.registry.globals.find? name with
  | none => exact h.callField _ name _ args
  | some procedure => exact h.callNative procedure _ args

end Host

/-! ## Callbacks of scenarios -/

namespace Scenario

theorem blind_journalize (mode : Strictness) (record : Record) :
    Blind (inMode mode) (journalize record) :=
  blind_modify fun _ => rfl

theorem blind_valueOf (mode : Strictness) (term : Term) : Blind (inMode mode) (valueOf term) :=
  blind_get (fun _ => rfl) fun _ => blind_pure _

theorem refines_needReceiver {α : Type} {this : Option Handle}
    {next : Handle → Action platform α}
    (h : ∀ receiver, Refines (inMode .lenient) (next receiver)) :
    Refines (inMode .lenient) (needReceiver this >>= next) := by
  cases this with
  | none => exact (blind_throw_bind _ _).refines
  | some receiver => exact h receiver

/-- No instruction looks at the mode, the calls inside of it least of all. -/
theorem refines_instruction {host : Host platform} (hhost : host.Refines) (this : Option Handle)
    (call : Invocation) (instruction : Instruction) :
    Refines (inMode .lenient) (instruction.run host this call) := by
  cases instruction with
  | answer term => exact (blind_valueOf _ term).refines.bind fun _ => refines_pure _
  | answerReceiver => exact refines_pure _
  | answerArguments => exact refines_pure _
  | answerCount => exact refines_pure _
  | fail error => exact refines_throw error
  | read outputs required offset usage =>
    simp only [Instruction.run]
    split
    · exact refines_pure _
    · exact refines_throw _
  | get name =>
    refine refines_needReceiver fun receiver => refines_get (fun _ => rfl) fun r => ?_
    exact (blind_lift _).refines.bind fun _ => refines_pure _
  | set name term =>
    have hwrite : ∀ (receiver : Handle) (value : Value), Refines (inMode .lenient)
        (Realm.assignProperty (P := platform) receiver name value >>= fun _ => pure call) :=
      fun receiver value =>
        (Realm.blind_putProperty receiver name value false).refines.bind fun _ => refines_pure call
    refine refines_needReceiver fun receiver => ?_
    cases term with
    | none => exact hwrite receiver _
    | some term => exact (blind_valueOf _ term).refines.bind fun value => hwrite receiver value
  | callMethod name =>
    refine refines_needReceiver fun receiver => ?_
    exact (hhost.callMethod receiver name call.arguments).bind fun _ => refines_pure _
  | callGlobal name => exact (hhost.callGlobal name call.arguments).bind fun _ => refines_pure _
  | construct className => exact (Realm.blind_construct className).refines.bind fun _ => refines_pure _
  | collect =>
    -- a collection neither looks at the mode nor changes it
    have hcollect : Blind (inMode .lenient) (modifyGet Realm.collect : Action platform Nat) :=
      blind_modifyGet fun _ => rfl
    exact hcollect.refines.bind fun _ => refines_pure _
  | bump kind slot =>
    refine refines_needReceiver fun receiver => ?_
    exact Refines.bind (Realm.blind_onPart (P := platform) kind.facet receiver _).refines
      fun _ => refines_pure _
  | note text field =>
    have hnote : ∀ value, Refines (inMode .lenient)
        (journalize (.noted text value call.arguments.length) >>= fun _ => pure call) :=
      fun value => (blind_journalize _ _).refines.bind fun _ => refines_pure call
    simp only [Instruction.run]
    split
    · refine refines_get (fun _ => rfl) fun r => ?_
      exact (blind_lift _).refines.bind fun value => hnote value
    · exact hnote _

theorem refines_runInstructions {host : Host platform} (hhost : host.Refines)
    (body : List Instruction) (this : Option Handle) (call : Invocation) :
    Refines (inMode .lenient) (runInstructions host body this call) := by
  unfold runInstructions
  induction body generalizing call with
  | nil => exact refines_pure call
  | cons instruction body ih =>
    rw [List.foldlM_cons]
    exact (refines_instruction hhost this call instruction).bind ih

/-- Callbacks of scenarios do in lenient mode what they achieve in strict mode. -/
theorem refines_hostWithin (withEvaluator : Bool) (depth : Nat) :
    (hostWithin withEvaluator depth).Refines := by
  have hoperates : ∀ depth, (hostWithin withEvaluator depth).Operates Realm.SameMode :=
    fun depth => (operates_hostWithin withEvaluator depth).imp fun _ _ h =>
      congrArg Options.strictness h.evolves.options
  induction depth with
  | zero => exact ⟨hoperates 0, fun _ _ _ => refines_throw _, fun _ _ _ _ _ he => nomatch he⟩
  | succ depth ih =>
    refine ⟨hoperates (depth + 1), refines_runInstructions ih, ?_⟩
    intro e name source this args he
    cases withEvaluator with
    | false => cases he
    | true =>
      obtain rfl : evaluator (hostWithin true depth) = e := Option.some.inj he
      -- a script is noted down, and fails or answers its arguments
      refine Refines.bind ((blind_journalize _ _).refines.bind fun _ => ?_) fun _ => refines_pure _
      cases thrownBy? source with
      | none => exact refines_pure _
      | some error => exact refines_throw error

end Scenario

end ScriptBridge
