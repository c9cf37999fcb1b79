import ScriptBridge.Proofs.Realm.Calls
import ScriptBridge.Scenario.Script

/-!
# Callbacks of Scenarios

The callbacks of a scenario call back into the realm, collect and write into the journal, and what
they do is made of operations. They take down no protection, however deep their calls nest.

Main statement: `operates_hostWithin`.
-/

namespace ScriptBridge.Scenario

open Realm (Acts Careful acts_get acts_modify acts_modifyGet acts_pure acts_throw)

/-- The journal is kept outside of the heap. -/
theorem acts_journalize (record : Record) : Acts Careful id (journalize record) :=
  acts_modify fun r => Careful.single (.world _ r) fun _ => Nat.le_refl _

theorem acts_valueOf (term : Term) : Acts Careful id (valueOf term) :=
  acts_get.bind fun _ => acts_pure _

/-- What is done with the receiver, if there is one. -/
theorem acts_needReceiver {α : Type} {this : Option Handle} {next : Handle → Action platform α}
    (h : ∀ receiver, Acts Careful id (next receiver)) :
    Acts Careful id (needReceiver this >>= next) := by
  cases this with
  | none => exact Realm.acts_throw_bind _ _
  | some receiver => exact h receiver

theorem acts_instruction {host : Host platform} (hhost : host.Operates Careful)
    (this : Option Handle) (call : Invocation) (instruction : Instruction) :
    Acts Careful id (instruction.run host this call) := by
  cases instruction with
  | answer term => exact (acts_valueOf term).bind fun _ => acts_pure _
  | answerReceiver => exact acts_pure _
  | answerArguments => exact acts_pure _
  | answerCount => exact acts_pure _
  | fail error => exact acts_throw error
  | read outputs required offset usage =>
    simp only [Instruction.run]
    split
    · exact acts_pure _
    · exact acts_throw _
  | get name =>
    refine acts_needReceiver fun receiver => acts_get.bind fun r => ?_
    exact (Realm.acts_lift _).bind fun _ => acts_pure _
  | set name term =>
    have hwrite : ∀ (receiver : Handle) (value : Value), Acts Careful id
        (Realm.assignProperty (P := platform) receiver name value >>= fun _ => pure call) :=
      fun receiver value => (Realm.acts_putProperty receiver name value false).bind fun _ =>
        acts_pure call
    refine acts_needReceiver fun receiver => ?_
    cases term with
    | none => exact hwrite receiver _
    | some term => exact (acts_valueOf term).bind fun value => hwrite receiver value
  | callMethod name =>
    refine acts_needReceiver fun receiver => ?_
    exact (hhost.callMethod receiver name call.arguments).bind fun _ => acts_pure _
  | callGlobal name => exact (hhost.callGlobal name call.arguments).bind fun _ => acts_pure _
  | construct className => exact (Realm.acts_construct className).bind fun _ => acts_pure _
  | collect =>
    refine Acts.bind ?_ fun _ => acts_pure _
    -- a collection keeps all protections
    exact acts_modifyGet fun r => Careful.single (.step (.collect r)) fun _ => Nat.le_refl _
  | bump kind slot =>
    refine acts_needReceiver fun receiver => ?_
    exact Acts.bind (RunsParts.onPart (P := platform) kind.facet receiver _) fun _ => acts_pure _
  | note text field =>
    have hnote : ∀ value, Acts Careful id
        (journalize (.noted text value call.arguments.length) >>= fun _ => pure call) :=
      fun value => (acts_journalize _).bind fun _ => acts_pure call
    simp only [Instruction.run]
    split
    · exact acts_get.bind fun r => (Realm.acts_lift _).bind fun value => hnote value
    · exact hnote _

theorem acts_runInstructions {host : Host platform} (hhost : host.Operates Careful)
    (body : List Instruction) (this : Option Handle) (call : Invocation) :
    Acts Careful id (runInstructions host body this call) := by
  unfold runInstructions
  induction body generalizing call with
  | nil => exact acts_pure call
  | cons instruction body ih =>
    rw [List.foldlM_cons]
    exact (acts_instruction hhost this call instruction).bind ih

theorem acts_recordSource (record : Record) (source : String) :
    Acts Careful id (recordSource record source) := by
  refine (acts_journalize record).bind fun _ => ?_
  cases thrownBy? source with
  | none => exact acts_pure _
  | some error => exact acts_throw error

/-- Callbacks take down no protection, so what they do is careful. -/
theorem operates_hostWithin (withEvaluator : Bool) (depth : Nat) :
    (hostWithin withEvaluator depth).Operates Careful := by
  induction depth with
  | zero =>
    constructor
    case invoke => exact fun _ _ _ => acts_throw _
    all_goals
      intros
      contradiction
  | succ depth ih =>
    -- an evaluator that is installed is that of the calls one level deeper
    have hevaluator : ∀ e, (hostWithin withEvaluator (depth + 1)).evaluator? = some e →
        e = evaluator (hostWithin withEvaluator depth) := by
      intro e he
      cases withEvaluator with
      | false => cases he
      | true => exact (Option.some.inj he).symm
    constructor
    case invoke => exact acts_runInstructions ih
    case run =>
      intro e unit source he
      rw [hevaluator e he]
      exact (acts_recordSource _ source).bind fun _ => Realm.acts_assignGlobal _ _
    case evaluate =>
      intro e source this he
      rw [hevaluator e he]
      refine (acts_recordSource _ source).bind fun _ => ?_
      split
      · exact acts_pure _
      · exact ih.callGlobal source _
    case call =>
      intro e name source this args he
      rw [hevaluator e he]
      exact (acts_recordSource _ source).bind fun _ => acts_pure _

end ScriptBridge.Scenario
