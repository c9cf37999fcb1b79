import ScriptBridge.Proofs.Realm.Modes
import ScriptBridge.Proofs.Snapshot.Awakening

/-!
# Strict and Lenient Loads

Strict mode only ever ends a load early. Where the two modes part, a strict load fails at once, so a
load that succeeds in strict mode has taken the way that it would have taken in lenient mode, step by
step, and has made the same changes.

Main statement: `Host.load_lenient_of_strict`.
-/

namespace ScriptBridge

open Realm (SameMode after)

variable {P : Platform}

namespace Loading

open Snapshot (Entry)

/-- The same state of a load in another mode. -/
def inMode (mode : Strictness) (s : Loading P) : Loading P := { s with realm := s.realm.inMode mode }

section

variable {α β : Type} {mode : Strictness}

/-! ## Steps -/

theorem blind_attempt {action : Action P α} (h : Blind (Realm.inMode mode) action) :
    Blind (inMode mode) (attempt action) := by
  refine blind_modifyGet fun s => ?_
  show ((Id.run (action.run.run (s.realm.inMode mode))).1,
    { s with realm := (Id.run (action.run.run (s.realm.inMode mode))).2 }) = _
  rw [h s.realm]
  rfl

theorem blind_perform {action : Action P α} (h : Blind (Realm.inMode mode) action) :
    Blind (inMode mode) (perform action) := by
  refine (blind_attempt h).bind fun outcome => ?_
  cases outcome with
  | ok answer => exact blind_pure answer
  | error error => exact blind_throw _

theorem blind_discard {step : LoadingM P α} (h : Blind (inMode mode) step) :
    Blind (inMode mode) (discard step) := by
  have hbind : Functor.discard step = step >>= fun _ => pure () := rfl
  rw [hbind]
  exact h.bind fun _ => blind_pure ()

theorem blind_keepAlive (h : Handle) : Blind (inMode (P := P) mode) (keepAlive h) :=
  blind_modify fun _ => rfl

theorem blind_await (id : String) (place : Place) : Blind (inMode (P := P) mode) (await id place) :=
  blind_modify fun _ => rfl

theorem refines_ask {question : Realm P → α} {next : α → LoadingM P β}
    (hsame : ∀ r, question (r.inMode .lenient) = question r)
    (h : ∀ answer, Refines (inMode .lenient) (next answer)) :
    Refines (inMode .lenient) (ask question >>= next) := by
  have hask : Refines (inMode .lenient) (ask question) := by
    refine refines_get (fun s => ?_) fun s => refines_pure _
    show (pure (question (s.realm.inMode .lenient)) : LoadingM P α) = _
    rw [hsame]
  exact hask.bind h

/-- A step that strict mode ends can only succeed in lenient mode. -/
theorem lenient_of_runs {next : Bool → LoadingM P α} (hstrict : ∀ s s' a, ¬Runs (next true) s a s')
    {s s' : Loading P} {a : α} (hrun : Runs (isStrict >>= next) s a s') :
    s.realm.options.strictness = .lenient ∧ Runs (next false) s a s' := by
  have hrun : Runs (next (s.realm.options.strictness == .strict)) s a s' := hrun
  cases hmode : s.realm.options.strictness with
  | strict =>
    rw [hmode] at hrun
    exact absurd hrun (hstrict s s' a)
  | lenient =>
    rw [hmode] at hrun
    exact ⟨rfl, hrun⟩

/-- Where the modes part, a load that succeeds goes on as it does in lenient mode. -/
theorem refines_isStrict {next : Bool → LoadingM P α}
    (hstrict : ∀ s s' a, ¬Runs (next true) s a s') (hlenient : Refines (inMode .lenient) (next false)) :
    Refines (inMode .lenient) (isStrict >>= next) :=
  fun s a s' hrun => hlenient s a s' (lenient_of_runs hstrict hrun).2

theorem not_runs_throw_bind (error : SnapshotError) (next : β → LoadingM P α) (s s' : Loading P)
    (a : α) : ¬Runs ((throw error : LoadingM P β) >>= next) s a s' :=
  fun hrun => nomatch (Prod.mk.inj hrun).1

theorem not_runs_throw (error : SnapshotError) (s s' : Loading P) (a : α) :
    ¬Runs (throw error : LoadingM P α) s a s' :=
  fun hrun => nomatch (Prod.mk.inj hrun).1

end

/-! ## Writing -/

theorem refines_write (h : Handle) (name : String) (value : Value) :
    Refines (inMode (P := P) .lenient) (write h name value) := by
  refine (blind_attempt (Realm.blind_putProperty h name value true)).refines.bind fun outcome => ?_
  cases outcome with
  | ok answer => exact refines_pure _
  | error error => exact refines_isStrict (not_runs_throw _) (refines_pure _)

theorem refines_assignElement (array : Handle) (index : Nat) (value : Value) :
    Refines (inMode (P := P) .lenient)
      (discard (perform (Realm.assignElement array index value))) :=
  (blind_discard (blind_perform (Realm.blind_assignElement array index value))).refines

theorem refines_settle (target : Handle) (place : Place) :
    Refines (inMode (P := P) .lenient) (settle target place) := by
  cases place with
  | property owner name => exact refines_write owner name _
  | item array index => exact refines_assignElement array index _

theorem refines_announce (id : String) (target : Handle) :
    Refines (inMode (P := P) .lenient) (announce id target) := by
  refine refines_get (fun _ => rfl) fun s => Refines.bind (refines_modify fun _ => rfl) fun _ => ?_
  exact refines_forM (refines_settle target) _

theorem refines_settleAll : Refines (inMode (P := P) .lenient) settleAll := by
  refine refines_get (fun _ => rfl) fun s => Refines.bind (refines_modify fun _ => rfl) fun _ => ?_
  apply refines_forM
  rintro ⟨id, places⟩
  refine refines_get (fun _ => rfl) fun s' => ?_
  -- a stub without a target ends a strict load
  cases s'.built.lookup id with
  | some target => exact refines_forM (refines_settle target) _
  | none => exact refines_isStrict (not_runs_throw _) (refines_pure _)

theorem refines_renewAll : Refines (inMode (P := P) .lenient) renewAll := by
  refine refines_get (fun _ => rfl) fun s => Refines.bind (refines_modify fun _ => rfl) fun _ => ?_
  exact refines_forM (fun renewal => refines_write _ _ _) _

/-! ## Reading -/

theorem refines_keepAlive (h : Handle) :
    Refines (inMode (P := P) .lenient) (keepAlive h >>= fun _ => pure h) :=
  (blind_keepAlive h).refines.bind fun _ => refines_pure h

theorem refines_make (className : Option String) :
    Refines (inMode (P := P) .lenient) (make className) := by
  have hplain : Refines (inMode (P := P) .lenient)
      (perform (modifyGet Realm.newObject) >>= fun h => keepAlive h >>= fun _ => pure h) :=
    Refines.bind (blind_perform (blind_modifyGet fun _ => rfl)).refines refines_keepAlive
  refine refines_ask (fun _ => rfl) fun registry => ?_
  cases className with
  | none => exact hplain
  | some name =>
    dsimp only
    cases registry.lookup? name with
    | some c =>
      refine Refines.bind (blind_perform (Realm.blind_instantiate c)).refines fun h => ?_
      split
      · exact Refines.bind (refines_modify fun _ => rfl) fun _ => (refines_pure h).bind refines_keepAlive
      · exact refines_keepAlive h
    -- a class that is not known ends a strict load
    | none => exact refines_isStrict (not_runs_throw_bind _ _) hplain

theorem refines_findSingleton (name : String) :
    Refines (inMode (P := P) .lenient) (findSingleton name) := by
  refine refines_ask (fun _ => rfl) fun found => ?_
  cases found with
  | some h => exact refines_pure _
  | none => exact refines_isStrict (not_runs_throw_bind _ _) (refines_pure _)

theorem refines_restoreEntry {inner : Inner P} (hinner : ∀ entry, Refines (inMode .lenient) (inner entry))
    (h : Handle) (key : String) (entry : Entry) :
    Refines (inMode .lenient) (restoreEntry inner h key entry) := by
  unfold restoreEntry
  split
  · refine Refines.bind (blind_perform (blind_modifyGet fun _ => rfl)).refines fun f => ?_
    exact refines_write h _ _
  · refine (blind_await _ _).refines.bind fun _ => ?_
    exact (blind_discard (blind_attempt (Realm.blind_putProperty h key .null true))).refines
  · refine refines_get (fun _ => rfl) fun s => (hinner _).bind fun value => ?_
    dsimp only
    split
    · refine refines_get (fun _ => rfl) fun s' => ?_
      split
      · exact Refines.bind (refines_modify fun _ => rfl) fun _ => refines_write h key _
      · exact refines_write h key _
    · exact refines_write h key value

theorem refines_rebuildNode {inner : Inner P} (hinner : ∀ entry, Refines (inMode .lenient) (inner entry))
    (node : Snapshot.Node) : Refines (inMode .lenient) (rebuildNode inner node) := by
  refine refines_ask (fun _ => rfl) fun singleton? => ?_
  cases singleton? with
  | some name =>
    refine (refines_findSingleton name).bind fun found => ?_
    cases found with
    | none => exact refines_pure _
    | some h =>
      dsimp only
      split
      · exact (refines_announce _ h).bind fun _ => refines_pure _
      · exact refines_pure _
  | none =>
    refine (refines_make node.className).bind fun h => ?_
    have hentries : Refines (inMode .lenient)
        ((ask fun r => inPhases r (r.classOf? h) node.entries) >>= fun entries =>
          (entries.forM fun entry => restoreEntry inner h entry.1 entry.2) >>= fun _ =>
            pure (some h)) := by
      refine refines_ask (fun _ => rfl) fun entries => ?_
      exact (refines_forM (fun entry => refines_restoreEntry hinner h _ _) entries).bind
        fun _ => refines_pure _
    dsimp only
    split
    · exact (refines_announce _ h).bind fun _ => hentries
    · exact hentries

theorem refines_rebuildItems {inner : Inner P} (hinner : ∀ entry, Refines (inMode .lenient) (inner entry))
    (array : Handle) (index : Nat) (items : List Entry) :
    Refines (inMode .lenient) (rebuildItems inner array index items) := by
  induction items generalizing index with
  | nil => exact refines_pure _
  | cons item items ih =>
    unfold rebuildItems
    dsimp only
    split
    · exact (blind_await _ _).refines.bind fun _ =>
        (refines_assignElement array index _).bind fun _ => ih (index + 1)
    · exact (hinner item).bind fun value =>
        (refines_assignElement array index value).bind fun _ => ih (index + 1)

theorem refines_rebuildArray {inner : Inner P} (hinner : ∀ entry, Refines (inMode .lenient) (inner entry))
    (items : List Entry) : Refines (inMode .lenient) (rebuildArray inner items) := by
  refine Refines.bind (blind_perform (blind_modifyGet fun _ => rfl)).refines fun array => ?_
  exact (blind_keepAlive array).refines.bind fun _ =>
    (refines_rebuildItems hinner array 0 items).bind fun _ => refines_pure _

theorem refines_rebuildWith (snapshot : Snapshot) {inner? : Option (Inner P)}
    (hinner : ∀ inner, inner? = some inner → ∀ entry, Refines (inMode .lenient) (inner entry))
    (entry : Entry) : Refines (inMode .lenient) (rebuildWith snapshot inner? entry) := by
  have hroom : ∀ {α : Type} (next : Inner P → LoadingM P α),
      (∀ inner, inner? = some inner → Refines (inMode .lenient) (next inner)) →
      Refines (inMode .lenient) (roomFor inner? >>= next) := by
    intro α next hnext
    cases inner? with
    | some inner => exact hnext inner rfl
    | none => exact fun s a s' hrun => nomatch (Prod.mk.inj hrun).1
  cases entry with
  | null => exact refines_pure _
  | bool b => exact refines_pure _
  | int n => exact refines_pure _
  | double x => exact refines_pure _
  | string text => exact refines_pure _
  | reference h => exact refines_ask (fun _ => rfl) fun _ => refines_pure _
  | stub id => exact refines_throw _
  | array items =>
    exact hroom _ fun inner hsome =>
      (refines_rebuildArray (hinner inner hsome) items).bind fun _ => refines_pure _
  | node index =>
    exact hroom _ fun inner hsome => (blind_lift (snapshot.node index)).refines.bind fun node =>
      (refines_rebuildNode (hinner inner hsome) node).bind fun _ => refines_pure _

theorem refines_read (snapshot : Snapshot) (room : Nat) (entry : Entry) :
    Refines (inMode (P := P) .lenient) (read snapshot room entry) := by
  induction room generalizing entry with
  | zero => exact refines_rebuildWith snapshot (by simp) entry
  | succ room ih =>
    refine refines_rebuildWith snapshot (fun inner hsome => ?_) entry
    exact Option.some.inj hsome ▸ ih

/-! ## Whole loads -/

variable {host : Host P}

/-- In lenient mode nothing changes when the mode is set to lenient. -/
theorem inMode_of_lenient {s : Loading P} (h : s.realm.options.strictness = .lenient) :
    inMode .lenient s = s := by
  unfold inMode Realm.inMode
  rw [← h]

/-- An instance is awakened by a call that may fail. In strict mode the failure ends the load; in
lenient mode there is nothing that the modes could differ in. -/
theorem refines_awakenOne (hhost : host.Refines) (h : Handle) :
    Refines (inMode .lenient) (awakenOne host h) := by
  refine refines_ask (fun _ => rfl) fun awake => ?_
  split
  · intro s u s' hrun
    obtain ⟨outcome, s₁, hattempt, hrest⟩ := Realm.exists_of_run_bind hrun
    let call := Id.run ((host.callMethod h awakeName []).run.run s.realm)
    have hcall : call.1 = outcome ∧ { s with realm := call.2 } = s₁ :=
      ⟨Except.ok.inj (Prod.mk.inj hattempt).1, (Prod.mk.inj hattempt).2⟩
    obtain ⟨houtcome, rfl⟩ := hcall
    cases outcome with
    | ok answer =>
      have hlenient := hhost.callMethod h awakeName [] s.realm answer call.2
        (Prod.ext houtcome rfl)
      exact (runs_attempt (s := s.inMode .lenient) hlenient).bind
        ((refines_pure () : Refines (inMode .lenient) (pure () : LoadingM P Unit)) _ u s' hrest)
    | error error =>
      -- the mode after the call is that of before
      have hmode : call.2.options.strictness = s.realm.options.strictness :=
        hhost.operates.callMethod h awakeName [] s.realm
      obtain ⟨hlenient, hreport⟩ := lenient_of_runs (not_runs_throw_bind _ _) hrest
      have hs : s.realm.options.strictness = .lenient := hmode ▸ hlenient
      have hs' : s'.realm.options.strictness = .lenient :=
        (congrArg (fun t : Loading P => t.realm.options.strictness) (Prod.mk.inj hreport).2) ▸ hlenient
      rw [inMode_of_lenient hs, inMode_of_lenient hs']
      exact hrun
  · exact refines_pure ()

theorem refines_awaken (hhost : host.Refines) : Refines (inMode .lenient) (awaken host) := by
  rw [awaken_eq]
  refine refines_get (fun _ => rfl) fun s => Refines.bind (refines_modify fun _ => rfl) fun _ => ?_
  exact refines_forM (refines_awakenOne hhost) _

theorem refines_load (hhost : host.Refines) (s : Snapshot) :
    Refines (inMode .lenient) (load host s) := by
  -- only the limit is taken from the options, and it does not depend on the mode
  have hlimit : ∀ next : Options → LoadingM P Value,
      (∀ options mode, next { options with strictness := mode } = next options) →
      (∀ options, Refines (inMode .lenient) (next options)) →
      Refines (inMode .lenient) (ask Realm.options >>= next) := by
    intro next hsame h t v t' hrun
    have hrun : Runs (next t.realm.options) t v t' := hrun
    show Runs (next (t.inMode .lenient).realm.options) (t.inMode .lenient) v (t'.inMode .lenient)
    rw [show (t.inMode .lenient).realm.options = { t.realm.options with strictness := .lenient }
      from rfl, hsame]
    exact h _ t v t' hrun
  refine hlimit _ (fun _ _ => rfl) fun options => ?_
  refine (refines_read s _ s.root).bind fun root => refines_settleAll.bind fun _ => ?_
  refine refines_renewAll.bind fun _ => (refines_awaken hhost).bind fun _ => ?_
  exact refines_get (fun _ => rfl) fun _ => refines_pure _

end Loading

namespace Host

variable {host : Host P}

theorem unprotectAll_inMode (mode : Strictness) (handles : List Handle) (r : Realm P) :
    (r.inMode mode).unprotectAll handles = (r.unprotectAll handles).inMode mode := by
  induction handles generalizing r with
  | nil => rfl
  | cons h handles ih => exact ih (r.unprotect h).2

theorem refines_load (hhost : host.Refines) (s : Snapshot) (copying : Bool) :
    ScriptBridge.Refines (Realm.inMode .lenient) (host.load s copying) := by
  intro r v r' hrun
  cases hadmitted : !copying && s.holdsLiveObjects with
  | true =>
    unfold Host.load at hrun
    rw [hadmitted, if_pos rfl] at hrun
    cases (Prod.mk.inj hrun).1
  | false =>
    let ran := Id.run ((Loading.load host s).run.run ⟨r, [], .empty, 0, [], [], []⟩)
    have hrun' : Id.run ((host.load s copying).run.run r) =
        (ran.1, ran.2.realm.unprotectAll ran.2.made) := host.run_load hadmitted rfl
    obtain ⟨hanswer, hrealm⟩ := Prod.mk.inj (hrun'.symm.trans hrun)
    -- the protections that are taken down are the same in both modes
    have hlenient := Loading.refines_load hhost s _ v ran.2 (Prod.ext hanswer rfl)
    rw [host.run_load hadmitted hlenient, ← hrealm]
    exact Prod.ext rfl (unprotectAll_inMode .lenient ran.2.made ran.2.realm)

/-- **Strict refines lenient.** A load that succeeds in strict mode gives the same answer in lenient
mode, and the realms that are left behind are the same but for the mode. -/
theorem load_lenient_of_strict (hhost : host.Refines) (s : Snapshot) (copying : Bool)
    {r r' : Realm P} {v : Value}
    (hstrict : Id.run ((host.load s copying).run.run (r.inMode .strict)) = (.ok v, r')) :
    Id.run ((host.load s copying).run.run (r.inMode .lenient)) = (.ok v, r'.inMode .lenient) :=
  refines_load hhost s copying (r.inMode .strict) v r' hstrict

/-- Instances whose calls collect are awakened in the one mode as in the other. -/
theorem load_sleepers_lenient :
    (Scenario.hostWithin false 1).Refines ∧
    Id.run (((Scenario.hostWithin false 1).load .ofSleepers false).run.run
      (Realm.ofSleepers.inMode .strict)) =
        (.ok (.object ⟨1, 0⟩), after ((Scenario.hostWithin false 1).load .ofSleepers false)
          (Realm.ofSleepers.inMode .strict)) ∧
    Id.run (((Scenario.hostWithin false 1).load .ofSleepers false).run.run
      (Realm.ofSleepers.inMode .lenient)) =
        (.ok (.object ⟨1, 0⟩), (after ((Scenario.hostWithin false 1).load .ofSleepers false)
          (Realm.ofSleepers.inMode .strict)).inMode .lenient) := by
  have hhost := Scenario.refines_hostWithin false 1
  have hanswer : (Id.run (((Scenario.hostWithin false 1).load .ofSleepers false).run.run
      (Realm.ofSleepers.inMode .strict))).1 = .ok (.object ⟨1, 0⟩) := by cbv
  have hstrict := Prod.ext (y := (_, after ((Scenario.hostWithin false 1).load .ofSleepers false)
    (Realm.ofSleepers.inMode .strict))) hanswer rfl
  exact ⟨hhost, hstrict, load_lenient_of_strict hhost .ofSleepers false hstrict⟩

end Host

end ScriptBridge
