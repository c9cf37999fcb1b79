import ScriptBridge.Proofs.Snapshot.Building

/-!
# The Course of a Load

What a step of loading does, told by a relation between the states before and after that can be
followed step by step, and by what is known of its answer. `Carries` is about steps that succeed only,
so that nothing has to be said about the states that failing steps leave behind; `Leads` tells what
happens in any case.

Main statements: the rules for single steps, `Carries.bind` and `carries_forM`, `Leads.bind` and
`leads_forM`.
-/

namespace ScriptBridge.Loading

open Realm (after)

variable {P : Platform}

/-- 32 bits tell the slots apart. -/
def Bounded (s : Loading P) : Prop := s.heap.capacity ≤ UInt32.size

/-- Objects have been made and edited, and none is lost. -/
abbrev Gains (s s' : Loading P) : Prop :=
  s.heap.Changes (fun _ => True) (fun _ => True) s'.heap

theorem Bounded.before {s s' : Loading P} (hgains : s.Gains s') (h : s'.Bounded) : s.Bounded :=
  Nat.le_trans hgains.capacity_le h

/-! ## Steps that Succeed -/

/-- If a step succeeds, it leads along a relation, and its answer is as described. -/
def Carries {α : Type} (R : Loading P → Loading P → Prop) (step : LoadingM P α) (s : Loading P)
    (Q : α → Loading P → Prop) : Prop :=
  ∀ answer s', Runs step s answer s' → R s s' ∧ Q answer s'

section

variable {R : Loading P → Loading P → Prop} {α β : Type} {s : Loading P} {Q : α → Loading P → Prop}

theorem carries_throw (error : SnapshotError) : Carries R (throw error) s Q :=
  fun _ _ hrun => nomatch (Prod.mk.inj hrun).1

theorem carries_throw_bind (error : SnapshotError) (next : β → LoadingM P α) :
    Carries R (throw error >>= next) s Q :=
  fun _ _ hrun => nomatch (Prod.mk.inj hrun).1

theorem carries_of_runs {step : LoadingM P α} {answer : α} {s' : Loading P}
    (hrun : Runs step s answer s') (h : R s s') (hq : Q answer s') : Carries R step s Q := by
  intro answer' s'' hrun'
  obtain ⟨hanswer, rfl⟩ := Prod.mk.inj (hrun.symm.trans hrun')
  obtain rfl := Except.ok.inj hanswer
  exact ⟨h, hq⟩

theorem Carries.imp {step : LoadingM P α} {Q' : α → Loading P → Prop} (h : Carries R step s Q)
    (himp : ∀ answer s', R s s' → Q answer s' → Q' answer s') : Carries R step s Q' := by
  intro answer s' hrun
  obtain ⟨hr, hq⟩ := h answer s' hrun
  exact ⟨hr, himp answer s' hr hq⟩

theorem carries_get {next : Loading P → LoadingM P α} (h : Carries R (next s) s Q) :
    Carries R (get >>= next) s Q := h

theorem carries_ask {question : Realm P → β} {next : β → LoadingM P α}
    (h : Carries R (next (question s.realm)) s Q) : Carries R (ask question >>= next) s Q := h

theorem carries_modify {f : Loading P → Loading P} {Q : PUnit → Loading P → Prop} (h : R s (f s))
    (hq : Q ⟨⟩ (f s)) : Carries R (modify f : LoadingM P PUnit) s Q := by
  intro a s' hrun
  obtain rfl : f s = s' := (Prod.mk.inj hrun).2
  exact ⟨h, hq⟩

theorem carries_attempt {action : Action P α} {Q : Except ScriptError α → Loading P → Prop}
    (h : ∀ outcome r, Id.run (action.run.run s.realm) = (outcome, r) →
      R s { s with realm := r } ∧ Q outcome { s with realm := r }) :
    Carries R (attempt action) s Q := by
  intro outcome s' hrun
  let ran := Id.run (action.run.run s.realm)
  obtain ⟨houtcome, hs⟩ := Prod.mk.inj hrun
  obtain rfl : ran.1 = outcome := Except.ok.inj houtcome
  obtain rfl : { s with realm := ran.2 } = s' := hs
  exact h ran.1 ran.2 rfl

theorem carries_perform {action : Action P α}
    (h : ∀ answer r, Id.run (action.run.run s.realm) = (.ok answer, r) →
      R s { s with realm := r } ∧ Q answer { s with realm := r }) :
    Carries R (perform action) s Q := by
  intro answer s' hrun
  obtain ⟨outcome, s₁, hattempt, hrest⟩ := Realm.exists_of_run_bind hrun
  let ran := Id.run (action.run.run s.realm)
  obtain ⟨houtcome, rfl⟩ := Prod.mk.inj hattempt
  obtain rfl : ran.1 = outcome := Except.ok.inj houtcome
  -- an error would have ended the load
  generalize hran : ran.1 = outcome at hrest
  cases outcome with
  | error error => exact nomatch (Prod.mk.inj hrest).1
  | ok a =>
    obtain ⟨ha, rfl⟩ := Prod.mk.inj hrest
    obtain rfl := Except.ok.inj ha
    exact h a ran.2 (Prod.ext hran rfl)

/-- Without room for another container nothing succeeds. -/
theorem carries_roomFor {inner? : Option (Inner P)} {next : Inner P → LoadingM P α}
    (h : ∀ inner, inner? = some inner → Carries R (next inner) s Q) :
    Carries R (roomFor inner? >>= next) s Q := by
  cases inner? with
  | some inner => exact h inner rfl
  | none => exact fun _ _ hrun => nomatch (Prod.mk.inj hrun).1

variable [Course R]

theorem carries_pure {answer : α} (hq : Q answer s) : Carries R (pure answer) s Q := by
  intro a s' hrun
  obtain ⟨ha, hs⟩ := Prod.mk.inj hrun
  obtain rfl := Except.ok.inj ha
  subst hs
  exact ⟨Course.refl _, hq⟩

/-- One step after another. The second one starts with what the first one has left. -/
theorem Carries.bind {step : LoadingM P α} {next : α → LoadingM P β} {Q' : β → Loading P → Prop}
    (h : Carries R step s Q)
    (h' : ∀ answer s', R s s' → Q answer s' → Carries R (next answer) s' Q') :
    Carries R (step >>= next) s Q' := by
  intro b s'' hrun
  obtain ⟨a, s', hstep, hnext⟩ := Realm.exists_of_run_bind hrun
  obtain ⟨hr, hq⟩ := h a s' hstep
  obtain ⟨hr', hq'⟩ := h' a s' hr hq b s'' hnext
  exact ⟨Course.trans hr hr', hq'⟩

theorem carries_discard {step : LoadingM P α} (h : Carries R step s Q) :
    Carries R (discard step) s fun _ s' => ∃ answer, Q answer s' := by
  have hbind : Functor.discard step = step >>= fun _ => pure () := rfl
  rw [hbind]
  exact h.bind fun answer s' _ hq => carries_pure ⟨answer, hq⟩

/-- What is found amiss ends a strict load, and any other passes over it. -/
theorem carries_strictly {error : SnapshotError} {Q : PUnit → Loading P → Prop} (hq : Q ⟨⟩ s) :
    Carries R (do if ← isStrict then throw error) s Q := by
  apply carries_ask
  split
  · exact carries_throw _
  · exact carries_pure hq

theorem carries_findSingleton (name : String) :
    Carries R (findSingleton name) s fun _ _ => True := by
  apply carries_ask
  cases s.realm.singleton? name with
  | some h => exact carries_pure trivial
  | none =>
    apply carries_ask
    split
    · exact carries_throw_bind _ _
    · exact carries_pure trivial

/-- A loop over things that are there from its start on. -/
theorem carries_forM {step : β → LoadingM P PUnit} {xs : List β}
    (hstep : ∀ x ∈ xs, ∀ s', R s s' → Carries R (step x) s' fun _ _ => True) :
    Carries R (xs.forM step) s fun _ _ => True := by
  induction xs generalizing s with
  | nil => exact carries_pure trivial
  | cons x xs ih =>
    refine (hstep x List.mem_cons_self s (Course.refl s)).bind fun _ s₁ hr _ => ?_
    apply ih
    intro y hy s₂ hr'
    exact hstep y (List.mem_cons_of_mem _ hy) s₂ (Course.trans hr hr')

end

/-! ## What Steps Keep -/

instance : Course (Gains (P := P)) where
  refl _ := .refl
  trans h h' := h.trans h'

/-- A step that makes and edits objects keeps something true, as long as 32 bits tell the slots
apart. -/
structure Maintains (I : Loading P → Prop) (s s' : Loading P) : Prop where
  gains : s.Gains s'
  kept : (s.Bounded → I s) → s'.Bounded → I s'

instance (I : Loading P → Prop) : Course (Maintains I) where
  refl _ := ⟨.refl, id⟩
  trans h h' := ⟨h.gains.trans h'.gains, h'.kept ∘ h.kept⟩

/-- What a step keeps is true afterwards. -/
theorem Carries.kept {I : Loading P → Prop} {α : Type} {step : LoadingM P α} {s : Loading P}
    {Q : α → Loading P → Prop} (h : Carries (Maintains I) step s Q) (hs : s.Bounded → I s) :
    Carries Gains step s fun _ s' => s'.Bounded → I s' :=
  fun answer s' hrun => ⟨(h answer s' hrun).1.gains, (h answer s' hrun).1.kept hs⟩

/-! ## Steps that Succeed or Fail -/

/-- Whatever happens in a step, it leads along a relation; and if it succeeds, its answer is as
described. -/
def Leads {α : Type} (R : Loading P → Loading P → Prop) (step : LoadingM P α) (s : Loading P)
    (Q : α → Loading P → Prop) : Prop :=
  R s (after step s) ∧
    ∀ answer, (Id.run (step.run.run s)).1 = .ok answer → Q answer (after step s)

section

variable {R R' : Loading P → Loading P → Prop} {α β : Type} {s : Loading P}
  {Q Q' : α → Loading P → Prop}

theorem Leads.imp {step : LoadingM P α} (h : Leads R step s Q)
    (hrel : ∀ s', R s s' → R' s s') (himp : ∀ answer s', R s s' → Q answer s' → Q' answer s') :
    Leads R' step s Q' :=
  ⟨hrel _ h.1, fun answer hanswer => himp answer _ h.1 (h.2 answer hanswer)⟩

theorem leads_of_runs {step : LoadingM P α} {answer : α} {s' : Loading P}
    (hrun : Runs step s answer s') (h : R s s') (hq : Q answer s') : Leads R step s Q := by
  have hafter : after step s = s' := congrArg Prod.snd hrun
  refine ⟨hafter ▸ h, fun answer' hanswer => ?_⟩
  obtain rfl := Except.ok.inj ((congrArg Prod.fst hrun).symm.trans hanswer)
  exact hafter ▸ hq

theorem leads_get {next : Loading P → LoadingM P α} (h : Leads R (next s) s Q) :
    Leads R (get >>= next) s Q := h

theorem leads_ask {question : Realm P → β} {next : β → LoadingM P α}
    (h : Leads R (next (question s.realm)) s Q) : Leads R (ask question >>= next) s Q := h

theorem leads_modify {f : Loading P → Loading P} {Q : PUnit → Loading P → Prop} (h : R s (f s))
    (hq : Q ⟨⟩ (f s)) : Leads R (modify f : LoadingM P PUnit) s Q :=
  ⟨h, fun _ _ => hq⟩

theorem leads_attempt {action : Action P α} {Q : Except ScriptError α → Loading P → Prop}
    (h : R s { s with realm := after action s.realm })
    (hq : ∀ outcome, Q outcome { s with realm := after action s.realm }) :
    Leads R (attempt action) s Q :=
  ⟨h, fun outcome _ => hq outcome⟩

variable [Course R]

theorem leads_throw (error : SnapshotError) : Leads R (throw error) s Q :=
  ⟨Course.refl s, fun _ hanswer => by cases hanswer⟩

theorem leads_throw_bind (error : SnapshotError) (next : β → LoadingM P α) :
    Leads R (throw error >>= next) s Q :=
  ⟨Course.refl s, fun _ hanswer => by cases hanswer⟩

theorem leads_pure {answer : α} (hq : Q answer s) : Leads R (pure answer) s Q :=
  leads_of_runs (runs_pure answer) (Course.refl s) hq

/-- One step after another. The second one starts with what the first one has left. -/
theorem Leads.bind {step : LoadingM P α} {next : α → LoadingM P β} {Q' : β → Loading P → Prop}
    (h : Leads R step s Q)
    (h' : ∀ answer s', R s s' → Q answer s' → Leads R (next answer) s' Q') :
    Leads R (step >>= next) s Q' := by
  obtain ⟨hr, hq⟩ := h
  unfold Leads after at *
  rw [ExceptT.run_bind, StateT.run_bind]
  cases hrun : step.run.run s with
  | mk outcome s' =>
    rw [hrun] at hr hq
    cases outcome with
    | ok answer =>
      obtain ⟨hr', hq'⟩ := h' answer s' hr (hq answer rfl)
      exact ⟨Course.trans hr hr', hq'⟩
    -- the second step does not take place
    | error error => exact ⟨hr, fun _ hanswer => by cases hanswer⟩

theorem leads_discard {step : LoadingM P α} (h : Leads R step s Q) :
    Leads R (discard step) s fun _ _ => True :=
  show Leads R (step >>= fun _ => pure ()) s fun _ _ => True from
    h.bind fun _ _ _ _ => leads_pure trivial

/-- An action whose errors end the load. -/
theorem leads_perform {action : Action P α} (h : R s { s with realm := after action s.realm }) :
    Leads R (perform action) s fun _ _ => True := by
  refine (leads_attempt (Q := fun _ _ => True) h fun _ => trivial).bind fun outcome s' _ _ => ?_
  cases outcome with
  | ok answer => exact leads_pure trivial
  | error error => exact leads_throw _

/-- Without room for another container a load ends. -/
theorem leads_roomFor {inner? : Option (Inner P)} {next : Inner P → LoadingM P α}
    (h : ∀ inner, inner? = some inner → Leads R (next inner) s Q) :
    Leads R (roomFor inner? >>= next) s Q := by
  cases inner? with
  | some inner => exact h inner rfl
  | none => exact leads_throw_bind _ _

/-- A loop over things that are there from its start on. -/
theorem leads_forM {step : β → LoadingM P PUnit} {xs : List β}
    (hstep : ∀ x ∈ xs, ∀ s', R s s' → Leads R (step x) s' fun _ _ => True) :
    Leads R (xs.forM step) s fun _ _ => True := by
  induction xs generalizing s with
  | nil => exact leads_pure trivial
  | cons x xs ih =>
    refine (hstep x List.mem_cons_self s (Course.refl s)).bind fun _ s₁ hr _ => ?_
    apply ih
    intro y hy s₂ hr'
    exact hstep y (List.mem_cons_of_mem _ hy) s₂ (Course.trans hr hr')

end

end ScriptBridge.Loading
