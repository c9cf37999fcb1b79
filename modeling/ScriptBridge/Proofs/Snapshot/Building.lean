import ScriptBridge.Proofs.Realm.Calls
import ScriptBridge.Proofs.Snapshot.Progress

/-!
# Building

Until a graph is awakened, a load does three things to a realm: it makes an object or an array and
protects it, it makes a function, and it writes into what it has made, each by operations of the
realm. This holds of every snapshot, whether the load succeeds or fails. `Move` says what one of these
does, `Builds` that a step is made of them, and what a run of moves does follows from what one move
does.

Main statements: `Moves.induct`, `builds_build` and `apart_build`.
-/

namespace ScriptBridge.Loading

open Snapshot (Entry)
open Realm (Alters Operational Step after)

variable {P : Platform}

/-! ## Moves -/

/-- The realm, and the objects that have been made and are kept alive. -/
def progress (s : Loading P) : Realm P × List Handle := (s.realm, s.made)

/-- What a load does to a realm before the graph is awakened. -/
inductive Move : Realm P × List Handle → Realm P × List Handle → Prop
  /-- An instance is made and protected, but not one of a singleton class. -/
  | make {r : Realm P} {made : List Handle} {c : ClassNumber} :
      r.registry.Common (.ofForm (r.freshForm c)) →
      Move (r, made)
        ((r.instantiate c).2.protect (r.instantiate c).1, (r.instantiate c).1 :: made)
  /-- A function is made. -/
  | function {r : Realm P} {made : List Handle} (f : FunctionObject P) :
      Step r (r.allocate (.ofForm (.function f))).2 →
      Move (r, made) ((r.allocate (.ofForm (.function f))).2, made)
  /-- Something that has been made is written into. -/
  | write {r r' : Realm P} {made : List Handle} {h : Handle} :
      h ∈ made → Step r r' → Alters (· = h) (fun _ => False) r r' → Move (r, made) (r', made)

/-- A run of moves. -/
abbrev Moves : Realm P × List Handle → Realm P × List Handle → Prop := Relation.ReflTransGen Move

theorem Move.subset {a b : Realm P × List Handle} (h : Move a b) : a.2 ⊆ b.2 := by
  cases h with
  | make => exact List.subset_cons_self _ _
  | function => exact List.Subset.refl _
  | write => exact List.Subset.refl _

/-- What has been made stays among what has been made. -/
theorem Moves.subset {a b : Realm P × List Handle} (h : Moves a b) : a.2 ⊆ b.2 := by
  induction h with
  | refl => exact List.Subset.refl _
  | tail _ hmove ih => exact List.Subset.trans ih hmove.subset

theorem Moves.keeps {s s' : Loading P} (h : Moves s.progress s'.progress) {k : Handle}
    (hk : k ∈ s.made) : k ∈ s'.made :=
  Moves.subset h hk

/-- A move edits nothing but what has been made. -/
theorem Move.changes {a b : Realm P × List Handle} (h : Move a b) :
    a.1.heap.Changes (· ∈ a.2) (fun _ => True) b.1.heap := by
  cases h with
  | @make r _ c => exact (Realm.alters_instantiate (r := r) (c := c) trivial).heap
  | function => exact .single (.allocate trivial)
  | write hh _ halters => exact halters.heap.imp (fun k hk => hk ▸ hh) fun _ hfalse => hfalse.elim

theorem Moves.changes {a b : Realm P × List Handle} (h : Moves a b) :
    a.1.heap.Changes (fun _ => True) (fun _ => True) b.1.heap := by
  induction h with
  | refl => exact .refl
  | tail _ hmove ih => exact ih.trans (hmove.changes.imp (fun _ _ => trivial) fun _ => id)

/-- Each object that is made gets one protection, and no other protection changes. -/
theorem Move.protections {a b : Realm P × List Handle} (h : Move a b) (k : Handle) :
    a.1.protections k + b.2.count k = b.1.protections k + a.2.count k := by
  cases h with
  | @make r made c =>
    have hsame : (r.instantiate c).2.protections k = r.protections k :=
      (Realm.freely_instantiate c r).protections k
    show r.protections k + _ = _ + made.count k
    rw [Realm.protections_protect, hsame, Realm.count_cons]
    omega
  | function f => rfl
  | write hh _ halters => rw [halters.protections]

theorem Moves.protections {a b : Realm P × List Handle} (h : Moves a b) (k : Handle) :
    a.1.protections k + b.2.count k = b.1.protections k + a.2.count k := by
  induction h with
  | refl => rfl
  | tail _ hmove ih =>
    have hlast := hmove.protections k
    omega

/-- A move is made of operations that take no protection down. -/
theorem Move.operates {R : Realm P → Realm P → Prop} [Operational R] {a b : Realm P × List Handle}
    (h : Move a b) : R a.1 b.1 := by
  cases h with
  | @make r made c =>
    have hmade : R r (r.instantiate c).2 :=
      Operational.freely (.instantiate c r) (Realm.freely_instantiate c r)
    refine Course.trans hmade (Operational.step (.protect _ _) fun k => ?_)
    rw [Realm.protections_protect]
    exact Nat.le_add_right _ _
  | @function r made f hstep => exact Operational.freely hstep (Realm.alters_allocate trivial r)
  | write _ hstep halters =>
    exact Operational.step hstep fun k => Nat.le_of_eq (halters.protections k).symm

theorem Moves.operates {R : Realm P → Realm P → Prop} [Operational R] {a b : Realm P × List Handle}
    (h : Moves a b) : R a.1 b.1 := by
  induction h with
  | refl => exact Course.refl _
  | tail _ hmove ih => exact Course.trans ih hmove.operates

/-- What each move keeps, as long as 32 bits tell the slots apart, is kept by a run of them. -/
theorem Moves.induct {I : Realm P → List Handle → Prop} {a b : Realm P × List Handle} (h : Moves a b)
    (hwf : a.1.heap.WellFormed) (hbound : b.1.heap.capacity ≤ UInt32.size) (hstart : I a.1 a.2)
    (hstep : ∀ a b, Move a b → a.1.heap.WellFormed → b.1.heap.capacity ≤ UInt32.size →
      I a.1 a.2 → I b.1 b.2) :
    b.1.heap.WellFormed ∧ I b.1 b.2 := by
  induction h with
  | refl => exact ⟨hwf, hstart⟩
  | tail _ hmove ih =>
    obtain ⟨hwf', hI⟩ := ih (Nat.le_trans hmove.changes.capacity_le hbound)
    exact ⟨hmove.changes.wellFormed hwf' hbound, hstep _ _ hmove hwf' hbound hI⟩

/-! ## Steps that are Made of Moves -/

/-- Everything that waits, and every property that is to be written again, is part of an object that
has been made. -/
structure Owned (s : Loading P) : Prop where
  waiting : ∀ id places, (id, places) ∈ s.waiting.entries → ∀ p ∈ places, p.owner ∈ s.made
  renewals : ∀ renewal ∈ s.renewals, renewal.1 ∈ s.made

/-- Whatever happens in a step, it is made of moves; and if it succeeds, its answer is as described. -/
def Builds {α : Type} (step : LoadingM P α) (s : Loading P) (Q : α → Loading P → Prop) : Prop :=
  Moves s.progress (after step s).progress ∧ Owned (after step s) ∧
    ∀ answer, (Id.run (step.run.run s)).1 = .ok answer → Q answer (after step s)

section

variable {α β : Type} {s : Loading P} {Q : α → Loading P → Prop}

theorem builds_pure (hs : Owned s) {answer : α} (hq : Q answer s) :
    Builds (pure answer : LoadingM P α) s Q :=
  ⟨.refl, hs, fun _ heq => Except.ok.inj heq ▸ hq⟩

theorem builds_throw (hs : Owned s) (error : SnapshotError) :
    Builds (throw error : LoadingM P α) s Q :=
  ⟨.refl, hs, fun _ heq => by cases heq⟩

/-- One step after another. The second one starts with what the first one has left. -/
theorem Builds.bind {step : LoadingM P α} {next : α → LoadingM P β} {Q' : β → Loading P → Prop}
    (h : Builds step s Q)
    (h' : ∀ answer s', Moves s.progress s'.progress → Owned s' → Q answer s' →
      Builds (next answer) s' Q') : Builds (step >>= next) s Q' := by
  obtain ⟨hmoves, hs', hanswer⟩ := h
  unfold Builds after at *
  rw [ExceptT.run_bind, StateT.run_bind]
  cases hrun : step.run.run s with
  | mk outcome s' =>
    rw [hrun] at hmoves hs' hanswer
    cases outcome with
    | ok answer =>
      obtain ⟨hmoves', hs'', hanswer'⟩ := h' answer s' hmoves hs' (hanswer answer rfl)
      exact ⟨hmoves.trans hmoves', hs'', hanswer'⟩
    -- the second step does not take place
    | error error => exact ⟨hmoves, hs', fun _ heq => by cases heq⟩

theorem builds_get {next : Loading P → LoadingM P α} (h : Builds (next s) s Q) :
    Builds (get >>= next) s Q := h

theorem builds_ask {question : Realm P → β} {next : β → LoadingM P α}
    (h : Builds (next (question s.realm)) s Q) : Builds (ask question >>= next) s Q := h

theorem builds_modify {f : Loading P → Loading P} {Q : PUnit → Loading P → Prop}
    (hmoves : Moves s.progress (f s).progress) (hs : Owned (f s)) (hq : Q ⟨⟩ (f s)) :
    Builds (modify f : LoadingM P PUnit) s Q :=
  ⟨hmoves, hs, fun _ _ => hq⟩

/-- A loop over things that are there from its start on. -/
theorem builds_forM {step : β → LoadingM P PUnit} {xs : List β} (hs : Owned s)
    (hstep : ∀ x ∈ xs, ∀ s', Moves s.progress s'.progress → Owned s' →
      Builds (step x) s' fun _ _ => True) : Builds (xs.forM step) s fun _ _ => True := by
  induction xs generalizing s with
  | nil => exact builds_pure hs trivial
  | cons x xs ih =>
    refine (hstep x List.mem_cons_self s .refl hs).bind fun _ s₁ hmoves hs₁ _ => ?_
    apply ih hs₁
    intro y hy s₂ hmoves' hs₂
    exact hstep y (List.mem_cons_of_mem _ hy) s₂ (hmoves.trans hmoves') hs₂

/-- An action that writes into something that has been made. -/
theorem builds_attempt {action : Action P α} {h : Handle} (hs : Owned s) (hh : h ∈ s.made)
    (hstep : Step s.realm (after action s.realm))
    (halters : Alters (· = h) (fun _ => False) s.realm (after action s.realm)) :
    Builds (attempt action) s fun _ _ => True :=
  ⟨.single (.write hh hstep halters), ⟨hs.waiting, hs.renewals⟩, fun _ _ => trivial⟩

theorem builds_discard {step : LoadingM P α} (h : Builds step s Q) :
    Builds (discard step) s fun _ _ => True :=
  show Builds (step >>= fun _ => pure ()) s fun _ _ => True from
    h.bind fun _ _ _ hs' _ => builds_pure hs' trivial

/-- An action that writes into something that has been made, and whose errors end the load. -/
theorem builds_perform {action : Action P α} {h : Handle} (hs : Owned s) (hh : h ∈ s.made)
    (hstep : Step s.realm (after action s.realm))
    (halters : Alters (· = h) (fun _ => False) s.realm (after action s.realm)) :
    Builds (perform action) s fun _ _ => True := by
  refine (builds_attempt hs hh hstep halters).bind fun outcome s' _ hs' _ => ?_
  cases outcome with
  | ok answer => exact builds_pure hs' trivial
  | error error => exact builds_throw hs' _

end

/-! ## Writes -/

section

variable {s : Loading P} {h : Handle} {value : Value}

theorem builds_putProperty (hs : Owned s) (hh : h ∈ s.made) (name : String)
    (hvalue : value.isInline = false) :
    Builds (attempt (Realm.putProperty h name value true)) s fun _ _ => True :=
  builds_attempt hs hh (.putProperty h name value true s.realm)
    (Realm.alters_putProperty (by rfl) name (Or.inl hvalue) true s.realm)

theorem builds_write (hs : Owned s) (hh : h ∈ s.made) (name : String)
    (hvalue : value.isInline = false) : Builds (write h name value) s fun _ _ => True := by
  refine (builds_putProperty hs hh name hvalue).bind fun outcome s' _ hs' _ => ?_
  cases outcome with
  | ok answer => exact builds_pure hs' trivial
  | error error =>
    apply builds_ask
    split
    · exact builds_throw hs' _
    · exact builds_pure hs' trivial

theorem builds_assignElement (hs : Owned s) (hh : h ∈ s.made) (index : Nat)
    (hvalue : value.isInline = false) :
    Builds (discard (perform (Realm.assignElement h index value))) s fun _ _ => True :=
  builds_discard (builds_perform hs hh (.assignElement h index value s.realm)
    (Realm.alters_assignElement (by rfl) index (Or.inl hvalue) s.realm))

theorem builds_await (hs : Owned s) (id : String) (place : Place) (hplace : place.owner ∈ s.made) :
    Builds (await id place) s fun _ _ => True := by
  refine builds_modify .refl ⟨?_, hs.renewals⟩ trivial
  intro other places hentry p hp
  rcases Table.mem_entries_insert hentry with heq | hentry
  · obtain ⟨-, rfl⟩ := Prod.mk.inj heq
    rcases List.mem_append.1 hp with hp | hp
    · cases hfound : s.waiting.find? id with
      | none => simp [hfound] at hp
      | some before =>
        rw [hfound] at hp
        exact hs.waiting id before (Table.find?_eq_some_iff.1 hfound) p hp
    · rw [List.mem_singleton.1 hp]
      exact hplace
  · exact hs.waiting other places hentry p hp

theorem builds_settle (hs : Owned s) (target : Handle) {place : Place}
    (hplace : place.owner ∈ s.made) : Builds (settle target place) s fun _ _ => True := by
  cases place with
  | property owner name => exact builds_write hs hplace name rfl
  | item array index => exact builds_assignElement hs hplace index rfl

theorem builds_announce (hs : Owned s) (id : String) (target : Handle) :
    Builds (announce id target) s fun _ _ => True := by
  have hplaces : ∀ p ∈ (s.waiting.find? id).getD [], p.owner ∈ s.made := by
    intro p hp
    cases hfound : s.waiting.find? id with
    | none => simp [hfound] at hp
    | some places =>
      rw [hfound] at hp
      exact hs.waiting id places (Table.find?_eq_some_iff.1 hfound) p hp
  apply builds_get
  refine Builds.bind (Q := fun _ s' => s'.made = s.made) ?_ fun _ s' hmoves hs' hmade => ?_
  · refine builds_modify .refl ⟨?_, hs.renewals⟩ rfl
    intro other places hentry
    exact hs.waiting other places (List.mem_filter.1 hentry).1
  · apply builds_forM hs'
    intro p hp s'' hmoves' hs''
    exact builds_settle hs'' target (Moves.keeps hmoves' (hmade ▸ hplaces p hp))

theorem builds_settleAll (hs : Owned s) : Builds settleAll s fun _ _ => True := by
  apply builds_get
  refine Builds.bind (Q := fun _ s' => s'.made = s.made) ?_ fun _ s' hmoves hs' hmade => ?_
  · refine builds_modify .refl ⟨?_, hs.renewals⟩ rfl
    intro other places hentry
    simp [Table.empty] at hentry
  · apply builds_forM hs'
    rintro ⟨id, places⟩ hentry s'' hmoves' hs''
    apply builds_get
    cases s''.built.lookup id with
    | some target =>
      apply builds_forM hs''
      intro p hp s₃ hmoves'' hs₃
      have hp' := hs.waiting id places hentry p hp
      exact builds_settle hs₃ target (Moves.keeps (hmoves'.trans hmoves'') (hmade ▸ hp'))
    | none =>
      apply builds_ask
      split
      · exact builds_throw hs'' _
      · exact builds_pure hs'' trivial

theorem builds_renewAll (hs : Owned s) : Builds renewAll s fun _ _ => True := by
  apply builds_get
  refine Builds.bind (Q := fun _ s' => s'.made = s.made) ?_ fun _ s' hmoves hs' hmade => ?_
  · exact builds_modify .refl ⟨hs.waiting, by simp⟩ rfl
  · apply builds_forM hs'
    rintro ⟨owner, name, array⟩ hrenewal s'' hmoves' hs''
    have howner := hs.renewals _ hrenewal
    exact builds_write hs'' (Moves.keeps hmoves' (hmade ▸ howner)) name rfl

end

/-! ## Reading -/

section

variable {α : Type} {s : Loading P} {Q : α → Loading P → Prop}

/-- The state after an instance has been made and protected. -/
def withNew (s : Loading P) (c : ClassNumber) (sleepers : List Handle) : Loading P :=
  { s with
    realm := (s.realm.instantiate c).2.protect (s.realm.instantiate c).1
    sleepers
    made := (s.realm.instantiate c).1 :: s.made }

/-- A new instance is protected at once, so making it and protecting it count as one move. -/
theorem builds_of_runs_withNew {step : LoadingM P Handle} {c : ClassNumber} {sleepers : List Handle}
    (hs : Owned s) (hcommon : s.realm.registry.Common (.ofForm (s.realm.freshForm c)))
    (hrun : Runs step s (s.realm.instantiate c).1 (s.withNew c sleepers)) :
    Builds step s fun h s' => h ∈ s'.made := by
  unfold Runs at hrun
  unfold Builds after
  rw [hrun]
  refine ⟨.single (.make hcommon), ⟨?_, ?_⟩, ?_⟩
  · exact fun id places hentry p hp => List.mem_cons_of_mem _ (hs.waiting id places hentry p hp)
  · exact fun renewal hrenewal => List.mem_cons_of_mem _ (hs.renewals renewal hrenewal)
  · exact fun answer heq => Except.ok.inj heq ▸ List.mem_cons_self

/-- The class of which an instance is made for a class name. Without one, and in lenient mode with one
that is not known, the object is plain. -/
def classFor (r : Realm P) (className : Option String) : ClassNumber :=
  (className.bind r.registry.lookup?).getD .object

/-- The instances that are to be awakened after one has been made for a class name: a new one is
noted unless its class is built in. -/
def sleepersWith (s : Loading P) (className : Option String) : List Handle :=
  if (className.bind s.realm.registry.registered?).any fun d => !d.outline.builtin then
    (s.realm.instantiate (classFor s.realm className)).1 :: s.sleepers
  else s.sleepers

/-- An instance of the class of a node is made, or in strict mode the class is not known. -/
theorem make_cases (className : Option String) (s : Loading P) :
    (s.realm.options.strictness = .strict ∧
      ∃ error, Id.run ((make className).run.run s) = (.error error, s)) ∨
    Runs (make className) s (s.realm.instantiate (classFor s.realm className)).1
      (s.withNew (classFor s.realm className) (s.sleepersWith className)) := by
  have hmade : ∀ c, Runs (perform (modifyGet (Realm.instantiate c))) s (s.realm.instantiate c).1
      { s with realm := (s.realm.instantiate c).2 } := fun c => runs_perform rfl
  have hplain : Runs (perform (modifyGet Realm.newObject) >>= fun h => keepAlive h >>= fun _ => pure h)
      s (s.realm.instantiate .object).1 (s.withNew .object s.sleepers) :=
    (hmade .object).bind ((runs_keepAlive _).bind (runs_pure _))
  cases className with
  | none => exact Or.inr hplain
  | some name =>
    unfold make classFor sleepersWith classFor Registry.registered?
    simp only [Option.bind_some]
    cases hclass : s.realm.registry.lookup? name with
    | some c =>
      right
      simp only [Option.bind_some, Option.getD_some]
      -- an instance that is to be awakened is noted before it is protected
      by_cases hsleeps : ((s.realm.registry.get? c).any fun d => !d.outline.builtin) = true
      · refine (runs_ask _).bind ?_
        simp only [hclass, hsleeps, if_true]
        exact (hmade c).bind ((runs_modify _).bind ((runs_pure _).bind
          ((runs_keepAlive _).bind (runs_pure _))))
      · refine (runs_ask _).bind ?_
        simp only [hclass, hsleeps]
        exact (hmade c).bind ((runs_pure _).bind ((runs_keepAlive _).bind (runs_pure _)))
    | none =>
      have hask : Runs isStrict s (s.realm.options.strictness == .strict) s := runs_ask _
      cases hstrict : s.realm.options.strictness == .strict with
      | true =>
        left
        rw [hstrict] at hask
        refine ⟨eq_of_beq hstrict, .script (.unknownClass name), ?_⟩
        rw [Realm.run_bind_of_ok (runs_ask (s := s) Realm.registry)]
        simp only [hclass]
        rw [Realm.run_bind_of_ok hask]
        rfl
      | false =>
        right
        rw [hstrict] at hask
        refine (runs_ask _).bind ?_
        simp only [hclass]
        exact hask.bind hplain

theorem builds_make (hs : Owned s) {className : Option String}
    (hcommon : s.realm.registry.Common
      (.ofForm (s.realm.freshForm (classFor s.realm className)))) :
    Builds (make className) s fun h s' => h ∈ s'.made := by
  obtain ⟨-, error, hrun⟩ | hrun := make_cases className s
  · unfold Builds after
    rw [hrun]
    exact ⟨.refl, hs, fun _ heq => by cases heq⟩
  · exact builds_of_runs_withNew hs hcommon hrun

/-- Makes an empty array that is kept alive. -/
def makeArray : LoadingM P Handle := do
  let array ← perform (modifyGet (Realm.newArray []))
  keepAlive array
  return array

theorem builds_makeArray (hs : Owned s) : Builds makeArray s fun h s' => h ∈ s'.made :=
  have hrun : Runs makeArray s (s.realm.instantiate .array).1 (s.withNew .array s.sleepers) :=
    runs_newArray.bind ((runs_keepAlive _).bind (runs_pure _))
  builds_of_runs_withNew hs (Registry.common_of_class? rfl) hrun

/-- What a node makes is no instance of a singleton class, unless its class is one. -/
theorem common_of_singletonName? {r : Realm P} {node : Snapshot.Node}
    (h : singletonName? r node = none) :
    r.registry.Common (.ofForm (r.freshForm (classFor r node.className))) := by
  unfold singletonName? at h
  unfold classFor
  cases hname : node.className with
  | none => exact Registry.common_of_class? rfl
  | some name =>
    rw [hname, Option.filter_some] at h
    rw [Option.bind_some]
    cases hclass : r.registry.lookup? name with
    | none => exact Registry.common_of_class? rfl
    | some c =>
      rw [Option.getD_some]
      refine Realm.common_freshForm hclass fun hsingle => ?_
      have hregistered : r.registry.registered? name = r.registry.get? c := by
        rw [Registry.registered?, hclass, Option.bind_some]
      rw [hregistered, if_pos hsingle] at h
      cases h

theorem singletonName?_congr {r r' : Realm P} (h : r'.registry = r.registry) (node : Snapshot.Node) :
    singletonName? r' node = singletonName? r node := by
  unfold singletonName?
  rw [h]

theorem rebuildArray_eq (inner : Inner P) (items : List Entry) :
    rebuildArray inner items =
      makeArray >>= fun array => rebuildItems inner array 0 items >>= fun _ => pure array := by
  simp only [rebuildArray, makeArray, bind_assoc, pure_bind]

theorem builds_findSingleton (hs : Owned s) (name : String) :
    Builds (findSingleton name) s fun _ _ => True := by
  apply builds_ask
  cases s.realm.singleton? name with
  | some h => exact builds_pure hs trivial
  | none =>
    apply builds_ask
    split
    · exact builds_throw hs _
    · exact builds_pure hs trivial

theorem builds_newFunction (hs : Owned s) (name : String) (body : FunctionBody P) :
    Builds (perform (modifyGet (Realm.newFunction name body))) s fun _ _ => True :=
  ⟨.single (.function _ (.newFunction name body s.realm)), ⟨hs.waiting, hs.renewals⟩, fun _ _ => trivial⟩

/-- What is read inside of an entry, wherever the load has come to by then. -/
def BuildsInside (inner : Inner P) : Prop :=
  ∀ entry s, Owned s → Builds (inner entry) s fun v _ => v.isInline = false

theorem builds_restoreEntry {inner : Inner P} (hinner : BuildsInside inner) (hs : Owned s)
    {h : Handle} (hh : h ∈ s.made) (key : String) (entry : Entry) :
    Builds (restoreEntry inner h key entry) s fun _ _ => True := by
  unfold restoreEntry
  split
  · refine (builds_newFunction hs _ _).bind fun f s' hmoves hs' _ => ?_
    exact builds_write hs' (Moves.keeps hmoves hh) _ rfl
  -- the place of a stub belongs to the object that is being filled
  · refine (builds_await hs _ (.property h key) hh).bind fun _ s' hmoves hs' _ => ?_
    exact builds_discard (builds_putProperty hs' (Moves.keeps hmoves hh) _ rfl)
  · apply builds_get
    refine (hinner _ s hs).bind fun value s' hmoves hs' hvalue => ?_
    have hh' := Moves.keeps hmoves hh
    dsimp only
    split
    · apply builds_get
      split
      -- an array that waits for a node is noted with its property, which is written once more
      · refine Builds.bind (Q := fun _ s'' => h ∈ s''.made) ?_ fun _ s'' _ hs'' hh'' =>
          builds_write hs'' hh'' key rfl
        refine builds_modify .refl ⟨hs'.waiting, ?_⟩ hh'
        intro renewal hrenewal
        rcases List.mem_append.1 hrenewal with hrenewal | hrenewal
        · exact hs'.renewals renewal hrenewal
        · rw [List.mem_singleton.1 hrenewal]
          exact hh'
      · exact builds_write hs' hh' key rfl
    · exact builds_write hs' hh' key hvalue

theorem builds_rebuildNode {inner : Inner P} (hinner : BuildsInside inner) (hs : Owned s)
    (node : Snapshot.Node) : Builds (rebuildNode inner node) s fun _ _ => True := by
  apply builds_ask
  cases hnode : singletonName? s.realm node with
  | some name =>
    refine (builds_findSingleton hs name).bind fun found s' _ hs' _ => ?_
    cases found with
    | none => exact builds_pure hs' trivial
    -- the entries of a singleton are left out, but stubs may stand for it
    | some h =>
      dsimp only
      split
      · refine (builds_announce hs' _ h).bind fun _ s'' _ hs'' _ => builds_pure hs'' trivial
      · exact builds_pure hs' trivial
  | none =>
    refine (builds_make hs (common_of_singletonName? hnode)).bind fun h s' _ hs' hh => ?_
    -- the entries are restored whether or not the node carries an identifier
    have hentries : ∀ s'', Owned s'' → h ∈ s''.made →
        Builds ((ask fun r => inPhases r (r.classOf? h) node.entries) >>= fun entries =>
          (entries.forM fun entry => restoreEntry inner h entry.1 entry.2) >>= fun _ =>
            pure (some h)) s'' fun _ _ => True := by
      intro s'' hs'' hh''
      apply builds_ask
      refine (builds_forM hs'' ?_).bind fun _ s₃ _ hs₃ _ => builds_pure hs₃ trivial
      intro entry _ s₃ hmoves hs₃
      exact builds_restoreEntry hinner hs₃ (Moves.keeps hmoves hh'') entry.1 entry.2
    dsimp only
    split
    · refine (builds_announce hs' _ h).bind fun _ s'' hmoves hs'' _ => ?_
      exact hentries s'' hs'' (Moves.keeps hmoves hh)
    · exact hentries s' hs' hh

theorem builds_rebuildItems {inner : Inner P} (hinner : BuildsInside inner) (hs : Owned s)
    {array : Handle} (harray : array ∈ s.made) (index : Nat) (items : List Entry) :
    Builds (rebuildItems inner array index items) s fun _ _ => True := by
  induction items generalizing s index with
  | nil => exact builds_pure hs trivial
  | cons item items ih =>
    have hrest : ∀ value s', Owned s' → array ∈ s'.made → value.isInline = false →
        Builds (discard (perform (Realm.assignElement array index value)) >>=
          fun _ => rebuildItems inner array (index + 1) items) s' fun _ _ => True := by
      intro value s' hs' harray' hvalue
      refine (builds_assignElement hs' harray' index hvalue).bind fun _ s'' hmoves hs'' _ => ?_
      exact ih hs'' (Moves.keeps hmoves harray') (index + 1)
    unfold rebuildItems
    dsimp only
    split
    · refine (builds_await hs _ (.item array index) harray).bind fun _ s' hmoves hs' _ => ?_
      exact hrest _ s' hs' (Moves.keeps hmoves harray) rfl
    · refine (hinner item s hs).bind fun value s' hmoves hs' hvalue => ?_
      exact hrest value s' hs' (Moves.keeps hmoves harray) hvalue

theorem builds_rebuildArray {inner : Inner P} (hinner : BuildsInside inner) (hs : Owned s)
    (items : List Entry) : Builds (rebuildArray inner items) s fun _ _ => True := by
  rw [rebuildArray_eq]
  refine (builds_makeArray hs).bind fun array s' _ hs' harray => ?_
  refine (builds_rebuildItems hinner hs' harray 0 items).bind fun _ s'' _ hs'' _ => ?_
  exact builds_pure hs'' trivial

theorem isInline_ofObject? (h? : Option Handle) : (Value.ofObject? h?).isInline = false := by
  cases h? <;> rfl

theorem isInline_intValue (n : Int64) : (intValue n).isInline = false := by
  unfold intValue
  split <;> rfl

theorem intValue_ne_object (n : Int64) (a : Handle) : intValue n ≠ .object a := by
  unfold intValue
  split <;> exact nofun

theorem buildsInside_rebuildWith (snapshot : Snapshot) {inner? : Option (Inner P)}
    (hinner : ∀ inner, inner? = some inner → BuildsInside inner) :
    BuildsInside (rebuildWith snapshot inner?) := by
  intro entry s hs
  -- without room the load ends before anything is built
  have hroom : ∀ {α : Type} {Q : α → Loading P → Prop} (next : Inner P → LoadingM P α),
      (∀ inner, inner? = some inner → Builds (next inner) s Q) →
      Builds (roomFor inner? >>= next) s Q := by
    intro α Q next hnext
    cases inner? with
    | some inner => exact hnext inner rfl
    | none => exact ⟨.refl, hs, fun _ heq => by cases heq⟩
  cases entry with
  | null => exact builds_pure hs rfl
  | bool b => exact builds_pure hs rfl
  | int n => exact builds_pure hs (isInline_intValue n)
  | double x => exact builds_pure hs rfl
  | string text => exact builds_pure hs rfl
  | reference h =>
    apply builds_ask
    split
    · exact builds_pure hs rfl
    · exact builds_pure hs rfl
  | stub id => exact builds_throw hs _
  | array items =>
    refine hroom _ fun inner hsome => ?_
    refine (builds_rebuildArray (hinner inner hsome) hs items).bind fun _ s' _ hs' _ => ?_
    exact builds_pure hs' rfl
  | node index =>
    refine hroom _ fun inner hsome => ?_
    cases snapshot.node index with
    | error error => exact builds_throw hs error
    | ok node =>
      refine Builds.bind (Q := fun found s' => found = node ∧ s' = s) (builds_pure hs ⟨rfl, rfl⟩) ?_
      rintro _ _ - - ⟨rfl, rfl⟩
      refine (builds_rebuildNode (hinner inner hsome) hs _).bind fun h? s' _ hs' _ => ?_
      exact builds_pure hs' (isInline_ofObject? h?)

theorem buildsInside_read (snapshot : Snapshot) (room : Nat) :
    BuildsInside (read (P := P) snapshot room) := by
  -- by the room that is left for nesting
  induction room with
  | zero => exact buildsInside_rebuildWith snapshot (by simp)
  | succ room ih =>
    refine buildsInside_rebuildWith snapshot ?_
    intro inner hsome
    exact Option.some.inj hsome ▸ ih

end

/-! ## The Parts of a Load -/

/-- Before anything has been read. -/
def start (r : Realm P) : Loading P := ⟨r, [], .empty, 0, [], [], []⟩

/-- Builds the graph of a snapshot. -/
def build (s : Snapshot) : LoadingM P Value := do
  let root ← read s (← ask Realm.options).depthLimit s.root
  settleAll
  renewAll
  return root

theorem load_eq (host : Host P) (s : Snapshot) :
    load host s = build s >>= fun root => awaken host >>= fun _ => ask (·.expand root) := by
  simp only [load, build, bind_assoc, pure_bind]

theorem owned_start (r : Realm P) : Owned (start r) :=
  ⟨fun id places hentry => by simp [start, Table.empty] at hentry,
    fun renewal hrenewal => by simp [start] at hrenewal⟩

/-- A graph is built by moves, wherever that ends. -/
theorem builds_build (s : Snapshot) (r : Realm P) :
    Builds (build s) (start r) fun v _ => v.isInline = false := by
  apply builds_ask
  refine (buildsInside_read s _ s.root _ (owned_start r)).bind fun root s₁ _ hs₁ hroot => ?_
  refine (builds_settleAll hs₁).bind fun _ s₂ _ hs₂ _ => ?_
  refine (builds_renewAll hs₂).bind fun _ s₃ _ hs₃ _ => ?_
  exact builds_pure hs₃ hroot

/-! ## What Has Been Built -/

/-- A realm in which objects have been made beside what was there before. -/
structure Apart (old r : Realm P) (made : List Handle) : Prop where
  /-- No handle is given out twice. -/
  fresh : ∀ h ∈ made, ¬ old.heap.Issued h
  /-- The handles that had been given out before lead to what they led to. -/
  issued : ∀ h, old.heap.Issued h → r.heap.Issued h ∧ r.heap.get? h = old.heap.get? h
  /-- What has been made are the objects that are new, apart from functions. -/
  made_iff : ∀ h, h ∈ made ↔ old.heap.get? h = none ∧ r.heap.HasObject h

theorem Apart.start (r : Realm P) : Apart r r [] where
  fresh h hh := by simp at hh
  issued h hh := ⟨hh, rfl⟩
  made_iff h := by
    constructor
    · intro hh
      simp at hh
    · rintro ⟨hnone, object, hobject, -⟩
      rw [hnone] at hobject
      cases hobject

section

variable {old r r' : Realm P} {made : List Handle}

/-- A new handle had not been given out before, and leads to the new object. -/
theorem Apart.allocate (h : Apart old r made) (hwf : r.heap.WellFormed) (object : ScriptObject P)
    (hbound : (r.heap.allocate object).2.capacity ≤ UInt32.size) :
    ¬ old.heap.Issued (r.heap.allocate object).1 ∧
    ∀ k, (r.heap.allocate object).2.get? k =
      if k = (r.heap.allocate object).1 then some object else r.heap.get? k := by
  have hroom := Heap.hasRoom_of_capacity_allocate hwf hbound
  refine ⟨fun hk => ?_, hwf.get?_allocate hroom object⟩
  exact hwf.not_issued_allocate hroom object (h.issued _ hk).1

/-- What is edited has been made, so a change is not noticed by the handles from before. -/
theorem Apart.issued_changes (h : Apart old r made)
    (hchanges : r.heap.Changes (· ∈ made) (fun _ => True) r'.heap) (hwf : r.heap.WellFormed)
    (hbound : r'.heap.capacity ≤ UInt32.size) (k : Handle) (hk : old.heap.Issued k) :
    r'.heap.Issued k ∧ r'.heap.get? k = old.heap.get? k := by
  obtain ⟨hissued, hget⟩ := h.issued k hk
  obtain ⟨hissued', hget'⟩ :=
    hchanges.get?_of_issued hwf hbound hissued fun hmade => h.fresh k hmade hk
  exact ⟨hissued', hget'.trans hget⟩

theorem Apart.make (h : Apart old r made) (hwf : r.heap.WellFormed) {c : ClassNumber}
    (hbound : (r.instantiate c).2.heap.capacity ≤ UInt32.size) :
    Apart old ((r.instantiate c).2.protect (r.instantiate c).1) ((r.instantiate c).1 :: made) := by
  have hobject := r.function?_freshForm c
  rw [Realm.instantiate_eq] at hbound ⊢
  generalize ScriptObject.ofForm (r.freshForm c) = object at hobject hbound ⊢
  obtain ⟨hfresh, hget⟩ := h.allocate hwf object hbound
  -- a handle that has not been given out leads nowhere
  have hdead : old.heap.get? (r.heap.allocate object).1 = none := by
    rw [Option.eq_none_iff_forall_ne_some]
    exact fun other hother => hfresh (Heap.issued_of_get? hother)
  refine ⟨?_, h.issued_changes (.single (.allocate trivial)) hwf hbound, fun k => ?_⟩
  · intro k hk
    rcases List.mem_cons.1 hk with rfl | hk
    · exact hfresh
    · exact h.fresh k hk
  · have hhere : k ∈ (r.allocate object).1 :: made ↔ k = (r.heap.allocate object).1 ∨ k ∈ made :=
      List.mem_cons
    show _ ↔ _ ∧ ∃ other, (r.heap.allocate object).2.get? k = some other ∧ other.function? = none
    rw [hhere, hget, h.made_iff]
    by_cases hk : k = (r.heap.allocate object).1
    · subst hk
      simp [hdead, hobject]
    · simp [hk, Heap.HasObject]

theorem Apart.function (h : Apart old r made) (hwf : r.heap.WellFormed) {object : ScriptObject P}
    (hobject : object.function? ≠ none)
    (hbound : (r.heap.allocate object).2.capacity ≤ UInt32.size) :
    Apart old (r.allocate object).2 made := by
  obtain ⟨hfresh, hget⟩ := h.allocate hwf object hbound
  refine ⟨h.fresh, h.issued_changes (.single (.allocate trivial)) hwf hbound, fun k => ?_⟩
  show _ ↔ _ ∧ ∃ other, (r.heap.allocate object).2.get? k = some other ∧ other.function? = none
  rw [hget, h.made_iff]
  by_cases hk : k = (r.heap.allocate object).1
  -- the new handle leads to a function, and led nowhere before
  · subst hk
    have hbefore : r.heap.get? (r.heap.allocate object).1 = none :=
      Heap.contains_eq_false_iff.1
        (Heap.contains_before_allocate hwf (Heap.hasRoom_of_capacity_allocate hwf hbound) object)
    simp [Heap.HasObject, hbefore, hobject]
  · simp [hk, Heap.HasObject]

theorem Apart.write (h : Apart old r made) (hwf : r.heap.WellFormed) {target : Handle}
    (htarget : target ∈ made) (halters : Alters (· = target) (fun _ => False) r r')
    (hbound : r'.heap.capacity ≤ UInt32.size) : Apart old r' made := by
  have hchanges : Heap.Changes (· ∈ made) (fun _ => True) r.heap r'.heap :=
    halters.heap.imp (fun k hk => hk ▸ htarget) fun _ hfalse => hfalse.elim
  refine ⟨h.fresh, h.issued_changes hchanges hwf hbound, fun k => ?_⟩
  rw [h.made_iff, Heap.hasObject_congr (halters.heap.nature?_eq hwf hbound k)]

/-- One case for each kind of move. -/
theorem Apart.move {a b : Realm P × List Handle} (h : Apart old a.1 a.2) (hmove : Move a b)
    (hwf : a.1.heap.WellFormed) (hbound : b.1.heap.capacity ≤ UInt32.size) :
    Apart old b.1 b.2 := by
  cases hmove with
  | make => exact h.make hwf hbound
  | function f _ => exact h.function hwf (Option.some_ne_none f) hbound
  | write htarget _ halters => exact h.write hwf htarget halters hbound

end

theorem protections_build (s : Snapshot) (r : Realm P) (k : Handle) :
    (after (build s) (start r)).realm.protections k =
      r.protections k + (after (build s) (start r)).made.count k :=
  ((builds_build s r).1.protections k).symm

/-- What a load has built, wherever that ends. -/
theorem apart_build (s : Snapshot) {r : Realm P} (hwf : r.heap.WellFormed)
    (hbound : (after (build s) (start r)).heap.capacity ≤ UInt32.size) :
    Apart r (after (build s) (start r)).realm (after (build s) (start r)).made :=
  ((builds_build s r).1.induct hwf hbound (Apart.start r) fun _ _ hmove hwf hbound h =>
    h.move hmove hwf hbound).2

end ScriptBridge.Loading
