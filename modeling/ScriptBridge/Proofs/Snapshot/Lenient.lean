import ScriptBridge.Proofs.Snapshot.Awakening
import ScriptBridge.Proofs.Snapshot.Course
import ScriptBridge.Proofs.Snapshot.Phases

/-!
# What Ends a Lenient Load

In lenient mode a load passes over everything that goes wrong in a realm: classes that are not known,
stubs that lead nowhere, accessors and calls that fail. What is left are faults of the snapshot
itself, which are there to be seen before the load starts: a stub at its root, a node that is missing,
or containers that nest too deeply. Such a fault ends a load whenever the walk through the snapshot
comes to it.

Main statements: `ends_read` (what reading an entry can fail with) and `Host.load_lenient`.
-/

namespace ScriptBridge

open Realm (after answer Evolves Careful)

variable {P : Platform}

namespace Loading

open Snapshot (Entry Node)

/-! ## Faults of a Snapshot -/

/-- What is read for an entry one container deeper. The entries of a singleton are not read. -/
inductive Enters (r : Realm P) (s : Snapshot) : Entry → Entry → Prop
  | item {items : List Entry} {entry : Entry} : entry ∈ items → Enters r s (.array items) entry
  | member {index : Nat} {node : Node} {key : String} {entry : Entry} :
      s.nodes[index]? = some node → singletonName? r node = none →
      (key, entry) ∈ node.entries.entries → Enters r s (.node index) entry

/-- From one entry the walk through a snapshot comes to another one, so many containers deeper. -/
inductive WalksTo (r : Realm P) (s : Snapshot) : Nat → Entry → Entry → Prop
  | here {entry : Entry} : WalksTo r s 0 entry entry
  | inside {n : Nat} {entry inner last : Entry} :
      Enters r s entry inner → WalksTo r s n inner last → WalksTo r s (n + 1) entry last

/-- Reading an entry with room for so many nested containers comes to a fault. -/
inductive Stops (r : Realm P) (s : Snapshot) (room : Nat) (start : Entry) : SnapshotError → Prop
  /-- There is a container for which no room is left. -/
  | depth {entry : Entry} : WalksTo r s room start entry → entry.isLeaf = false →
      Stops r s room start (.depthExceeded r.options.depthLimit)
  /-- There is room for a node, but no node. -/
  | index {n index : Nat} : n < room → WalksTo r s n start (.node index) → s.nodes.size ≤ index →
      Stops r s room start (.malformed ("node index " ++ toString index ++ " out of range"))

section

variable {r : Realm P} {s : Snapshot} {room : Nat} {error : SnapshotError}

/-- There are no faults in what is not a container. -/
theorem not_stops_of_isLeaf {entry : Entry} (hleaf : entry.isLeaf = true) :
    ¬ Stops r s room entry error := by
  have hends : ∀ {n last}, WalksTo r s n entry last → last = entry := by
    rintro _ _ (_ | ⟨henters, -⟩)
    · rfl
    · cases henters <;> simp [Entry.isLeaf] at hleaf
  rintro (⟨hwalk, hcontainer⟩ | ⟨-, hwalk, -⟩)
  · rw [hends hwalk, hleaf] at hcontainer
    cases hcontainer
  · rw [← hends hwalk] at hleaf
    cases hleaf

/-- Without room every container is a fault. -/
theorem stops_zero_iff {entry : Entry} (hcontainer : entry.isLeaf = false) :
    Stops r s 0 entry error ↔ error = .depthExceeded r.options.depthLimit := by
  constructor
  · rintro (⟨-, -⟩ | ⟨hn, -⟩)
    · rfl
    · exact absurd hn (Nat.not_lt_zero _)
  · rintro rfl
    exact .depth .here hcontainer

/-- A fault further inside is one for what lies around it. -/
theorem Stops.inside {entry inner : Entry} (h : Stops r s room inner error)
    (henters : Enters r s entry inner) : Stops r s (room + 1) entry error := by
  cases h with
  | depth hwalk hcontainer => exact .depth (.inside henters hwalk) hcontainer
  | index hn hwalk hindex => exact .index (Nat.succ_lt_succ hn) (.inside henters hwalk) hindex

/-- With room for a container, the faults are a node that is missing and those further inside. -/
theorem Stops.cases {entry : Entry} (h : Stops r s (room + 1) entry error) :
    (∃ index, entry = .node index ∧ s.node index = .error error) ∨
    ∃ inner, Enters r s entry inner ∧ Stops r s room inner error := by
  cases h with
  | depth hwalk hcontainer =>
    cases hwalk with
    | inside henters hwalk => exact Or.inr ⟨_, henters, .depth hwalk hcontainer⟩
  | @index n index hn hwalk hindex =>
    cases hwalk with
    | here =>
      refine Or.inl ⟨index, rfl, ?_⟩
      rw [Snapshot.node, Array.getElem?_eq_none hindex]
    | inside henters hwalk =>
      exact Or.inr ⟨_, henters, .index (Nat.lt_of_succ_lt_succ hn) hwalk hindex⟩

theorem stops_array_iff {items : List Entry} :
    Stops r s (room + 1) (.array items) error ↔ ∃ item ∈ items, Stops r s room item error := by
  constructor
  · intro h
    obtain ⟨index, heq, -⟩ | ⟨item, henters, hstops⟩ := h.cases
    · cases heq
    · cases henters with
      | item hitem => exact ⟨item, hitem, hstops⟩
  · rintro ⟨item, hitem, hstops⟩
    exact hstops.inside (.item hitem)

theorem stops_missing_iff {index : Nat} {missing : SnapshotError}
    (hnode : s.node index = .error missing) :
    Stops r s (room + 1) (.node index) error ↔ error = missing := by
  have hnone : s.nodes[index]? = none := by
    unfold Snapshot.node at hnode
    cases hget : s.nodes[index]? with
    | none => rfl
    | some node =>
      rw [hget] at hnode
      cases hnode
  constructor
  · intro h
    obtain ⟨other, heq, herror⟩ | ⟨inner, henters, -⟩ := h.cases
    · obtain rfl := Entry.node.inj heq
      exact Except.error.inj (herror.symm.trans hnode)
    · cases henters with
      | member hsome =>
        rw [hnone] at hsome
        cases hsome
  · rintro rfl
    rw [Snapshot.node, hnone] at hnode
    obtain rfl := Except.error.inj hnode
    exact .index (Nat.succ_pos _) .here (Array.getElem?_eq_none_iff.1 hnone)

/-- The faults of a node that is there are those of its entries. -/
theorem Stops.member {index : Nat} {node : Node} (hnode : s.node index = .ok node)
    (h : Stops r s (room + 1) (.node index) error) :
    singletonName? r node = none ∧
      ∃ member ∈ node.entries.entries, Stops r s room member.2 error := by
  obtain ⟨other, heq, herror⟩ | ⟨inner, henters, hstops⟩ := h.cases
  · obtain rfl := Entry.node.inj heq
    cases hnode.symm.trans herror
  · cases henters with
    | member hsome hnone hentry =>
      obtain rfl := Option.some.inj (hsome.symm.trans (Snapshot.node_eq_ok_iff.1 hnode))
      exact ⟨hnone, _, hentry, hstops⟩

theorem stops_node_iff {index : Nat} {node : Node} (hnode : s.node index = .ok node)
    (hnone : singletonName? r node = none) :
    Stops r s (room + 1) (.node index) error ↔
      ∃ member ∈ node.entries.entries, Stops r s room member.2 error := by
  refine ⟨fun h => (h.member hnode).2, ?_⟩
  rintro ⟨⟨key, entry⟩, hentry, hstops⟩
  exact hstops.inside (.member (Snapshot.node_eq_ok_iff.1 hnode) hnone hentry)

end

/-! ## Steps that May Come to a Fault -/

/-- Every item that waits belongs to an array. -/
structure Calm (s : Loading P) : Prop where
  wellFormed : s.heap.WellFormed
  items : ∀ id places, (id, places) ∈ s.waiting.entries → ∀ array index,
    .item array index ∈ places → s.heap.nature? array = some (.array #[])

/-- A state that a load into a realm may come to. -/
structure Within (r : Realm P) (s : Loading P) : Prop where
  registry : s.realm.registry = r.registry
  options : s.realm.options = r.options
  calm : s.Bounded → Calm s

/-- A step ends with one of some errors, or it succeeds, which it does only if there are none; its
answer is then as described. -/
structure Ends {α : Type} (r : Realm P) (fails : SnapshotError → Prop) (step : LoadingM P α)
    (s : Loading P) (Q : α → Loading P → Prop) : Prop where
  changes : s.Gains (after step s)
  within : Within r (after step s)
  error : (after step s).Bounded → ∀ error, answer step s = .error error → fails error
  ok : (after step s).Bounded → ∀ a, answer step s = .ok a →
    (∀ error, ¬ fails error) ∧ Q a (after step s)

/-- A step that succeeds. -/
abbrev Succeeds {α : Type} (r : Realm P) (step : LoadingM P α) (s : Loading P)
    (Q : α → Loading P → Prop) : Prop :=
  Ends r (fun _ => False) step s Q

section

variable {r : Realm P} {α β : Type} {fails fails' : SnapshotError → Prop} {s s' : Loading P}
  {Q : α → Loading P → Prop}

theorem Ends.imp {step : LoadingM P α} {Q' : α → Loading P → Prop} (h : Ends r fails step s Q)
    (hfails : ∀ error, fails error ↔ fails' error) (himp : ∀ a s', Q a s' → Q' a s') :
    Ends r fails' step s Q' where
  changes := h.changes
  within := h.within
  error hbound error herror := (hfails error).1 (h.error hbound error herror)
  ok hbound a ha :=
    ⟨fun error herror => (h.ok hbound a ha).1 error ((hfails error).2 herror),
      himp a _ (h.ok hbound a ha).2⟩

theorem ends_pure (hs : Within r s) {a : α} (hq : s.Bounded → Q a s) :
    Succeeds r (pure a) s Q where
  changes := .refl
  within := hs
  error _ _ herror := by cases herror
  ok hbound _ ha := ⟨fun _ => id, Except.ok.inj ha ▸ hq hbound⟩

theorem ends_throw (hs : Within r s) {error : SnapshotError} (h : s.Bounded → fails error) :
    Ends r fails (throw error : LoadingM P α) s Q where
  changes := .refl
  within := hs
  error hbound _ herror := Except.error.inj herror ▸ h hbound
  ok _ _ ha := by cases ha

theorem ends_throw_bind (hs : Within r s) {error : SnapshotError} (h : s.Bounded → fails error)
    (next : β → LoadingM P α) : Ends r fails (throw error >>= next) s Q where
  changes := .refl
  within := hs
  error hbound _ herror := Except.error.inj herror ▸ h hbound
  ok _ _ ha := by cases ha

theorem ends_ok {a : α} {next : α → LoadingM P β} {Q : β → Loading P → Prop}
    (h : Ends r fails (next a) s Q) :
    Ends r fails ((liftM (Except.ok a : Except SnapshotError α) : LoadingM P α) >>= next) s Q :=
  ⟨h.changes, h.within, h.error, h.ok⟩

theorem ends_get {next : Loading P → LoadingM P α} (h : Ends r fails (next s) s Q) :
    Ends r fails (get >>= next) s Q := ⟨h.changes, h.within, h.error, h.ok⟩

theorem ends_ask {question : Realm P → β} {next : β → LoadingM P α}
    (h : Ends r fails (next (question s.realm)) s Q) : Ends r fails (ask question >>= next) s Q :=
  ⟨h.changes, h.within, h.error, h.ok⟩

theorem ends_modify {f : Loading P → Loading P} {Q : PUnit → Loading P → Prop}
    (hchanges : s.Gains (f s)) (h : Within r (f s))
    (hq : (f s).Bounded → Q ⟨⟩ (f s)) : Succeeds r (modify f : LoadingM P PUnit) s Q where
  changes := hchanges
  within := h
  error _ _ herror := by cases herror
  ok hbound _ _ := ⟨fun _ => id, hq hbound⟩

/-- One step after another: the second one comes to its faults if the first one has none. -/
theorem Ends.bind {step : LoadingM P α} {next : α → LoadingM P β} {Q' : β → Loading P → Prop}
    (h : Ends r fails step s Q)
    (h' : ∀ a s', s.Gains s' → Within r s' →
      (s'.Bounded → Q a s') → Ends r fails' (next a) s' Q') :
    Ends r (fun error => fails error ∨ fails' error) (step >>= next) s Q' := by
  cases hanswer : answer step s with
  | ok a =>
    have hnext := h' a (after step s) h.changes h.within fun hbound => (h.ok hbound a hanswer).2
    have hsame : Id.run ((step >>= next).run.run s) = Id.run ((next a).run.run (after step s)) :=
      Realm.run_bind_of_ok (Realm.run_of_answer hanswer)
    have hafter : after (step >>= next) s = after (next a) (after step s) := congrArg Prod.snd hsame
    have hrest : answer (step >>= next) s = answer (next a) (after step s) := congrArg Prod.fst hsame
    refine ⟨hafter ▸ h.changes.trans hnext.changes, hafter ▸ hnext.within, ?_, ?_⟩
    · rw [hafter, hrest]
      exact fun hbound error herror => Or.inr (hnext.error hbound error herror)
    · rw [hafter, hrest]
      intro hbound b hb
      obtain ⟨hnone, hq⟩ := hnext.ok hbound b hb
      refine ⟨fun error => ?_, hq⟩
      rintro (herror | herror)
      · exact (h.ok (hbound.before hnext.changes) a hanswer).1 error herror
      · exact hnone error herror
  -- the second step does not take place
  | error error =>
    have hsame : Id.run ((step >>= next).run.run s) = (.error error, after step s) :=
      Realm.run_bind_of_error hanswer
    have hafter : after (step >>= next) s = after step s := congrArg Prod.snd hsame
    have hrest : answer (step >>= next) s = .error error := congrArg Prod.fst hsame
    refine ⟨hafter ▸ h.changes, hafter ▸ h.within, ?_, ?_⟩
    · rw [hafter, hrest]
      intro hbound other hother
      obtain rfl := Except.error.inj hother
      exact Or.inl (h.error hbound error hanswer)
    · rw [hrest]
      intro _ _ hb
      cases hb

/-- A step that succeeds leaves all faults to the next one. -/
theorem Ends.then {step : LoadingM P α} {next : α → LoadingM P β} {Q' : β → Loading P → Prop}
    (h : Succeeds r step s Q)
    (h' : ∀ a s', s.Gains s' → Within r s' →
      (s'.Bounded → Q a s') → Ends r fails (next a) s' Q') : Ends r fails (step >>= next) s Q' :=
  (h.bind h').imp (fun _ => iff_of_eq (false_or _)) fun _ _ => id

/-- After a step nothing but what succeeds need be done. -/
theorem Ends.succeeding {step : LoadingM P α} {next : α → LoadingM P β} {Q' : β → Loading P → Prop}
    (h : Ends r fails step s Q)
    (h' : ∀ a s', s.Gains s' → Within r s' →
      (s'.Bounded → Q a s') → Succeeds r (next a) s' Q') : Ends r fails (step >>= next) s Q' :=
  (h.bind h').imp (fun _ => iff_of_eq (or_false _)) fun _ _ => id

theorem ends_discard {step : LoadingM P α} (h : Ends r fails step s Q) :
    Ends r fails (discard step) s fun _ _ => True :=
  show Ends r fails (step >>= fun _ => pure ()) s fun _ _ => True from
    h.succeeding fun _ _ _ hs' _ => ends_pure hs' fun _ => trivial

/-- A loop comes to the faults of its turns. -/
theorem ends_forM {step : β → LoadingM P PUnit} {xs : List β} {fails : β → SnapshotError → Prop}
    (hs : Within r s)
    (hstep : ∀ x ∈ xs, ∀ s', s.Gains s' →
      Within r s' → Ends r (fails x) (step x) s' fun _ _ => True) :
    Ends r (fun error => ∃ x ∈ xs, fails x error) (xs.forM step) s fun _ _ => True := by
  induction xs generalizing s with
  | nil => exact (ends_pure hs fun _ => trivial).imp (by simp) fun _ _ => id
  | cons x xs ih =>
    have hall : Ends r (fun error => fails x error ∨ ∃ y ∈ xs, fails y error)
        ((x :: xs).forM step) s fun _ _ => True := by
      refine (hstep x List.mem_cons_self s .refl hs).bind fun _ s₁ hgains hs₁ _ => ?_
      apply ih hs₁
      intro y hy s₂ hgains' hs₂
      exact hstep y (List.mem_cons_of_mem _ hy) s₂ (hgains.trans hgains') hs₂
    exact hall.imp (by simp) fun _ _ => id

theorem succeeds_forM {step : β → LoadingM P PUnit} {xs : List β} (hs : Within r s)
    (hstep : ∀ x ∈ xs, ∀ s', s.Gains s' →
      Within r s' → Succeeds r (step x) s' fun _ _ => True) :
    Succeeds r (xs.forM step) s fun _ _ => True :=
  (ends_forM hs hstep).imp (by simp) fun _ _ => id

end

/-! ## Writing -/

section

variable {r : Realm P} {α : Type} {s s' : Loading P}

/-- What has been an array is one. -/
theorem nature?_of_gains (hs : Within r s) (hchanges : s.Gains s') {array : Handle}
    (harray : s.Bounded → s.heap.nature? array = some (.array #[])) (hbound : s'.Bounded) :
    s'.heap.nature? array = some (.array #[]) :=
  have hbefore := hbound.before hchanges
  hchanges.nature? (hs.calm hbefore).wellFormed hbound (harray hbefore)

theorem Within.realm (hs : Within r s) {r' : Realm P} (hevolves : Evolves s.realm r')
    (hchanges : s.Gains { s with realm := r' }) : Within r { s with realm := r' } where
  registry := hevolves.registry.trans hs.registry
  options := hevolves.options.trans hs.options
  calm hbound :=
    have hcalm := hs.calm (hbound.before hchanges)
    ⟨hchanges.wellFormed hcalm.wellFormed hbound, fun id places hentry array index hitem =>
      hchanges.nature? hcalm.wellFormed hbound (hcalm.items id places hentry array index hitem)⟩

/-- What leaves the realm alone, and lets no other items wait. -/
theorem Within.of_realm_eq (hs : Within r s) (hrealm : s'.realm = s.realm)
    (hwaiting : ∀ id places, (id, places) ∈ s'.waiting.entries → ∀ array index,
      .item array index ∈ places → ∃ others, (id, others) ∈ s.waiting.entries ∧
        .item array index ∈ others) : Within r s' where
  registry := hrealm ▸ hs.registry
  options := hrealm ▸ hs.options
  calm hbound := by
    have hheap : s'.heap = s.heap := congrArg Realm.heap hrealm
    have hbefore : s.Bounded := by
      unfold Bounded
      rw [← hheap]
      exact hbound
    obtain ⟨hwf, hitems⟩ := hs.calm hbefore
    refine ⟨hheap ▸ hwf, fun id places hentry array index hitem => ?_⟩
    obtain ⟨others, hothers, hitem⟩ := hwaiting id places hentry array index hitem
    rw [hheap]
    exact hitems id others hothers array index hitem

theorem ends_attempt {action : Action P α} (hs : Within r s)
    (hevolves : Evolves s.realm (after action s.realm))
    (hchanges : s.Gains { s with realm := after action s.realm }) :
    Succeeds r (attempt action) s fun outcome _ => outcome = answer action s.realm where
  changes := hchanges
  within := hs.realm hevolves hchanges
  error _ _ herror := by cases herror
  ok _ _ ha := ⟨fun _ => id, (Except.ok.inj ha).symm⟩

/-- An action that cannot fail. -/
theorem ends_perform {action : Action P α} {Q : α → Loading P → Prop} (hs : Within r s)
    (hevolves : Evolves s.realm (after action s.realm))
    (hchanges : s.Gains { s with realm := after action s.realm })
    (hok : s.Bounded → ∃ a, answer action s.realm = .ok a)
    (hq : ∀ a s', s'.Bounded → answer action s.realm = .ok a → Q a s') :
    Succeeds r (perform action) s Q := by
  refine (ends_attempt hs hevolves hchanges).then fun outcome s' hgains hs' houtcome => ?_
  cases outcome with
  | ok a => exact ends_pure hs' fun hbound => hq a s' hbound (houtcome hbound).symm
  | error error =>
    refine ends_throw hs' fun hbound => ?_
    obtain ⟨a, ha⟩ := hok (hbound.before hgains)
    cases ha.symm.trans (houtcome hbound).symm

theorem ends_putProperty (hs : Within r s) (h : Handle) (name : String) (value : Value) :
    Succeeds r (attempt (Realm.putProperty h name value true)) s fun _ _ => True :=
  (ends_attempt hs (Realm.evolves_putProperty h name value true s.realm)
    (Realm.alters_putProperty trivial name (Or.inr Heap.stores_freely) true s.realm).heap).imp
      (fun _ => Iff.rfl) fun _ _ _ => trivial

/-- In lenient mode a write that fails is passed over. -/
theorem ends_isStrict (hlenient : r.options.strictness = .lenient) (hs : Within r s)
    {fails : SnapshotError → Prop} {Q : α → Loading P → Prop} {next : Bool → LoadingM P α}
    (h : Ends r fails (next false) s Q) : Ends r fails (isStrict >>= next) s Q := by
  refine ends_ask ?_
  rw [hs.options, hlenient]
  exact h

theorem ends_write (hlenient : r.options.strictness = .lenient) (hs : Within r s) (h : Handle)
    (name : String) (value : Value) : Succeeds r (write h name value) s fun _ _ => True := by
  refine (ends_putProperty hs h name value).then fun outcome s' _ hs' _ => ?_
  cases outcome with
  | ok answer => exact ends_pure hs' fun _ => trivial
  | error error => exact ends_isStrict hlenient hs' (ends_pure hs' fun _ => trivial)

end

end Loading

namespace Realm

/-- An item of an array is written, or it is refused; there is no error. -/
theorem answer_assignElement_of_array {r : Realm P} {array : Handle}
    (harray : r.heap.nature? array = some (.array #[])) (index : Nat) {value : Value}
    (hvalue : value.isInline = false) :
    ∃ accepted, answer (assignElement array index value) r = .ok accepted := by
  obtain ⟨⟨form, fields⟩, hget, hform⟩ := Option.map_eq_some_iff.1 harray
  cases form with
  | array items =>
    have hfree : r.elements? ⟨.array items, fields⟩ = none := rfl
    have hitems : (⟨.array items, fields⟩ : ScriptObject P).items? = some items := rfl
    unfold assignElement
    rw [answer_get]
    simp only [hget, hfree]
    rw [answer_modifyGet, store_of_isInline r hvalue, answer_get]
    simp only [hget, hitems, Option.map_some]
    split
    · exact ⟨false, rfl⟩
    · exact ⟨true, rfl⟩
  | _ => cases hform

end Realm

namespace Loading

open Snapshot (Entry Node)

section

variable {r : Realm P} {s : Loading P}

theorem ends_assignElement (hs : Within r s) {array : Handle}
    (harray : s.Bounded → s.heap.nature? array = some (.array #[])) (index : Nat) {value : Value}
    (hvalue : s.Bounded → value.isInline = false) :
    Succeeds r (discard (perform (Realm.assignElement array index value))) s fun _ _ => True :=
  ends_discard (ends_perform hs (Realm.evolves_assignElement array index value s.realm)
    (Realm.alters_assignElement trivial index (Or.inr Heap.stores_freely) s.realm).heap
    (fun hbound => Realm.answer_assignElement_of_array (harray hbound) index (hvalue hbound))
    fun _ _ _ _ => trivial)

theorem ends_await (hs : Within r s) (id : String) {place : Place}
    (hplace : s.Bounded → ∀ array index, place = .item array index →
      s.heap.nature? array = some (.array #[])) :
    Succeeds r (await id place) s fun _ _ => True := by
  refine ends_modify .refl ⟨hs.registry, hs.options, fun hbound => ⟨(hs.calm hbound).wellFormed, ?_⟩⟩
    fun _ => trivial
  intro other places hentry array index hitem
  rcases Table.mem_entries_insert hentry with heq | hentry
  · obtain ⟨-, rfl⟩ := Prod.mk.inj heq
    rcases List.mem_append.1 hitem with hitem | hitem
    · cases hfound : s.waiting.find? id with
      | none => simp [hfound] at hitem
      | some before =>
        rw [hfound] at hitem
        exact (hs.calm hbound).items id before (Table.find?_eq_some_iff.1 hfound) array index hitem
    · exact hplace hbound array index (List.mem_singleton.1 hitem).symm
  · exact (hs.calm hbound).items other places hentry array index hitem

variable (hlenient : r.options.strictness = .lenient)

include hlenient

theorem ends_settle (hs : Within r s) (target : Handle) {place : Place}
    (hplace : s.Bounded → ∀ array index, place = .item array index →
      s.heap.nature? array = some (.array #[])) :
    Succeeds r (settle target place) s fun _ _ => True := by
  cases place with
  | property owner name => exact ends_write hlenient hs owner name _
  | item array index =>
    exact ends_assignElement hs (fun hbound => hplace hbound array index rfl) index fun _ => rfl

theorem ends_settleEach (hs : Within r s) (target : Handle) {places : List Place}
    (hplaces : s.Bounded → ∀ array index, .item array index ∈ places →
      s.heap.nature? array = some (.array #[])) :
    Succeeds r (places.forM (settle target)) s fun _ _ => True := by
  refine succeeds_forM hs fun place hplace s' hgains hs' => ends_settle hlenient hs' target ?_
  rintro hbound array index rfl
  exact nature?_of_gains hs hgains (fun hbefore => hplaces hbefore array index hplace) hbound

theorem ends_announce (hs : Within r s) (id : String) (target : Handle) :
    Succeeds r (announce id target) s fun _ _ => True := by
  have hplaces : s.Bounded → ∀ array index, .item array index ∈ (s.waiting.find? id).getD [] →
      s.heap.nature? array = some (.array #[]) := by
    intro hbound array index hitem
    cases hfound : s.waiting.find? id with
    | none => simp [hfound] at hitem
    | some places =>
      rw [hfound] at hitem
      exact (hs.calm hbound).items id places (Table.find?_eq_some_iff.1 hfound) array index hitem
  refine ends_get (Ends.then (Q := fun _ _ => True) (ends_modify .refl (hs.of_realm_eq rfl ?_)
    fun _ => trivial) fun _ s' hgains hs' _ => ?_)
  · exact fun other places hentry array index hitem =>
      ⟨places, (List.mem_filter.1 hentry).1, hitem⟩
  · exact ends_settleEach hlenient hs' target fun hbound array index hitem =>
      nature?_of_gains hs hgains (fun hbefore => hplaces hbefore array index hitem) hbound

theorem ends_settleAll (hs : Within r s) : Succeeds r settleAll s fun _ _ => True := by
  refine ends_get (Ends.then (Q := fun _ _ => True) (ends_modify .refl (hs.of_realm_eq rfl ?_)
    fun _ => trivial) fun _ s₁ hgains hs₁ _ => ?_)
  · exact fun id places hentry => by simp [Table.empty] at hentry
  · refine succeeds_forM hs₁ ?_
    rintro ⟨id, places⟩ hentry s₂ hgains' hs₂
    apply ends_get
    cases s₂.built.lookup id with
    | some target =>
      exact ends_settleEach hlenient hs₂ target fun hbound array index hitem =>
        nature?_of_gains hs (hgains.trans hgains') (fun hbefore =>
          (hs.calm hbefore).items id places hentry array index hitem) hbound
    | none => exact ends_isStrict hlenient hs₂ (ends_pure hs₂ fun _ => trivial)

theorem ends_renewAll (hs : Within r s) : Succeeds r renewAll s fun _ _ => True := by
  refine ends_get (Ends.then (Q := fun _ _ => True) (ends_modify .refl (hs.of_realm_eq rfl
    fun _ places hentry _ _ hitem => ⟨places, hentry, hitem⟩) fun _ => trivial)
      fun _ s₁ _ hs₁ _ => ?_)
  refine succeeds_forM hs₁ ?_
  rintro ⟨owner, name, array⟩ - s₂ - hs₂
  exact ends_write hlenient hs₂ owner name _

end

/-! ## Reading -/

section

variable {r : Realm P} {snapshot : Snapshot} {s : Loading P}

theorem Within.withNew (hs : Within r s) (c : ClassNumber) (sleepers : List Handle) :
    Within r (s.withNew c sleepers) := by
  have hmade : Within r { s with realm := (s.realm.instantiate c).2 } :=
    hs.realm (Realm.evolves_instantiate c s.realm) (Realm.freely_instantiate c s.realm).heap
  exact ⟨hmade.registry, hmade.options, fun hbound => ⟨(hmade.calm hbound).wellFormed,
    (hmade.calm hbound).items⟩⟩

/-- A new instance is there, and is of its class. -/
theorem ends_of_runs_withNew (hs : Within r s) {step : LoadingM P Handle} {c : ClassNumber}
    {sleepers : List Handle}
    (hrun : Runs step s (s.realm.instantiate c).1 (s.withNew c sleepers)) :
    Succeeds r step s fun h s' =>
      s'.heap.nature? h = some (ScriptObject.ofForm (s.realm.freshForm c)).nature := by
  have hgains : s.Gains (s.withNew c sleepers) := (Realm.freely_instantiate c s.realm).heap
  have hafter : after step s = s.withNew c sleepers := congrArg Prod.snd hrun
  have hanswer : answer step s = .ok (s.realm.instantiate c).1 := congrArg Prod.fst hrun
  refine ⟨hafter ▸ hgains, hafter ▸ hs.withNew c sleepers, ?_, ?_⟩
  · rw [hanswer]
    intro _ _ herror
    cases herror
  · rw [hafter, hanswer]
    intro hbound h hh
    obtain rfl := Except.ok.inj hh
    exact ⟨fun _ => id, nature?_instantiate (hs.calm (hbound.before hgains)).wellFormed hbound⟩

theorem ends_make (hlenient : r.options.strictness = .lenient) (hs : Within r s)
    (className : Option String) : Succeeds r (make className) s fun _ _ => True := by
  obtain ⟨hstrict, -⟩ | hrun := make_cases className s
  · rw [hs.options, hlenient] at hstrict
    cases hstrict
  · exact (ends_of_runs_withNew hs hrun).imp (fun _ => Iff.rfl) fun _ _ _ => trivial

theorem ends_makeArray (hs : Within r s) :
    Succeeds r makeArray s fun array s' => s'.heap.nature? array = some (.array #[]) :=
  have hrun : Runs makeArray s (s.realm.instantiate .array).1 (s.withNew .array s.sleepers) :=
    runs_newArray.bind ((runs_keepAlive _).bind (runs_pure _))
  ends_of_runs_withNew hs hrun

theorem ends_newFunction (hs : Within r s) (name : String) (body : FunctionBody P) :
    Succeeds r (perform (modifyGet (Realm.newFunction name body))) s fun _ _ => True :=
  ends_perform hs (Realm.evolves_newFunction name body s.realm) (.single (.allocate trivial))
    (fun _ => ⟨_, rfl⟩) fun _ _ _ _ => trivial

/-- What is read inside of an entry comes to the faults of what lies there. A stub is not read. -/
def EndsInside (r : Realm P) (snapshot : Snapshot) (room : Nat) (inner : Inner P) : Prop :=
  ∀ entry s, (∀ id, entry ≠ .stub id) → Within r s →
    Ends r (Stops r snapshot room entry) (inner entry) s fun v _ => v.isInline = false

variable {room : Nat} {inner : Inner P}

theorem ends_leaf {entry : Entry} (hleaf : entry.isLeaf = true) {α : Type} {step : LoadingM P α}
    {Q : α → Loading P → Prop} (h : Succeeds r step s Q) :
    Ends r (Stops r snapshot room entry) step s Q :=
  h.imp (fun _ => ⟨False.elim, not_stops_of_isLeaf hleaf⟩) fun _ _ => id

theorem ends_rebuildItems (hinner : EndsInside r snapshot room inner) (hs : Within r s)
    {array : Handle} (harray : s.Bounded → s.heap.nature? array = some (.array #[])) (index : Nat)
    (items : List Entry) :
    Ends r (fun error => ∃ item ∈ items, Stops r snapshot room item error)
      (rebuildItems inner array index items) s fun _ _ => True := by
  induction items generalizing s index with
  | nil => exact (ends_pure hs fun _ => trivial).imp (by simp) fun _ _ => id
  | cons item items ih =>
    have hrest : ∀ value s', s.Gains s' → Within r s' → (s'.Bounded → value.isInline = false) →
        Ends r (fun error => ∃ item ∈ items, Stops r snapshot room item error)
          (discard (perform (Realm.assignElement array index value)) >>=
            fun _ => rebuildItems inner array (index + 1) items) s' fun _ _ => True := by
      intro value s' hgains hs' hvalue
      have harray' := nature?_of_gains hs hgains harray
      refine (ends_assignElement hs' harray' index hvalue).then fun _ s'' hgains' hs'' _ => ?_
      exact ih hs'' (nature?_of_gains hs' hgains' harray') (index + 1)
    have hall : Ends r (fun error => Stops r snapshot room item error ∨
        ∃ item ∈ items, Stops r snapshot room item error)
          (rebuildItems inner array index (item :: items)) s fun _ _ => True := by
      unfold rebuildItems
      dsimp only
      split
      · next id =>
        have hawait : Ends r (Stops r snapshot room (.stub id)) (await id (.item array index)) s
            fun _ _ => True := by
          refine ends_leaf rfl (ends_await hs id ?_)
          rintro hbound _ _ ⟨⟩
          exact harray hbound
        exact hawait.bind fun _ s' hgains hs' _ => hrest _ s' hgains hs' fun _ => rfl
      · next hstub =>
        refine (hinner item s hstub hs).bind fun value s' hgains hs' hvalue => ?_
        exact hrest value s' hgains hs' hvalue
    exact hall.imp (by simp) fun _ _ => id

theorem ends_rebuildArray (hinner : EndsInside r snapshot room inner) (hs : Within r s)
    (items : List Entry) :
    Ends r (Stops r snapshot (room + 1) (.array items)) (rebuildArray inner items) s
      fun _ _ => True := by
  rw [rebuildArray_eq]
  refine (ends_makeArray hs).then fun array s' _ hs' harray => ?_
  refine Ends.succeeding ((ends_rebuildItems hinner hs' harray 0 items).imp
    (fun _ => stops_array_iff.symm) fun _ _ => id) fun _ s'' _ hs'' _ => ?_
  exact ends_pure hs'' fun _ => trivial

variable (hlenient : r.options.strictness = .lenient)

include hlenient

theorem ends_findSingleton (hs : Within r s) (name : String) :
    Succeeds r (findSingleton name) s fun _ _ => True := by
  apply ends_ask
  cases s.realm.singleton? name with
  | some h => exact ends_pure hs fun _ => trivial
  | none => exact ends_isStrict hlenient hs (ends_pure hs fun _ => trivial)

theorem ends_restoreEntry (hinner : EndsInside r snapshot room inner) (hs : Within r s) (h : Handle)
    (key : String) (entry : Entry) :
    Ends r (Stops r snapshot room entry) (restoreEntry inner h key entry) s fun _ _ => True := by
  unfold restoreEntry
  split
  · refine ends_leaf rfl ((ends_newFunction hs _ _).then fun f s' _ hs' _ => ?_)
    exact ends_write hlenient hs' h _ _
  · refine ends_leaf rfl ((ends_await hs _ fun _ _ _ hplace => by cases hplace).then
      fun _ s' _ hs' _ => ?_)
    exact ends_discard (ends_putProperty hs' h key .null)
  · next hstub _ =>
    apply ends_get
    refine (hinner _ s (fun id heq => hstub id heq) hs).succeeding fun value s' _ hs' _ => ?_
    dsimp only
    split
    · apply ends_get
      split
      · refine Ends.then (Q := fun _ _ => True) (ends_modify .refl (hs'.of_realm_eq rfl
          fun _ places hentry _ _ hitem => ⟨places, hentry, hitem⟩) fun _ => trivial)
            fun _ s'' _ hs'' _ => ends_write hlenient hs'' h key _
      · exact ends_write hlenient hs' h key _
    · exact ends_write hlenient hs' h key _

theorem ends_rebuildNode (hinner : EndsInside r snapshot room inner) (hs : Within r s) {index : Nat}
    {node : Node} (hnode : snapshot.node index = .ok node) :
    Ends r (Stops r snapshot (room + 1) (.node index)) (rebuildNode inner node) s
      fun _ _ => True := by
  apply ends_ask
  rw [singletonName?_congr hs.registry]
  cases hsingleton : singletonName? r node with
  | some name =>
    have hnone : ∀ error, False ↔ Stops r snapshot (room + 1) (.node index) error := by
      refine fun error => ⟨False.elim, fun h => ?_⟩
      rw [(h.member hnode).1] at hsingleton
      cases hsingleton
    refine Ends.imp (Ends.then (ends_findSingleton hlenient hs name) fun found s' _ hs' _ => ?_)
      hnone fun _ _ => id
    cases found with
    | none => exact ends_pure hs' fun _ => trivial
    | some h =>
      dsimp only
      split
      · exact (ends_announce hlenient hs' _ h).then fun _ s'' _ hs'' _ =>
          ends_pure hs'' fun _ => trivial
      · exact ends_pure hs' fun _ => trivial
  | none =>
    refine (ends_make hlenient hs node.className).then fun h s' _ hs' _ => ?_
    have hentries : ∀ s'', Within r s'' → Ends r (Stops r snapshot (room + 1) (.node index))
        ((ask fun r => inPhases r (r.classOf? h) node.entries) >>= fun entries =>
          (entries.forM fun entry => restoreEntry inner h entry.1 entry.2) >>= fun _ =>
            pure (some h)) s'' fun _ _ => True := by
      intro s'' hs''
      apply ends_ask
      have hperm := inPhases_perm s''.realm (s''.realm.classOf? h) node.entries
      refine Ends.succeeding (Ends.imp (ends_forM hs'' fun entry _ s₃ _ hs₃ =>
        ends_restoreEntry hlenient hinner hs₃ h entry.1 entry.2) (fun error => ?_) fun _ _ => id)
          fun _ s₃ _ hs₃ _ => ends_pure hs₃ fun _ => trivial
      -- the entries are read in phases, but all of them are read
      rw [stops_node_iff hnode hsingleton]
      simp only [hperm.mem_iff]
    dsimp only
    split
    · exact (ends_announce hlenient hs' _ h).then fun _ s'' _ hs'' _ => hentries s'' hs''
    · exact hentries s' hs'

theorem endsInside_rebuildWith {inner? : Option (Inner P)} (hfull : inner? = none → room = 0)
    (hinner : ∀ inner, inner? = some inner →
      ∃ less, room = less + 1 ∧ EndsInside r snapshot less inner) :
    EndsInside r snapshot room (rebuildWith snapshot inner?) := by
  intro entry s hstub hs
  -- without room a container stops the load, whatever is inside of it
  have hroom : ∀ {α : Type} {Q : α → Loading P → Prop} (next : Inner P → LoadingM P α),
      entry.isLeaf = false →
      (∀ inner less, room = less + 1 → EndsInside r snapshot less inner →
        Ends r (Stops r snapshot room entry) (next inner) s Q) →
      Ends r (Stops r snapshot room entry) (roomFor inner? >>= next) s Q := by
    intro α Q next hcontainer hnext
    cases hsome : inner? with
    | some inner =>
      obtain ⟨less, hless, hinside⟩ := hinner inner hsome
      have hgo := hnext inner less hless hinside
      exact ⟨hgo.changes, hgo.within, hgo.error, hgo.ok⟩
    | none =>
      have hthrow : roomFor none >>= next =
          ask Realm.options >>= fun options => throw (.depthExceeded options.depthLimit) >>= next := by
        simp only [roomFor, bind_assoc]
      rw [hthrow]
      refine ends_ask (ends_throw_bind hs (fun _ => ?_) next)
      rw [hfull hsome, stops_zero_iff hcontainer, hs.options]
  cases entry with
  | null => exact ends_leaf rfl (ends_pure hs fun _ => rfl)
  | bool b => exact ends_leaf rfl (ends_pure hs fun _ => rfl)
  | int n => exact ends_leaf rfl (ends_pure hs fun _ => isInline_intValue n)
  | double x => exact ends_leaf rfl (ends_pure hs fun _ => rfl)
  | string text => exact ends_leaf rfl (ends_pure hs fun _ => rfl)
  | reference h =>
    refine ends_leaf rfl (ends_ask ?_)
    split
    · exact ends_pure hs fun _ => rfl
    · exact ends_pure hs fun _ => rfl
  | stub id => exact absurd rfl (hstub id)
  | array items =>
    refine hroom _ rfl fun inner less hless hinside => ?_
    subst hless
    refine (ends_rebuildArray hinside hs items).succeeding fun array s' _ hs' _ => ?_
    exact ends_pure hs' fun _ => rfl
  | node index =>
    refine hroom _ rfl fun inner less hless hinside => ?_
    subst hless
    cases hnode : snapshot.node index with
    | error error => exact ends_throw hs fun _ => (stops_missing_iff hnode).2 rfl
    | ok node =>
      refine ends_ok ((ends_rebuildNode hlenient hinside hs hnode).succeeding
        fun h? s' _ hs' _ => ?_)
      exact ends_pure hs' fun _ => isInline_ofObject? h?

theorem endsInside_read (snapshot : Snapshot) (room : Nat) :
    EndsInside r snapshot room (read snapshot room) := by
  -- by the room that is left for nesting
  induction room with
  | zero => exact endsInside_rebuildWith hlenient (fun _ => rfl) (by simp)
  | succ room ih =>
    refine endsInside_rebuildWith hlenient (by simp) ?_
    intro inner hsome
    exact ⟨room, rfl, Option.some.inj hsome ▸ ih⟩

/-- What ends the building of a graph: a stub at the root, or a fault that reading comes to. -/
inductive Faulty (r : Realm P) (s : Snapshot) : SnapshotError → Prop
  | root {id : String} : s.root = .stub id →
      Faulty r s (.malformed ("stub '" ++ id ++ "' outside an object or array"))
  | inside {error : SnapshotError} : Stops r s r.options.depthLimit s.root error → Faulty r s error

theorem ends_build (snapshot : Snapshot) (hs : Within r s) :
    Ends r (Faulty r snapshot) (build snapshot) s fun _ _ => True := by
  apply ends_ask
  rw [hs.options]
  have hread : Ends r (Faulty r snapshot) (read snapshot r.options.depthLimit snapshot.root) s
      fun _ _ => True := by
    by_cases hroot : ∃ id, snapshot.root = .stub id
    · obtain ⟨id, hid⟩ := hroot
      have hfault : Faulty r snapshot (.malformed ("stub '" ++ id ++ "' outside an object or array")) :=
        .root hid
      rw [hid]
      cases r.options.depthLimit with
      | zero => exact ends_throw hs fun _ => hfault
      | succ room => exact ends_throw hs fun _ => hfault
    · have hroot : ∀ id, snapshot.root ≠ .stub id := fun id hid => hroot ⟨id, hid⟩
      refine (endsInside_read hlenient snapshot _ snapshot.root s hroot hs).imp (fun error => ?_)
        fun _ _ _ => trivial
      refine ⟨.inside, ?_⟩
      rintro (hid | hstops)
      · exact absurd hid (hroot _)
      · exact hstops
  refine hread.succeeding fun root s₁ _ hs₁ _ => ?_
  refine (ends_settleAll hlenient hs₁).then fun _ s₂ _ hs₂ _ => ?_
  exact (ends_renewAll hlenient hs₂).then fun _ s₃ _ hs₃ _ => ends_pure hs₃ fun _ => trivial

end

theorem within_start {r : Realm P} (hwf : r.heap.WellFormed) : Within r (start r) :=
  ⟨rfl, rfl, fun _ => ⟨hwf, fun id places hentry => by simp [start, Table.empty] at hentry⟩⟩

/-! ## Awakening -/

/-- Awakens an instance that has a function for it. -/
def rouse (host : Host P) (h : Handle) : LoadingM P Unit := do
  match ← attempt (host.callMethod h awakeName []) with
  | .ok _ => pure ()
  | .error error =>
    if ← isStrict then throw (.script error)
    modify fun s => { s with realm := s.realm.report error }

theorem awakenOne_eq (host : Host P) (h : Handle) : awakenOne host h =
    ask (canAwake · h) >>= fun can => if can then rouse host h else pure () := rfl

/-- The realm after an instance has been called to awaken it, where an error of the call is
reported. -/
def roused (host : Host P) (r : Realm P) (h : Handle) : Realm P :=
  match Id.run ((host.callMethod h awakeName []).run.run r) with
  | (.ok _, r') => r'
  | (.error error, r') => r'.report error

/-- The realm after an instance has been awakened, if it has a function for that. -/
def awakened (host : Host P) (r : Realm P) (h : Handle) : Realm P :=
  if canAwake r h then roused host r h else r

section

variable {host : Host P} {s : Loading P}

theorem options_roused (hawake : Awakens Careful host) (r : Realm P) (h : Handle) :
    (roused host r h).options = r.options := by
  have hcall := (hawake h r).evolves.options
  unfold after id at hcall
  unfold roused
  split
  · next hrun => rwa [hrun] at hcall
  · next hrun => rwa [hrun] at hcall

theorem options_awakened (hawake : Awakens Careful host) (r : Realm P) (h : Handle) :
    (awakened host r h).options = r.options := by
  unfold awakened
  split
  · exact options_roused hawake r h
  · rfl

/-- In lenient mode a call that fails ends nothing. -/
theorem runs_rouse (hawake : Awakens Careful host) (h : Handle)
    (hlenient : s.realm.options.strictness = .lenient) :
    Runs (rouse host h) s () { s with realm := roused host s.realm h } := by
  have hcall := (hawake h s.realm).evolves.options
  unfold after id at hcall
  unfold rouse roused
  cases hrun : Id.run ((host.callMethod h awakeName []).run.run s.realm) with
  | mk outcome r' =>
    rw [hrun] at hcall
    refine (runs_attempt hrun).bind ?_
    cases outcome with
    | ok v => exact runs_pure ()
    | error error =>
      have hmode := runs_ask (s := { s with realm := r' })
        fun r : Realm P => r.options.strictness == .strict
      rw [hcall, hlenient] at hmode
      exact Runs.bind hmode (runs_modify _)

theorem runs_awakenOne (hawake : Awakens Careful host) (h : Handle)
    (hlenient : s.realm.options.strictness = .lenient) :
    Runs (awakenOne host h) s () { s with realm := awakened host s.realm h } := by
  rw [awakenOne_eq]
  unfold awakened
  refine (runs_ask _).bind ?_
  split
  · exact runs_rouse hawake h hlenient
  · exact runs_pure ()

theorem runs_awakenAll (hawake : Awakens Careful host) (sleepers : List Handle)
    (hlenient : s.realm.options.strictness = .lenient) :
    Runs (sleepers.forM (awakenOne host)) s ()
      { s with realm := sleepers.foldl (awakened host) s.realm } := by
  induction sleepers generalizing s with
  | nil => exact runs_pure ()
  | cons h sleepers ih =>
    refine (runs_awakenOne hawake h hlenient).bind (ih ?_)
    rw [options_awakened hawake]
    exact hlenient

theorem runs_awaken_lenient (hawake : Awakens Careful host)
    (hlenient : s.realm.options.strictness = .lenient) :
    Runs (awaken host) s ()
      { s with realm := s.sleepers.foldl (awakened host) s.realm, sleepers := [] } := by
  rw [awaken_eq]
  exact runs_get.bind ((runs_modify _).bind (runs_awakenAll hawake s.sleepers hlenient))

end

end Loading

open Loading (start build Faulty Awakens)

/-- What a load in lenient mode fails with. -/
inductive Realm.Refuses (r : Realm P) (s : Snapshot) (copying : Bool) : SnapshotError → Prop
  /-- A live object is referred to, and the load is not one for copying. -/
  | live : copying = false → s.holdsLiveObjects = true → Refuses r s copying .liveReference
  /-- The root is a stub, or the walk comes to a fault. -/
  | fault {error : SnapshotError} : Faulty r s error → Refuses r s copying error

namespace Host

variable {host : Host P} {s : Snapshot} {copying : Bool} {r : Realm P}

/-- **A lenient load is ended by the snapshot only.** Whatever accessors and calls fail with, a load
in lenient mode succeeds, unless live objects are referred to that it may not share, the root is a
stub, or the walk through the snapshot comes to a node that is missing or to a container that nests
too deeply. -/
theorem load_lenient (hawake : Awakens Careful host) (hr : r.Reachable)
    (hlenient : r.options.strictness = .lenient)
    (hbound : (after (host.load s copying) r).heap.capacity ≤ UInt32.size) :
    (∃ v, answer (host.load s copying) r = .ok v ∧ ∀ error, ¬ r.Refuses s copying error) ∨
    (∃ error, answer (host.load s copying) r = .error error ∧ r.Refuses s copying error) := by
  by_cases hrefused : (!copying && s.holdsLiveObjects) = true
  · obtain ⟨hcopying, hlive⟩ := Bool.and_eq_true_iff.1 hrefused
    have hanswer : answer (host.load s copying) r = .error .liveReference := by
      unfold Host.load
      rw [if_pos hrefused]
      rfl
    exact Or.inr ⟨.liveReference, hanswer, .live (by simpa using hcopying) hlive⟩
  · have hadmitted : (!copying && s.holdsLiveObjects) = false := Bool.eq_false_iff.2 hrefused
    have hbuilding : r.building s copying = after (build s) (start r) := if_neg hrefused
    -- slots are never given back, so the bound holds when the graph has been built
    have hheap : (after (host.load s copying) r).heap = (host.ending s copying r).realm.heap := by
      rw [after_load, Realm.heap_unprotectAll]
    have hending : Careful (r.building s copying).realm (host.ending s copying r).realm :=
      acts_ending hawake
    rw [hheap] at hbound
    have hbuilt : (after (build s) (start r)).Bounded :=
      Nat.le_trans (hbuilding ▸ hending.evolves.heap.capacity) hbound
    have hends := Loading.ends_build hlenient s (Loading.within_start hr.sound.wellFormed)
    cases hbuild : answer (build s) (start r) with
    | error error =>
      have hload := Loading.run_load_of_error (Prod.ext hbuild rfl) host
      have hanswer : answer (host.load s copying) r = .error error :=
        congrArg Prod.fst (host.run_load hadmitted hload)
      exact Or.inr ⟨error, hanswer, .fault (hends.error hbuilt error hbuild)⟩
    | ok root =>
      have hoptions := hends.within.options
      have hawaken := Loading.runs_awaken_lenient hawake (hoptions ▸ hlenient)
      have hload := Loading.run_load_of_ok (Realm.run_of_answer hbuild) host
      rw [Realm.run_bind_of_ok hawaken] at hload
      have hanswer := congrArg Prod.fst (host.run_load hadmitted hload)
      refine Or.inl ⟨_, hanswer, fun error => ?_⟩
      rintro (⟨hcopying, hlive⟩ | hfault)
      · rw [hcopying, hlive] at hadmitted
        cases hadmitted
      · exact (hends.ok hbuilt root hbuild).1 error hfault

end Host

/-- A property that can be neither read nor written. -/
def Accessor.brittle : Accessor Scenario.platform :=
  ⟨.undefined, fun _ => .error .deadObject, some fun _ _ => throw .deadObject⟩

/-- The built-in classes, and one with a property that refuses every value, whose instances fail when
they are awakened. -/
def Registry.declareBrittle : Except RegistrationError (Registry Scenario.platform) := do
  let r ← builtins.register (.declareClass "Brittle" none false)
  let r ← r.register (.setFresh ⟨2⟩ fun _ => .vector .empty)
  let r ← r.register (.bindProperty ⟨2⟩ "grip" .brittle .standard)
  r.register (.bindFunction ⟨2⟩ "awake" (.callback [.fail .deadObject]))

/-- The registry with this class. -/
def Registry.withBrittle : Registry Scenario.platform := declareBrittle.toOption.getD .builtins

theorem Registry.declared_withBrittle : Registry.withBrittle.Declared := by
  unfold withBrittle
  cases h : declareBrittle with
  | error error => exact .builtins
  | ok r =>
    obtain ⟨r₁, h₁, h⟩ := except_bind_eq_ok h
    obtain ⟨r₂, h₂, h⟩ := except_bind_eq_ok h
    obtain ⟨r₃, h₃, h₄⟩ := except_bind_eq_ok h
    exact .register (.register (.register (.register .builtins h₁) h₂) h₃) h₄

/-- A realm with this class in its registry and nothing in its heap but the global object. -/
def Realm.ofBrittle : Realm Scenario.platform :=
  ofRegistry .withBrittle .standard Scenario.Stage.empty

theorem Realm.reachable_ofBrittle : ofBrittle.Reachable := by
  have hcapacity : ofBrittle.heap.capacity = 1 := by cbv
  exact ⟨.withBrittle, .standard, Scenario.Stage.empty, Registry.declared_withBrittle, .refl,
    by rw [hcapacity]; decide⟩

/-- An array and a property that wait for a node which never comes, a property that refuses what it is
given, and an instance of a class that is not known. -/
def Snapshot.ofBrittle : Snapshot :=
  ⟨#[⟨some "Brittle", none, ⟨[("grip", .array [.int 7, .stub "gone"]), ("next", .stub "gone"),
      ("other", .node 1)], by decide⟩⟩,
    ⟨some "Nobody", none, .empty⟩], .node 0⟩

/-- Everything goes wrong that can go wrong in a realm, and the load succeeds. -/
theorem Host.load_lenient_brittle :
    Realm.ofBrittle.Reachable ∧ Realm.ofBrittle.options.strictness = .lenient ∧
    (after ((Scenario.hostWithin false 1).load .ofBrittle false) Realm.ofBrittle).heap.capacity ≤
      UInt32.size ∧
    (after ((Scenario.hostWithin false 1).load .ofBrittle false) Realm.ofBrittle).pending =
      [.deadObject] ∧
    ∃ v, answer ((Scenario.hostWithin false 1).load .ofBrittle false) Realm.ofBrittle = .ok v ∧
      ∀ error, ¬ Realm.ofBrittle.Refuses .ofBrittle false error := by
  have hcapacity : (after ((Scenario.hostWithin false 1).load .ofBrittle false)
      Realm.ofBrittle).heap.capacity = 4 := by cbv
  have hbound : (after ((Scenario.hostWithin false 1).load .ofBrittle false)
      Realm.ofBrittle).heap.capacity ≤ UInt32.size := by rw [hcapacity]; decide
  have hanswer : answer ((Scenario.hostWithin false 1).load .ofBrittle false) Realm.ofBrittle =
      .ok (.object ⟨1, 0⟩) := by cbv
  refine ⟨Realm.reachable_ofBrittle, rfl, hbound, by cbv, ?_⟩
  obtain hok | ⟨error, hfails, -⟩ := load_lenient
    (Scenario.operates_hostWithin false 1).awakens Realm.reachable_ofBrittle rfl hbound
  · exact hok
  · cases hanswer.symm.trans hfails

end ScriptBridge
