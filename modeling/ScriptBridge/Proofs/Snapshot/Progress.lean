import ScriptBridge.Proofs.Snapshot.HalfBuilt
import Mathlib

/-!
# Progress in Reading

What it means that a part of a snapshot has been read: the nodes of the part have their objects,
which are filled, at the cost of so many new objects, and what was there before is left alone.
Parts are read one after the other, and what has been read goes into its place.

Main statements: `Progress.trans` and `Answers.put`.
-/

namespace ScriptBridge

namespace Snapshot

/-! ## What a part of a snapshot is made of -/

mutual

/-- The number of arrays in an entry. -/
def Entry.arrays : Entry → Nat
  | .array items => Entry.arraysOf items + 1
  | _ => 0

/-- The number of arrays in a list of entries. -/
def Entry.arraysOf : List Entry → Nat
  | [] => 0
  | entry :: entries => Entry.arrays entry + Entry.arraysOf entries

end

/-- The name and the source of a function that an entry of a node keeps. -/
def functionOf? : String × Entry → Option (String × String)
  | (key, .string source) => (functionName? key).map fun name => (name, source)
  | _ => none

/-- The name of the field that an entry of a node is about. -/
def fieldName (entry : String × Entry) : String := (functionOf? entry).elim entry.1 Prod.fst

/-- The number of arrays and functions that an entry of a node makes. -/
def entryCost (entry : String × Entry) : Nat :=
  if (functionOf? entry).isSome then 1 else entry.2.arrays

/-- The number of objects, arrays and functions that a node makes without the nodes inside. -/
def nodeCost (nodes : Array Node) (i : Nat) : Nat :=
  nodes[i]?.elim 0 fun node => (node.entries.entries.map entryCost).sum + 1

/-- The number of objects, arrays and functions that the nodes at some positions make. -/
def costOf (nodes : Array Node) (met : List Nat) : Nat := (met.map (nodeCost nodes)).sum

@[simp] theorem costOf_cons (nodes : Array Node) (i : Nat) (met : List Nat) :
    costOf nodes (i :: met) = nodeCost nodes i + costOf nodes met := by
  simp [costOf]

@[simp] theorem costOf_append (nodes : Array Node) (met more : List Nat) :
    costOf nodes (met ++ more) = costOf nodes met + costOf nodes more := by
  simp [costOf]

theorem costOf_perm {nodes : Array Node} {met met' : List Nat} (h : met.Perm met') :
    costOf nodes met = costOf nodes met' :=
  (h.map (nodeCost nodes)).sum_eq

theorem Entry.isLive_of_mem {items : List Entry} (h : Entry.anyLive items = false) {item : Entry}
    (hitem : item ∈ items) : item.isLive = false := by
  induction items with
  | nil => simp at hitem
  | cons first rest ih =>
    rw [Entry.anyLive, Bool.or_eq_false_iff] at h
    rcases List.mem_cons.1 hitem with rfl | hitem
    · exact h.1
    · exact ih h.2 hitem

theorem isLive_of_entry {s : Snapshot} (h : s.holdsLiveObjects = false) {i : Nat} {node : Node}
    (hnode : s.nodes[i]? = some node) {entry : String × Entry}
    (hentry : entry ∈ node.entries.entries) : entry.2.isLive = false := by
  rw [holdsLiveObjects, Bool.or_eq_false_iff, Array.any_eq_false] at h
  obtain ⟨hlt, rfl⟩ := Array.getElem?_eq_some_iff.1 hnode
  have hnone := h.2 i hlt
  rw [Bool.not_eq_true, List.any_eq_false] at hnone
  exact Bool.eq_false_iff.2 (hnone entry.2 (List.mem_map_of_mem hentry))

/-- What is asked of a snapshot so that nothing is lost when it is read: no classes, no live objects,
no two nodes with the same identifier, no two entries of a node about the same field. -/
structure Classless (s : Snapshot) : Prop where
  noClass : ∀ node ∈ s.nodes, node.className = none
  lifeless : s.holdsLiveObjects = false
  distinct : ∀ i j id, idAt? s.nodes i = some id → idAt? s.nodes j = some id → i = j
  names : ∀ node ∈ s.nodes, (node.entries.entries.map fieldName).Nodup

/-- What is asked of an entry of a snapshot: no live objects in it, and that one comes to it from the
root. -/
structure Within (s : Snapshot) (entry : Entry) : Prop where
  lifeless : entry.isLive = false
  named : ∀ id ∈ entry.stubs, s.Names id
  reached : ∀ i ∈ entry.positions, s.Reached i

theorem Classless.within_root {s : Snapshot} (h : s.Classless) : s.Within s.root := by
  have hlife := h.lifeless
  rw [holdsLiveObjects, Bool.or_eq_false_iff] at hlife
  exact ⟨hlife.1, fun _ => Or.inl, fun _ => .root⟩

theorem Classless.within_entry {s : Snapshot} (h : s.Classless) {i : Nat} (hi : s.Reached i)
    {node : Node} (hnode : s.nodes[i]? = some node) {entry : String × Entry}
    (hentry : entry ∈ node.entries.entries) : s.Within entry.2 := by
  have hvalue : entry.2 ∈ node.entries.values := List.mem_map_of_mem hentry
  refine ⟨isLive_of_entry h.lifeless hnode hentry, fun id hid => ?_, fun k hk => ?_⟩
  · exact Or.inr ⟨i, _, hi, hnode, Entry.mem_stubsOf_iff.2 ⟨entry.2, hvalue, hid⟩⟩
  · exact .inside hi hnode (Entry.mem_positionsOf_iff.2 ⟨entry.2, hvalue, hk⟩)

theorem Within.item {s : Snapshot} {items : List Entry} (h : s.Within (.array items)) {item : Entry}
    (hitem : item ∈ items) : s.Within item := by
  exact ⟨Entry.isLive_of_mem h.lifeless hitem,
    fun id hid => h.named id (Entry.mem_stubsOf_iff.2 ⟨item, hitem, hid⟩),
    fun i hi => h.reached i (Entry.mem_positionsOf_iff.2 ⟨item, hitem, hi⟩)⟩

end Snapshot

namespace Loading

open Snapshot (Entry Node Visits idAt? fieldName functionOf? entryCost costOf nodeCost)

variable {P : Platform}

/-! ## Runs of steps -/

/-- A step succeeds with an answer and leaves a state behind. -/
def Runs {α : Type} (step : LoadingM P α) (s : Loading P) (answer : α) (s' : Loading P) : Prop :=
  Id.run (step.run.run s) = (.ok answer, s')

section

variable {α β : Type} {s s' s'' : Loading P}

theorem runs_pure (answer : α) : Runs (pure answer) s answer s := rfl

theorem Runs.bind {step : LoadingM P α} {next : α → LoadingM P β} {a : α} {b : β}
    (h : Runs step s a s') (h' : Runs (next a) s' b s'') : Runs (step >>= next) s b s'' := by
  have hstep : step.run.run s = pure (.ok a, s') := h
  unfold Runs
  rw [ExceptT.run_bind, StateT.run_bind, hstep]
  exact h'

theorem runs_get : Runs get s s s := rfl

theorem runs_modify (f : Loading P → Loading P) : Runs (modify f) s () (f s) := rfl

theorem runs_ask (question : Realm P → α) : Runs (ask question) s (question s.realm) s := rfl

theorem runs_attempt {action : Action P α} {outcome : Except ScriptError α} {r : Realm P}
    (h : Id.run (action.run.run s.realm) = (outcome, r)) :
    Runs (attempt action) s outcome { s with realm := r } := by
  show (Except.ok (Id.run (action.run.run s.realm)).1,
    { s with realm := (Id.run (action.run.run s.realm)).2 }) = _
  rw [h]

theorem runs_perform {action : Action P α} {answer : α} {r : Realm P}
    (h : Id.run (action.run.run s.realm) = (.ok answer, r)) :
    Runs (perform action) s answer { s with realm := r } :=
  (runs_attempt h).bind (runs_pure answer)

theorem Runs.discard {step : LoadingM P α} {a : α} (h : Runs step s a s') :
    Runs (discard step) s () s' := by
  have hbind : Functor.discard step = step >>= fun _ => pure () := rfl
  rw [hbind]
  exact h.bind (runs_pure ())

theorem runs_write {h : Handle} {v : Value} (hkind : s.heap.kind? h = some .plain) (name : String)
    (hv : v.isInline = false) : Runs (write h name v) s () (s.put (.property h name) v) :=
  (runs_attempt (Realm.run_putProperty hkind name hv true)).bind (runs_pure ())

theorem runs_assignElement {a : Handle} {i : Nat} {v : Value} (hp : s.heap.Writable (.item a i))
    (hv : v.isInline = false) :
    Runs (discard (perform (Realm.assignElement a i v))) s () (s.put (.item a i) v) :=
  (runs_perform (Realm.run_assignElement hp hv)).discard

theorem runs_await (id : String) (p : Place) : Runs (await id p) s () (s.awaiting id p) :=
  runs_modify _

theorem runs_keepAlive (h : Handle) :
    Runs (keepAlive h) s () { s with realm := s.realm.protect h, made := h :: s.made } :=
  runs_modify _

/-- A loop over a list whose invariant speaks of what is left of the list. -/
theorem runs_forM {step : α → LoadingM P Unit} {I : List α → Loading P → Prop}
    (hstep : ∀ x xs s, I (x :: xs) s → ∃ s', Runs (step x) s () s' ∧ I xs s') {xs : List α}
    (h : I xs s) : ∃ s', Runs (xs.forM step) s () s' ∧ I [] s' := by
  induction xs generalizing s with
  | nil => exact ⟨s, runs_pure (), h⟩
  | cons x xs ih =>
    obtain ⟨s₁, hrun, h₁⟩ := hstep x xs s h
    obtain ⟨s₂, hrun', h₂⟩ := ih h₁
    exact ⟨s₂, hrun.bind hrun', h₂⟩

end

/-! ## Progress -/

/-- An entry of a node has come into its field. -/
structure Restored (fresh : Handle → Prop) (heap : Heap P) (L : Ledger) (h : Handle)
    (entry : String × Entry) : Prop where
  function : ∀ name source, functionOf? entry = some (name, source) →
    L.late? (.property h name) = none ∧ ∃ f, heap.at? (.property h name) = some (.function f) ∧
      heap.kind? f = some (.function ⟨name, .script source⟩)
  value : functionOf? entry = none →
    Holds fresh heap L (heap.at? (.property h entry.1)) (L.late? (.property h entry.1)) entry.2

/-- The object of a node has been filled: all entries have come into their fields, and there are no
other fields. -/
structure Complete (fresh : Handle → Prop) (heap : Heap P) (L : Ledger) (h : Handle)
    (entries : List (String × Entry)) : Prop where
  plain : heap.kind? h = some .plain
  fields : ∀ name v, heap.at? (.property h name) = some v → ∃ entry ∈ entries, fieldName entry = name
  restored : ∀ entry ∈ entries, Restored fresh heap L h entry

/-- What is new since a state. -/
def NewSince (s : Loading P) (h : Handle) : Prop := s.heap.contains h = false

/-- A part of a snapshot has been read: the nodes at the positions `met` have their objects, which
are filled, at the cost of so many new objects; places that were there are filled in `E` only. -/
structure Progress (snapshot : Snapshot) (old : Realm P) (E : Place → Prop) (met : List Nat)
    (cost : Nat) (L : Ledger) (s : Loading P) (L' : Ledger) (s' : Loading P) : Prop where
  consistent : Consistent snapshot old L' (fun _ => False) s'
  frame : Extends E L s L' s'
  only : ∀ i h, L'.object? i = some h → L.object? i = some h ∨ i ∈ met
  complete : ∀ i ∈ met, ∃ h node, snapshot.nodes[i]? = some node ∧ L'.object? i = some h ∧ NewSince s h ∧
    Complete (NewSince s) s'.heap L' h node.entries.entries
  /-- No array that was there comes into one more place. -/
  held : ∀ p a, old.heap.contains p.owner = false → s.heap.kind? a = some (.array #[]) →
    s'.heap.at? p = some (.object a) → s.heap.at? p = some (.object a)
  room : ∀ n, s.heap.HasRoom (cost + n) → s'.heap.HasRoom n

section

variable {snapshot : Snapshot} {old : Realm P} {todo : Place → Prop} {E E' E'' : Place → Prop}
  {met met' : List Nat} {cost cost' : Nat} {L L' L'' : Ledger} {s s' s'' : Loading P}

theorem fieldName_of_some {entry : String × Entry} {name source : String}
    (h : functionOf? entry = some (name, source)) : fieldName entry = name := by
  rw [fieldName, h, Option.elim_some]

theorem fieldName_of_none {entry : String × Entry} (h : functionOf? entry = none) :
    fieldName entry = entry.1 := by
  rw [fieldName, h, Option.elim_none]

theorem Restored.imp {fresh fresh' : Handle → Prop} {heap : Heap P} {h : Handle}
    {entry : String × Entry} (hr : Restored fresh heap L h entry) (himp : ∀ a, fresh a → fresh' a) :
    Restored fresh' heap L h entry :=
  ⟨hr.function, fun hnone => (hr.value hnone).imp himp⟩

theorem Restored.mono {fresh : Handle → Prop} {h : Handle} {entry : String × Entry}
    (hr : Restored fresh s.heap L h entry) (hs : Consistent snapshot old L todo s)
    (hext : Extends E L s L' s') (hE : ∀ p, E p → ¬fresh p.owner)
    (hlive : s.heap.contains h = true) (hout : ¬E (.property h (fieldName entry))) :
    Restored fresh s'.heap L' h entry := by
  constructor
  case function =>
    intro name source hfunction
    rw [fieldName_of_some hfunction] at hout
    obtain ⟨hlate, f, hat, hkind⟩ := hr.function name source hfunction
    refine ⟨?_, f, ?_, hext.kinds f _ hkind⟩
    · rw [hext.late (.property h name) hout hlive, hlate]
    · rw [hext.kept (.property h name) hout hlive hlate, hat]
  case value =>
    intro hfunction
    rw [fieldName_of_none hfunction] at hout
    exact (hr.value hfunction).mono_at hs hext hE hlive hout

theorem Complete.mono {fresh : Handle → Prop} {h : Handle} {entries : List (String × Entry)}
    (hc : Complete fresh s.heap L h entries) (hs : Consistent snapshot old L todo s)
    (hext : Extends E L s L' s') (hE : ∀ p, E p → ¬fresh p.owner) (hh : fresh h) :
    Complete fresh s'.heap L' h entries := by
  have hlive : s.heap.contains h = true := Heap.contains_iff_kind?.2 ⟨_, hc.plain⟩
  have hout : ∀ name, ¬E (.property h name) := fun name hEp => hE _ hEp hh
  constructor
  case plain => exact hext.kinds h _ hc.plain
  case fields =>
    intro name v hat
    cases hlate : L.late? (.property h name) with
    | none =>
      rw [hext.kept (.property h name) (hout name) hlive hlate] at hat
      exact hc.fields name v hat
    | some id =>
      obtain ⟨w, hw⟩ := hs.at?_isSome_of_late hlate
      exact hc.fields name w hw
  case restored =>
    intro entry hentry
    exact (hc.restored entry hentry).mono hs hext hE hlive (hout _)

theorem Complete.perm {fresh : Handle → Prop} {heap : Heap P} {h : Handle}
    {entries entries' : List (String × Entry)} (hc : Complete fresh heap L h entries)
    (hperm : entries.Perm entries') : Complete fresh heap L h entries' where
  plain := hc.plain
  fields name v hat := by
    obtain ⟨entry, hentry, hname⟩ := hc.fields name v hat
    exact ⟨entry, hperm.mem_iff.1 hentry, hname⟩
  restored entry hentry := hc.restored entry (hperm.mem_iff.2 hentry)

theorem Complete.imp {fresh fresh' : Handle → Prop} {heap : Heap P} {h : Handle}
    {entries : List (String × Entry)} (hc : Complete fresh heap L h entries)
    (himp : ∀ a, fresh a → fresh' a) : Complete fresh' heap L h entries :=
  ⟨hc.plain, hc.fields, fun entry hentry => (hc.restored entry hentry).imp himp⟩

theorem NewSince.of_extends {k : Handle} (hext : Extends E L s L' s') (h : NewSince s' k) :
    NewSince s k := by
  unfold NewSince at h ⊢
  cases hk : s.heap.contains k with
  | false => rfl
  | true =>
    rw [hext.contains hk] at h
    exact Bool.noConfusion h

/-- A step that meets no node. -/
theorem Extends.progress (hext : Extends E L s L' s')
    (hs' : Consistent snapshot old L' (fun _ => False) s') (hobject : L'.object? = L.object?)
    (hheld : ∀ p a, s'.heap.at? p = some (.object a) → s.heap.at? p = some (.object a))
    (hroom : ∀ n, s.heap.HasRoom (cost + n) → s'.heap.HasRoom n) :
    Progress snapshot old E [] cost L s L' s' where
  consistent := hs'
  frame := hext
  only i h hi := by
    rw [hobject] at hi
    exact Or.inl hi
  complete i hi := by simp at hi
  held p a _ _ hat := hheld p a hat
  room := hroom

/-- One part after the other. The second one fills places of objects that were there at the start
only, unless it comes after no node. -/
theorem Progress.trans (h : Progress snapshot old E met cost L s L' s')
    (h' : Progress snapshot old E' met' cost' L' s' L'' s'')
    (hE : ∀ p, E p ∨ E' p → s.heap.contains p.owner = true → E'' p)
    (hmet : met = [] ∨ ∀ p, E' p → s.heap.contains p.owner = true) :
    Progress snapshot old E'' (met ++ met') (cost + cost') L s L'' s'' where
  consistent := h'.consistent
  frame := (h.frame.imp fun p hp => hE p (Or.inl hp)).trans h'.frame fun p hp => hE p (Or.inr hp)
  only i k hi := by
    rcases h'.only i k hi with hi | hi
    · exact (h.only i k hi).imp_right (List.mem_append_left _)
    · exact Or.inr (List.mem_append_right _ hi)
  complete i hi := by
    rcases List.mem_append.1 hi with hi | hi
    · obtain ⟨k, node, hnode, hk, hnew, hcomplete⟩ := h.complete i hi
      have hout : ∀ p, E' p → ¬NewSince s p.owner := by
        intro p hp hnew'
        rcases hmet with rfl | hmet
        · simp at hi
        · rw [NewSince, hmet p hp] at hnew'
          exact Bool.noConfusion hnew'
      exact ⟨k, node, hnode, h'.frame.objects i k hk, hnew,
        hcomplete.mono h.consistent h'.frame hout hnew⟩
    · obtain ⟨k, node, hnode, hk, hnew, hcomplete⟩ := h'.complete i hi
      have hsince : ∀ a, NewSince s' a → NewSince s a := fun a ha => ha.of_extends h.frame
      exact ⟨k, node, hnode, hk, hsince k hnew, hcomplete.imp hsince⟩
  held p a hnew ha hat := h.held p a hnew ha (h'.held p a hnew (h.frame.kinds a _ ha) hat)
  room n hn := by
    rw [Nat.add_assoc] at hn
    exact h'.room n (h.room _ hn)

/-- A value is put into a place that was there. -/
theorem Progress.put (h : Progress snapshot old E met cost L s L' s') {p : Place} {v : Value}
    (hs' : Consistent snapshot old L' (fun _ => False) (s'.put p v)) (hp : s'.heap.Writable p)
    (hlive : s.heap.contains p.owner = true) (hE : E' p) (himp : ∀ q, E q → E' q)
    (hv : ∀ a, v = .object a → s.heap.kind? a ≠ some (.array #[])) :
    Progress snapshot old E' met cost L s L' (s'.put p v) where
  consistent := hs'
  frame := (h.frame.imp fun q hq _ => himp q hq).put hp (fun _ => Or.inl hE) v
  only := h.only
  complete i hi := by
    obtain ⟨k, node, hnode, hk, hnew, hcomplete⟩ := h.complete i hi
    have hput : Extends (· = p) L' s' L' (s'.put p v) :=
      (Extends.refl (· = p) L' s').put hp (fun _ => Or.inl rfl) v
    have hout : ∀ q, q = p → ¬NewSince s q.owner := by
      rintro q rfl hnew'
      rw [NewSince, hlive] at hnew'
      exact Bool.noConfusion hnew'
    exact ⟨k, node, hnode, hk, hnew, hcomplete.mono h.consistent hput hout hnew⟩
  held q a hnew ha hat := by
    by_cases hq : q = p
    · subst hq
      rw [heap_put, Heap.at?_put_self hp] at hat
      exact absurd ha (hv a (Option.some.inj hat))
    · rw [heap_put, Heap.at?_put_of_ne hp hq] at hat
      exact h.held q a hnew ha hat
  room n hn := Heap.hasRoom_put.2 (h.room n hn)

/-- A property is noted that has to be written again. -/
theorem Progress.renew (h : Progress snapshot old E met cost L s L' s') {owner array : Handle}
    {name : String} (hs' : Consistent snapshot old L' (fun _ => False)
      { s' with renewals := s'.renewals ++ [(owner, name, array)] }) :
    Progress snapshot old E met cost L s L'
      { s' with renewals := s'.renewals ++ [(owner, name, array)] } where
  consistent := hs'
  frame := ⟨h.frame.objects, h.frame.kinds, h.frame.late, h.frame.kept⟩
  only := h.only
  complete := h.complete
  held := h.held
  room := h.room

theorem Progress.perm (h : Progress snapshot old E met cost L s L' s') (hperm : met.Perm met') :
    Progress snapshot old E met' cost L s L' s' where
  consistent := h.consistent
  frame := h.frame
  only i k hi := (h.only i k hi).imp_right hperm.mem_iff.1
  complete i hi := h.complete i (hperm.mem_iff.2 hi)
  held := h.held
  room := h.room

theorem Progress.unmet (h : Progress snapshot old E met cost L s L' s')
    (hnodup : (met ++ met').Nodup) (hunmet : ∀ i ∈ met ++ met', L.object? i = none) :
    ∀ i ∈ met', L'.object? i = none := by
  intro i hi
  rw [Option.eq_none_iff_forall_ne_some]
  intro k hk
  rcases h.only i k hk with hk | hmem
  · rw [hunmet i (List.mem_append_right _ hi)] at hk
    simp at hk
  · exact (List.nodup_append.1 hnodup).2.2 i hmem i hi rfl

theorem Progress.at?_isSome (h : Progress snapshot old E met cost L s L' s') {p : Place} {v : Value}
    (hp : ¬E p) (hat : s.heap.at? p = some v) : ∃ w, s'.heap.at? p = some w := by
  have hlive := Heap.contains_of_at? hat
  cases hlate : L.late? p with
  | none => exact ⟨v, by rw [h.frame.kept p hp hlive hlate, hat]⟩
  | some id =>
    have hlate' : L'.late? p = some id := by rw [h.frame.late p hp hlive, hlate]
    exact h.consistent.at?_isSome_of_late hlate'

theorem Progress.at?_eq_none (h : Progress snapshot old E met cost L s L' s')
    (hs : Consistent snapshot old L todo s) {p : Place} (hp : ¬E p)
    (hlive : s.heap.contains p.owner = true) (hat : s.heap.at? p = none) :
    s'.heap.at? p = none := by
  rw [h.frame.kept p hp hlive (hs.late_of_at? hat), hat]

/-- What it takes to read a part of a snapshot. -/
structure Ready (snapshot : Snapshot) (old : Realm P) (met : List Nat) (cost : Nat) (L : Ledger)
    (s : Loading P) : Prop where
  nodup : met.Nodup
  unmet : ∀ i ∈ met, L.object? i = none
  consistent : Consistent snapshot old L (fun _ => False) s
  room : s.heap.HasRoom cost

theorem Ready.first (h : Ready snapshot old (met ++ met') (cost + cost') L s) :
    Ready snapshot old met cost L s where
  nodup := (List.nodup_append.1 h.nodup).1
  unmet i hi := h.unmet i (List.mem_append_left _ hi)
  consistent := h.consistent
  room := h.room.mono (Nat.le_add_right _ _)

theorem Ready.next (h : Ready snapshot old (met ++ met') (cost + cost') L s)
    (hfirst : Progress snapshot old E met cost L s L' s') : Ready snapshot old met' cost' L' s' where
  nodup := (List.nodup_append.1 h.nodup).2.1
  unmet := hfirst.unmet h.nodup h.unmet
  consistent := hfirst.consistent
  room := hfirst.room cost' h.room

/-! ## New objects -/

theorem at?_ofForm_array (p : Place) :
    (ScriptObject.ofForm (.array #[]) : ScriptObject P).at? p = none := by
  cases p <;> simp [ScriptObject.at?, ScriptObject.ofForm, ScriptObject.items?, Table.find?_empty]

theorem at?_ofForm_plain (p : Place) :
    (ScriptObject.ofForm .plain : ScriptObject P).at? p = none := by
  cases p <;> simp [ScriptObject.at?, ScriptObject.ofForm, ScriptObject.items?, Table.find?_empty]

theorem at?_ofForm_function (f : FunctionObject P) (p : Place) :
    (ScriptObject.ofForm (.function f)).at? p = none := by
  cases p <;> simp [ScriptObject.at?, ScriptObject.ofForm, ScriptObject.items?, Table.find?_empty]

/-- The state after an object has been made. -/
def allocated (s : Loading P) (object : ScriptObject P) : Loading P :=
  { s with realm := (s.realm.allocate object).2 }

/-- The state after an object has been made that is kept alive. -/
def tracked (s : Loading P) (object : ScriptObject P) : Loading P :=
  { s.allocated object with
    realm := (s.realm.allocate object).2.protect (s.heap.allocate object).1
    made := (s.heap.allocate object).1 :: s.made }

theorem runs_newArray :
    Runs (perform (modifyGet (Realm.newArray []))) s (s.heap.allocate (.ofForm (.array #[]))).1
      (s.allocated (.ofForm (.array #[]))) :=
  runs_perform rfl

theorem runs_newObject :
    Runs (perform (modifyGet Realm.newObject)) s (s.heap.allocate (.ofForm .plain)).1
      (s.allocated (.ofForm .plain)) :=
  runs_perform rfl

theorem runs_newFunction (name : String) (body : FunctionBody P) :
    Runs (perform (modifyGet (Realm.newFunction name body))) s
      (s.heap.allocate (.ofForm (.function ⟨name, body⟩))).1
      (s.allocated (.ofForm (.function ⟨name, body⟩))) :=
  runs_perform rfl

theorem runs_track (object : ScriptObject P) :
    Runs (keepAlive (s.heap.allocate object).1) (s.allocated object) () (s.tracked object) :=
  runs_keepAlive _

/-- A new object is made. -/
theorem Ready.allocate (h : Ready snapshot old met cost L s) (hcost : 0 < cost) {object : ScriptObject P}
    (hempty : ∀ p, object.at? p = none) (s' : Loading P) (halike : Alike s s')
    (hheap : s'.heap = (s.heap.allocate object).2) :
    NewSince s (s.heap.allocate object).1 ∧
      s'.heap.kind? (s.heap.allocate object).1 = some object.kind ∧
      (∀ p, s'.heap.at? p = s.heap.at? p) ∧
      Progress snapshot old (fun _ => False) [] 1 L s L s' := by
  have hwf := h.consistent.wellFormed
  have hroom : s.heap.HasRoom 1 := h.room.mono hcost
  have hat : ∀ p, s'.heap.at? p = s.heap.at? p := by
    rw [hheap]
    exact Heap.at?_allocate hwf hroom hempty
  refine ⟨Heap.contains_before_allocate hwf hroom object, ?_, hat, ?_⟩
  · rw [hheap, Heap.kind?_allocate hwf hroom, if_pos rfl]
  · refine ((Extends.refl _ L s).allocate h.consistent hroom hempty hheap).progress
      (h.consistent.allocate hroom hempty halike hheap) rfl ?_ ?_
    · intro p a hp
      rw [hat] at hp
      exact hp
    · intro n hn
      rw [hheap]
      rw [Nat.add_comm] at hn
      exact hn.allocate object

/-! ## Values -/

/-- A value that is in no new place, if it is an array. -/
def Unplaced (old : Realm P) (s : Loading P) (v : Value) : Prop :=
  ∀ a, v = .object a → s.heap.kind? a = some (.array #[]) →
    ∀ q, old.heap.contains q.owner = false → s.heap.at? q ≠ some (.object a)

/-- An entry has been read as a value, which waits for being put into its place. -/
structure Answers (snapshot : Snapshot) (old : Realm P) (entry : Entry) (met : List Nat) (cost : Nat)
    (L : Ledger) (s : Loading P) (v : Value) (L' : Ledger) (s' : Loading P) : Prop where
  progress : Progress snapshot old (fun _ => False) met cost L s L' s'
  holds : Holds (NewSince s) s'.heap L' (some v) none entry
  unplaced : Unplaced old s' v

theorem isInline_of_leafValue? {entry : Entry} {v : Value} (hleaf : leafValue? entry = some v) :
    v.isInline = false := by
  cases entry with
  | int n =>
    rw [← Option.some.inj hleaf, intValue]
    split <;> rfl
  | null | bool | double | string => rw [← Option.some.inj hleaf]; rfl
  | array | node | stub | reference => cases hleaf

theorem Holds.isInline {fresh : Handle → Prop} {heap : Heap P} {v : Value} {entry : Entry}
    (h : Holds fresh heap L (some v) none entry) : v.isInline = false := by
  cases h with
  | leaf hleaf => exact isInline_of_leafValue? hleaf
  | node => rfl
  | array => rfl

theorem leafValue?_ne_object {entry : Entry} {a : Handle} :
    leafValue? entry ≠ some (.object a) := by
  cases entry with
  | int n =>
    simp only [leafValue?, intValue]
    split <;> simp
  | _ => simp [leafValue?]

/-- What an entry has been read as can be put into any place. -/
theorem Answers.admissible {entry : Entry} {v : Value}
    (h : Answers snapshot old entry met cost L s v L' s') (p : Place) : Admissible old s' p v := by
  rintro k rfl
  refine ⟨?_, fun harray q hq hat => absurd hat (h.unplaced k rfl harray q hq)⟩
  cases h.holds with
  | leaf hleaf => exact absurd hleaf leafValue?_ne_object
  | node hi => exact Heap.contains_iff_kind?.2 ⟨_, (h.progress.consistent.object _ k hi).2⟩
  | array _ hkind => exact Heap.contains_iff_kind?.2 ⟨_, hkind⟩

/-- What an entry has been read as is no array that was there before. -/
theorem Answers.kind?_ne {entry : Entry} {v : Value}
    (h : Answers snapshot old entry met cost L s v L' s') (a : Handle) (hv : v = .object a) :
    s.heap.kind? a ≠ some (.array #[]) := by
  subst hv
  intro hkind
  have hkind' := h.progress.frame.kinds a _ hkind
  cases h.holds with
  | leaf hleaf => exact absurd hleaf leafValue?_ne_object
  | node hi =>
    rw [(h.progress.consistent.object _ a hi).2] at hkind'
    simp at hkind'
  | array hnew =>
    rw [NewSince, Heap.contains_iff_kind?.2 ⟨_, hkind⟩] at hnew
    exact Bool.noConfusion hnew

/-- A value goes into its place, which was there before and is free. -/
theorem Answers.put {entry : Entry} {v : Value} (h : Answers snapshot old entry met cost L s v L' s')
    {p : Place} (hp : s'.heap.Writable p) (hnew : old.heap.contains p.owner = false)
    (hlive : s.heap.contains p.owner = true) (hat : s'.heap.at? p = none) :
    Progress snapshot old (· = p) met cost L s L' (s'.put p v) ∧
      Holds (NewSince s) (s'.put p v).heap L' ((s'.put p v).heap.at? p) (L'.late? p) entry := by
  have hs' := h.progress.consistent
  have hput : Extends (· = p) L' s' L' (s'.put p v) :=
    (Extends.refl (· = p) L' s').put hp (fun _ => Or.inl rfl) v
  refine ⟨h.progress.put (hs'.put hp hnew hat (h.admissible p)) hp hlive rfl ?_ h.kind?_ne, ?_⟩
  · exact fun q hq => hq.elim
  · rw [heap_put, Heap.at?_put_self hp, hs'.late_of_at? hat]
    refine h.holds.mono hs' hput ?_
    rintro q rfl hnew'
    rw [NewSince, hlive] at hnew'
    exact Bool.noConfusion hnew'

/-- A place comes to wait. -/
theorem Ready.await (h : Ready snapshot old [] cost L s) {p : Place} (hp : s.heap.Writable p)
    (hnew : old.heap.contains p.owner = false) (hat : s.heap.at? p = none) {id : String}
    (hid : snapshot.Names id) (fresh : Handle → Prop) :
    Progress snapshot old (· = p) [] cost L s (L.await p id) ((s.awaiting id p).put p .null) ∧
      Holds fresh ((s.awaiting id p).put p .null).heap (L.await p id)
        (((s.awaiting id p).put p .null).heap.at? p) ((L.await p id).late? p) (.stub id) := by
  constructor
  · refine ((Extends.refl (· = p) L s).await hp (fun _ => rfl) id).progress
      (h.consistent.await hp hnew hat hid) rfl ?_ ?_
    · intro q a hq
      have hqp : q ≠ p := by
        rintro rfl
        have hself : (s.heap.put q .null).at? q = some .null := Heap.at?_put_self hp
        have hq' : (s.heap.put q .null).at? q = some (.object a) := hq
        rw [hself] at hq'
        simp at hq'
      exact (Heap.at?_put_of_ne hp hqp).symm.trans hq
    · intro n hn
      exact Heap.hasRoom_put.2 (hn.mono (Nat.le_add_left _ _))
  · have hlate : (L.await p id).late? p = some id := if_pos rfl
    rw [hlate]
    exact .stub

end

end Loading

end ScriptBridge
