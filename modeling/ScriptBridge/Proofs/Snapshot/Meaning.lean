import ScriptBridge.Proofs.Snapshot.Loading
import ScriptBridge.Scenario.Script

/-!
# What Snapshots without Classes Mean

A tree of nodes without classes stands for a graph of plain objects and arrays, wherever its stubs
stand and in whatever order its entries come. In lenient mode a stub whose node one never comes to
stands for null; in strict mode it makes the load fail.

Main statement: `Host.load_tree`.
-/

namespace ScriptBridge

namespace Snapshot

variable {s : Snapshot}

/-- A tree of nodes without classes and without live objects. -/
structure ClasslessTree (s : Snapshot) : Prop where
  noClass : ∀ node ∈ s.nodes, node.className = none
  lifeless : s.holdsLiveObjects = false
  /-- Each node stands in one place at most. -/
  once : s.Once
  /-- No two nodes carry the same identifier. -/
  distinct : ∀ i j id, idAt? s.nodes i = some id → idAt? s.nodes j = some id → i = j
  /-- The root is no stub. -/
  root : ∀ id, s.root ≠ .stub id
  /-- No node has an entry and a function of the same name. -/
  names : ∀ node ∈ s.nodes, ∀ name source entry,
    (functionKey name, .string source) ∈ node.entries.entries → (name, entry) ∉ node.entries.entries

/-- A stub that one comes to from the root, while one comes to no node that carries its identifier. -/
def Dangling (s : Snapshot) (id : String) : Prop :=
  s.Names id ∧ ∀ i, s.Reached i → idAt? s.nodes i ≠ some id

theorem eq_functionKey {key name : String} (h : functionName? key = some name) :
    key = functionKey name := by
  unfold functionName? at h
  split at h
  · next rest hrest =>
    have hlist : key.toList = rest.reverse ++ ['(', ')'] := by
      rw [← List.reverse_reverse key.toList, hrest]
      simp
    rw [← Option.some.inj h, functionKey, functionMark, ← String.toList_inj, hlist]
    simp
  · cases h

open Loading (functionOf?_eq_some fieldName_of_some fieldName_of_none)

/-- Entries of a node that are about the same field are the same. -/
theorem ClasslessTree.eq_of_fieldName (hs : s.ClasslessTree) {node : Node} (hnode : node ∈ s.nodes)
    {entry other : String × Entry} (hentry : entry ∈ node.entries.entries)
    (hother : other ∈ node.entries.entries) (hname : fieldName entry = fieldName other) :
    entry = other := by
  -- an entry is known by its key
  have hkeys : entry.1 = other.1 → entry = other := by
    intro hkey
    have hfind := Table.find?_eq_some_iff.2 hentry
    rw [hkey, Table.find?_eq_some_iff.2 hother] at hfind
    exact Prod.ext hkey (Option.some.inj hfind).symm
  cases hfunction : functionOf? entry with
  | none =>
    rw [fieldName_of_none hfunction] at hname
    cases hfunction' : functionOf? other with
    | none => exact hkeys (hname.trans (fieldName_of_none hfunction'))
    | some found =>
      rw [fieldName_of_some hfunction'] at hname
      obtain ⟨key, rfl, hkey⟩ := functionOf?_eq_some hfunction'
      obtain rfl := eq_functionKey hkey
      exact absurd (hname ▸ hentry) (hs.names node hnode found.1 found.2 entry.2 hother)
  | some found =>
    rw [fieldName_of_some hfunction] at hname
    obtain ⟨key, rfl, hkey⟩ := functionOf?_eq_some hfunction
    obtain rfl := eq_functionKey hkey
    cases hfunction' : functionOf? other with
    | none =>
      rw [fieldName_of_none hfunction'] at hname
      exact absurd (hname ▸ hother) (hs.names node hnode found.1 found.2 other.2 hentry)
    | some found' =>
      rw [fieldName_of_some hfunction'] at hname
      obtain ⟨key', rfl, hkey'⟩ := functionOf?_eq_some hfunction'
      obtain rfl := eq_functionKey hkey'
      exact hkeys (congrArg functionKey hname)

theorem ClasslessTree.classless (hs : s.ClasslessTree) : s.Classless where
  noClass := hs.noClass
  lifeless := hs.lifeless
  distinct := hs.distinct
  names node hnode :=
    List.Nodup.map_on (fun _ hentry _ hother => hs.eq_of_fieldName hnode hentry hother)
      (List.Nodup.of_map _ node.entries.nodup)

end Snapshot

namespace Loading

open Snapshot (Entry Visits idAt? functionOf? costOf)

variable {P : Platform}

/-! ## Failure -/

/-- A step fails with an error and leaves a state behind. -/
def Fails {α : Type} (step : LoadingM P α) (s : Loading P) (error : SnapshotError)
    (s' : Loading P) : Prop :=
  Id.run (step.run.run s) = (.error error, s')

section

variable {α β : Type} {s s' s'' : Loading P} {error : SnapshotError}

theorem Fails.bind {step : LoadingM P α} (h : Fails step s error s') (next : α → LoadingM P β) :
    Fails (step >>= next) s error s' := by
  have hstep : step.run.run s = pure (.error error, s') := h
  unfold Fails
  rw [ExceptT.run_bind, StateT.run_bind, hstep]
  rfl

theorem Runs.fails {step : LoadingM P α} {next : α → LoadingM P β} {a : α} (h : Runs step s a s')
    (h' : Fails (next a) s' error s'') : Fails (step >>= next) s error s'' := by
  have hstep : step.run.run s = pure (.ok a, s') := h
  unfold Fails
  rw [ExceptT.run_bind, StateT.run_bind, hstep]
  exact h'

end

section

variable {snapshot : Snapshot} {old : Realm P} {L : Ledger} {s t : Loading P}

/-- In strict mode the places of a stub without a node are not passed over. -/
theorem fails_settleEntry (hstrict : t.realm.options.strictness = .strict) {id : String}
    (hid : t.built.lookup id = none) (places : List Place) :
    Fails (settleEntry (id, places)) t (.unresolvedStub id) t := by
  refine runs_get.fails ?_
  rw [hid]
  refine (runs_ask _).fails ?_
  rw [if_pos (by simp [hstrict])]
  rfl

/-- Serving places one after the other fails at the first ones whose node is not there. -/
theorem fails_forM_settleEntry (hstrict : old.options.strictness = .strict)
    {rest : List (String × List Place)}
    (hrest : ∀ entry ∈ rest, ∀ p ∈ entry.2, L.late? p = some entry.1)
    (ht : Consistent snapshot old L (Left L s rest) t) (hbuilt : t.built = s.built)
    (hmissing : ∃ entry ∈ rest, s.built.lookup entry.1 = none) :
    ∃ entry ∈ rest, s.built.lookup entry.1 = none ∧
      ∃ t', Fails (rest.forM settleEntry) t (.unresolvedStub entry.1) t' := by
  induction rest generalizing t with
  | nil => simp at hmissing
  | cons first rest ih =>
    obtain ⟨id, places⟩ := first
    cases hfound : s.built.lookup id with
    | none =>
      have hfails := fails_settleEntry (by rw [ht.options, hstrict]) (hbuilt ▸ hfound) places
      exact ⟨(id, places), List.mem_cons_self, hfound, t, hfails.bind fun _ => rest.forM settleEntry⟩
    | some target =>
      obtain ⟨t', hrun, ht', hsettled⟩ := runs_settleEntry ht hbuilt (hrest _ List.mem_cons_self)
        fun _ => ⟨target, hfound⟩
      -- what is missing comes later
      have hmissing' : ∃ entry ∈ rest, s.built.lookup entry.1 = none := by
        obtain ⟨entry, hentry, hnone⟩ := hmissing
        rcases List.mem_cons.1 hentry with rfl | hentry
        · rw [hfound] at hnone
          cases hnone
        · exact ⟨entry, hentry, hnone⟩
      obtain ⟨entry, hentry, hnone, t'', hfails⟩ :=
        ih (fun entry hentry => hrest entry (List.mem_cons_of_mem _ hentry)) ht'
          (hsettled.alike.built.trans hbuilt) hmissing'
      exact ⟨entry, List.mem_cons_of_mem _ hentry, hnone, t'', hrun.fails hfails⟩

theorem fails_settleAll (hs : Consistent snapshot old L (fun _ => False) s)
    (hstrict : old.options.strictness = .strict) {p : Place} {id : String}
    (hp : L.late? p = some id) (hid : s.built.lookup id = none) :
    ∃ id' s', (∃ q, L.late? q = some id') ∧ s.built.lookup id' = none ∧
      Fails settleAll s (.unresolvedStub id') s' := by
  obtain ⟨places, hplaces⟩ : ∃ places, (id, places) ∈ s.waiting.entries := by
    rcases hs.waits p id hp with ⟨hwait | hfalse, -⟩ | ⟨k, hk, -⟩
    · unfold waitingFor at hwait
      cases hfind : s.waiting.find? id with
      | none => simp [hfind] at hwait
      | some places => exact ⟨places, Table.find?_eq_some_iff.1 hfind⟩
    · exact hfalse.elim
    · rw [hid] at hk
      cases hk
  obtain ⟨⟨id', places'⟩, hentry, hnone, s', hfails⟩ :=
    fails_forM_settleEntry (t := { s with waiting := .empty }) hstrict
      (fun entry hentry => hs.late?_of_entry hentry) hs.settling rfl ⟨_, hplaces, hid⟩
  obtain ⟨q, hq⟩ := List.exists_mem_of_ne_nil places'
    (hs.awaited id' places' (Table.find?_eq_some_iff.2 hentry))
  exact ⟨id', s', ⟨q, hs.late?_of_entry hentry q hq⟩, hnone,
    runs_get.fails ((runs_modify _).fails hfails)⟩

/-! ## Stubs that One Comes to -/

/-- Where a stub stands, there is a late place. -/
theorem Holds.late_of_stub {fresh : Handle → Prop} {heap : Heap P} {v? : Option Value}
    {id? : Option String} {entry : Entry} (h : Holds fresh heap L v? id? entry) {id : String}
    (hid : id ∈ entry.stubs) : id? = some id ∨ ∃ p, L.late? p = some id := by
  induction h with
  | stub => exact Or.inl (by rw [List.mem_singleton.1 hid])
  | @leaf entry v hleaf => cases entry <;> simp [leafValue?, Entry.stubs] at hleaf hid
  | node => simp [Entry.stubs] at hid
  | @array a items _ _ _ _ _ ih =>
    right
    obtain ⟨item, hitem, hid⟩ := Entry.mem_stubsOf_iff.1 hid
    obtain ⟨i, hi⟩ := List.mem_iff_getElem?.1 hitem
    rcases ih i item hi hid with hhere | hinside
    · exact ⟨_, hhere⟩
    · exact hinside

theorem stubs_of_functionOf? {entry : String × Entry} {found : String × String}
    (h : functionOf? entry = some found) : entry.2.stubs = [] := by
  obtain ⟨key, rfl, -⟩ := functionOf?_eq_some h
  rfl

/-- When everything has been read, there is a late place for each stub that one comes to. -/
theorem Answers.late_of_names {met : List Nat} {cost room : Nat} {v : Value} {L₀ : Ledger}
    (h : Answers snapshot old snapshot.root met cost L₀ s v L t)
    (hvisits : Visits snapshot.nodes room [snapshot.root] met) {id : String}
    (hid : snapshot.Names id) : ∃ p, L.late? p = some id := by
  rcases hid with hroot | ⟨i, node, hi, hnode, hid⟩
  · exact (h.holds.late_of_stub hroot).resolve_left (by simp)
  · obtain ⟨k, node', hnode', -, -, hcomplete⟩ :=
      h.progress.complete i ((hvisits.mem_iff_reached i).2 hi)
    obtain rfl := Option.some.inj (hnode.symm.trans hnode')
    obtain ⟨value, hvalue, hid⟩ := Entry.mem_stubsOf_iff.1 hid
    obtain ⟨entry, hentry, rfl⟩ := List.mem_map.1 hvalue
    cases hfunction : functionOf? entry with
    | some found =>
      rw [stubs_of_functionOf? hfunction] at hid
      cases hid
    | none =>
      rcases ((hcomplete.restored entry hentry).value hfunction).late_of_stub hid with hhere | hinside
      · exact ⟨_, hhere⟩
      · exact hinside

end

/-- A graph has been made as a snapshot says, and a value stands for its root. -/
structure Realized (snapshot : Snapshot) (old new : Heap P) (object? : Nat → Option Handle)
    (met : List Nat) (v : Value) : Prop extends Rebuilt snapshot old new object? met where
  root : Stands snapshot old new object? v snapshot.root
  /-- When the root is an array, it is in no new place. -/
  whole : ∀ a, v = .object a → new.kind? a = some (.array #[]) →
    ∀ q, old.contains q.owner = false → new.at? q ≠ some (.object a)

end Loading

open Snapshot (Entry Visits idAt? costOf)

variable {P : Platform}

/-- In strict mode a load ends with a dangling stub, once everything else has been read. -/
theorem Host.load_dangling (host : Host P) {s : Snapshot} (hs : s.ClasslessTree) {r : Realm P}
    (hr : r.heap.WellFormed) {met : List Nat}
    (hvisits : Visits s.nodes r.options.depthLimit [s.root] met)
    (hroom : r.heap.HasRoom (s.root.arrays + costOf s.nodes met)) (copying : Bool)
    (hstrict : r.options.strictness = .strict) {id : String} (hid : s.Dangling id) :
    ∃ id', s.Dangling id' ∧
      (Id.run ((host.load s copying).run.run r)).1 = .error (.unresolvedStub id') := by
  have hclassless := hs.classless
  obtain ⟨v, L, s₁, hread, hanswers⟩ := Loading.reads_read hclassless r r.options.depthLimit s.root
    met .empty ⟨r, [], .empty, 0, [], [], []⟩ hclassless.within_root hs.root hvisits
    ⟨hvisits.nodup hs.once, fun _ _ => rfl, Loading.consistent_start s hr, hroom⟩
  have hs₁ := hanswers.progress.consistent
  -- what is known by an identifier is a node that one comes to
  have hbuilt : ∀ id k, s₁.built.lookup id = some k →
      ∃ i, s.Reached i ∧ idAt? s.nodes i = some id := by
    intro id k hk
    obtain ⟨i, hi, hidAt⟩ := (hs₁.built id k).1 hk
    rcases hanswers.progress.only i k hi with hbefore | hmet
    · simp [Loading.Ledger.empty] at hbefore
    · exact ⟨i, (hvisits.mem_iff_reached i).1 hmet, hidAt⟩
  obtain ⟨p, hp⟩ := hanswers.late_of_names hvisits hid.1
  have hmissing : s₁.built.lookup id = none := by
    rw [Option.eq_none_iff_forall_ne_some]
    intro k hk
    obtain ⟨i, hi, hidAt⟩ := hbuilt id k hk
    exact hid.2 i hi hidAt
  obtain ⟨id', s₂, ⟨q, hq⟩, hnone, hfails⟩ := Loading.fails_settleAll hs₁ hstrict hp hmissing
  have hload : Loading.Fails (Loading.load host s) ⟨r, [], .empty, 0, [], [], []⟩
      (.unresolvedStub id') s₂ :=
    (Loading.runs_ask _).fails (hread.fails (hfails.bind _))
  refine ⟨id', ⟨hs₁.named q id' hq, fun i hi hidAt => ?_⟩, ?_⟩
  · obtain ⟨k, node, -, hk, -⟩ :=
      hanswers.progress.complete i ((hvisits.mem_iff_reached i).2 hi)
    have hsome := (hs₁.built id' k).2 ⟨i, hk, hidAt⟩
    rw [hnone] at hsome
    cases hsome
  · rw [host.run_load (by rw [hs.lifeless, Bool.and_false]) hload]

/-- **The meaning of snapshots without classes.** A tree of nodes without classes is loaded, when the
depth limit admits it and there is room for its objects: each node that one comes to is a new plain
object, each array a new array, and where a stub stands there is the object of its node, or null if
one does not come to that node. In strict mode this is so when no stub is dangling; otherwise the
load fails with one that is. -/
theorem Host.load_tree (host : Host P) {s : Snapshot} (hs : s.ClasslessTree) {r : Realm P}
    (hr : r.Reachable) {met : List Nat}
    (hvisits : Visits s.nodes r.options.depthLimit [s.root] met)
    (hroom : r.heap.HasRoom (s.root.arrays + costOf s.nodes met)) (copying : Bool) :
    (r.options.strictness = .lenient ∨ (∀ id, ¬ s.Dangling id) →
      ∃ v r' object?, Id.run ((host.load s copying).run.run r) = (.ok (r'.expand v), r') ∧
        Loading.Realized s r.heap r'.heap object? met v) ∧
    (r.options.strictness = .strict → (∃ id, s.Dangling id) →
      ∃ id, s.Dangling id ∧
        (Id.run ((host.load s copying).run.run r)).1 = .error (.unresolvedStub id)) := by
  have hwf := hr.sound.wellFormed
  constructor
  · intro hmode
    have hnamed : r.options.strictness = .strict →
        ∀ id, s.Names id → ∃ i ∈ met, idAt? s.nodes i = some id := by
      intro hstrict id hid
      rcases hmode with hlenient | hnone
      · rw [hstrict] at hlenient
        cases hlenient
      · by_contra hmissing
        refine hnone id ⟨hid, fun i hi hidAt => hmissing ⟨i, ?_, hidAt⟩⟩
        exact (hvisits.mem_iff_reached i).2 hi
    obtain ⟨v, r', object?, hload, hrebuilt, hroot, hwhole⟩ :=
      host.load_rebuilds hs.classless hwf hvisits (hvisits.nodup hs.once) hs.root hroom hnamed copying
    exact ⟨v, r', object?, hload, { hrebuilt with root := hroot, whole := hwhole }⟩
  · rintro hstrict ⟨id, hid⟩
    exact host.load_dangling hs hwf hvisits hroom copying hstrict hid

/-- Stubs before their node, inside of arrays, inside of their own node, and one without a node. -/
def Snapshot.ofStubs : Snapshot :=
  ⟨#[⟨none, some "1", ⟨[("next", .stub "2"), ("items", .array [.stub "1", .array [.stub "2"]]),
      ("lost", .stub "3"), ("run()", .string "return 1"), ("inner", .node 1)], by decide⟩⟩,
    ⟨none, some "2", ⟨[("far", .int 5000000000)], by decide⟩⟩], .node 0⟩

namespace Snapshot

theorem idAt?_ofStubs {i : Nat} {id : String} (h : idAt? ofStubs.nodes i = some id) :
    i = 0 ∧ id = "1" ∨ i = 1 ∧ id = "2" := by
  rcases i with _ | _ | i
  · exact Or.inl ⟨rfl, (Option.some.inj h).symm⟩
  · exact Or.inr ⟨rfl, (Option.some.inj h).symm⟩
  · cases h

theorem classlessTree_ofStubs : ofStubs.ClasslessTree where
  noClass := by simp [ofStubs]
  lifeless := by cbv
  once := by
    have hpositions : Entry.positionsOf ofStubs.allEntries = [0, 1] := by cbv
    intro i
    rw [hpositions]
    exact List.nodup_iff_count_le_one.1 (by decide) i
  distinct i j id hi hj := by
    rcases idAt?_ofStubs hi with ⟨rfl, rfl⟩ | ⟨rfl, rfl⟩
    · exact ((idAt?_ofStubs hj).resolve_right (by simp)).1.symm
    · exact ((idAt?_ofStubs hj).resolve_left (by simp)).1.symm
  root := by simp [ofStubs]
  names := by
    have hrun : ("run()" : String) = functionKey "run" := by cbv
    intro node hnode name source entry hfunction hentry
    rcases List.mem_pair.1 (Array.mem_toList_iff.2 hnode) with rfl | rfl
    · have hkey : functionKey name = "run()" ∧ source = "return 1" := by simpa using hfunction
      obtain rfl := functionKey_injective (hkey.1.trans hrun)
      simp at hentry
    · simp at hfunction

theorem visits_ofStubs : Visits ofStubs.nodes 100 [ofStubs.root] [0, 1] := by
  have hinner : Visits ofStubs.nodes 98 [.int 5000000000] [] := .leaf rfl .nil
  have hitems : Visits ofStubs.nodes 98 [.stub "1", .array [.stub "2"]] [] :=
    .leaf rfl (.array (.leaf rfl .nil) .nil)
  have hlast : Visits ofStubs.nodes 99 [.node 1] (1 :: ([] ++ [])) := .node rfl hinner .nil
  have hroot : Visits ofStubs.nodes 100 [.node 0] (0 :: ([1] ++ [])) :=
    .node rfl (.leaf rfl (.array hitems (.leaf rfl (.leaf rfl hlast)))) .nil
  exact hroot

end Snapshot

/-- A realm with nothing in its heap but the global object. -/
def Realm.ofMode (strictness : Strictness) : Realm Scenario.platform :=
  .ofRegistry .builtins { Options.standard with strictness } Scenario.Stage.empty

theorem Realm.reachable_ofMode (strictness : Strictness) : (Realm.ofMode strictness).Reachable := by
  have hcapacity : (Realm.ofMode strictness).heap.capacity = 1 := by cases strictness <;> cbv
  exact ⟨.builtins, _, _, .builtins, .refl, by rw [hcapacity]; decide⟩

/-- Every stub but one gets its object in lenient mode; in strict mode that one makes the load
fail. -/
theorem Host.load_tree_stubs :
    Snapshot.ofStubs.ClasslessTree ∧
    Visits Snapshot.ofStubs.nodes 100 [Snapshot.ofStubs.root] [0, 1] ∧
    (∀ strictness, (Realm.ofMode strictness).Reachable ∧ (Realm.ofMode strictness).heap.HasRoom 5) ∧
    (∃ v r' object?, Id.run (((Scenario.hostWithin false 1).load .ofStubs false).run.run
        (Realm.ofMode .lenient)) = (.ok (r'.expand v), r') ∧
      Loading.Realized .ofStubs (Realm.ofMode .lenient).heap r'.heap object? [0, 1] v) ∧
    ∃ id, Snapshot.ofStubs.Dangling id ∧
      (Id.run (((Scenario.hostWithin false 1).load .ofStubs false).run.run
        (Realm.ofMode .strict))).1 = .error (.unresolvedStub id) := by
  have hroom : ∀ strictness, (Realm.ofMode strictness).heap.HasRoom 5 := by
    intro strictness
    have hcapacity : (Realm.ofMode strictness).heap.capacity = 1 := by cases strictness <;> cbv
    have hsize : UInt32.size = 4294967296 := rfl
    rw [Heap.HasRoom, hcapacity, hsize]
    omega
  have hcost : Snapshot.ofStubs.root.arrays + costOf Snapshot.ofStubs.nodes [0, 1] = 5 := by cbv
  have hdangling : Snapshot.ofStubs.Dangling "3" := by
    have hstubs : Entry.stubsOf Snapshot.ofStubs.nodes[0].entries.values = ["2", "1", "2", "3"] := by
      cbv
    refine ⟨Or.inr ⟨0, Snapshot.ofStubs.nodes[0], .root List.mem_cons_self, rfl, ?_⟩,
      fun i _ hi => ?_⟩
    · simp [hstubs]
    · rcases Snapshot.idAt?_ofStubs hi with ⟨-, h⟩ | ⟨-, h⟩ <;> simp at h
  have hload := fun strictness =>
    (Scenario.hostWithin false 1).load_tree Snapshot.classlessTree_ofStubs
      (Realm.reachable_ofMode strictness) Snapshot.visits_ofStubs
      (by rw [hcost]; exact hroom strictness) false
  exact ⟨Snapshot.classlessTree_ofStubs, Snapshot.visits_ofStubs,
    fun strictness => ⟨Realm.reachable_ofMode strictness, hroom strictness⟩,
    (hload .lenient).1 (Or.inl rfl), (hload .strict).2 rfl ⟨"3", hdangling⟩⟩

end ScriptBridge
