import ScriptBridge.Proofs.Snapshot.Reading
import ScriptBridge.Proofs.Snapshot.Building
import ScriptBridge.Scenario.Script

/-!
# The Order of Restoring

The entries of a node are written in phases: what is bound early comes first and what is bound late
comes last, and within a phase the order of the snapshot is kept. An entry is put into a phase by its
key, though, while the source of a function is written to the property that the key names without its
mark. So the order holds for all entries but those of functions whose key and whose property belong to
different phases.

Main statements: `restoreEntry_eq` (an entry is prepared, then written), `pairwise_inPhases` and
`first_writes_in_phases`.
-/

namespace ScriptBridge

variable {P : Platform}

namespace Registry

/-- The property of a name is restored before the others. -/
def RestoresEarly (r : Registry P) (c : ClassNumber) (name : String) : Prop :=
  ∃ b, r.resolveProperty? c name = some b ∧ b.flags.contains .early = true

/-- The property of a name is restored after the others. -/
def RestoresLate (r : Registry P) (c : ClassNumber) (name : String) : Prop :=
  ∃ b, r.resolveProperty? c name = some b ∧ b.flags.contains .late = true

end Registry

namespace Loading

open Snapshot (Entry Node fieldName functionOf?)
open Realm (after)

/-! ## Phases -/

/-- The order in which two entries of a node are restored, when `nameOf` tells what they are restored
as: what is early comes first, what is late comes last, and what is in the same phase comes in the
order of the snapshot. -/
structure InOrder (r : Registry P) (c : ClassNumber) (entries : Table Entry)
    (nameOf : String × Entry → String) (e e' : String × Entry) : Prop where
  early : r.RestoresEarly c (nameOf e') → r.RestoresEarly c (nameOf e)
  late : r.RestoresLate c (nameOf e) → r.RestoresLate c (nameOf e')
  snapshot : (r.RestoresEarly c (nameOf e) ↔ r.RestoresEarly c (nameOf e')) →
    (r.RestoresLate c (nameOf e) ↔ r.RestoresLate c (nameOf e')) → [e, e'].Sublist entries.entries

/-- The key of an entry and the property that it is written to belong to the same phase. This holds of
all entries but those of functions, whose keys carry a mark. -/
def Steady (r : Registry P) (c : ClassNumber) (e : String × Entry) : Prop :=
  (r.RestoresEarly c e.1 ↔ r.RestoresEarly c (fieldName e)) ∧
    (r.RestoresLate c e.1 ↔ r.RestoresLate c (fieldName e))

theorem steady_of_functionOf? {r : Registry P} {c : ClassNumber} {e : String × Entry}
    (h : functionOf? e = none) : Steady r c e := by
  unfold Steady
  rw [fieldName_of_none h]
  exact ⟨Iff.rfl, Iff.rfl⟩

/-- Steady entries are in order under their names if they are so under their keys. -/
theorem InOrder.of_steady {r : Registry P} {c : ClassNumber} {entries : Table Entry}
    {e e' : String × Entry} (h : InOrder r c entries Prod.fst e e') (he : Steady r c e)
    (he' : Steady r c e') : InOrder r c entries fieldName e e' where
  early hearly := he.1.1 (h.early (he'.1.2 hearly))
  late hlate := he'.2.1 (h.late (he.2.2 hlate))
  snapshot hearly hlate :=
    h.snapshot (he.1.trans (hearly.trans he'.1.symm)) (he.2.trans (hlate.trans he'.2.symm))

section

variable {r : Realm P} {c : ClassNumber}

theorem phase_eq_zero_iff {key : String} :
    phase r (some c) key = 0 ↔ r.registry.RestoresEarly c key := by
  unfold phase Registry.RestoresEarly
  rw [Option.bind_some]
  cases r.registry.resolveProperty? c key with
  | none => simp
  | some b =>
    cases hearly : b.flags.contains .early <;> cases hlate : b.flags.contains .late <;>
      simp [hearly, hlate]

/-- No property is both early and late. -/
theorem phase_eq_two_iff (hr : r.registry.Sound) {key : String} :
    phase r (some c) key = 2 ↔ r.registry.RestoresLate c key := by
  unfold phase Registry.RestoresLate
  rw [Option.bind_some]
  cases hresolve : r.registry.resolveProperty? c key with
  | none => simp
  | some b =>
    have hflags := (hr.inOrder_of_resolveProperty? hresolve).phase
    cases hearly : b.flags.contains .early <;> cases hlate : b.flags.contains .late <;>
      simp [hearly, hlate] at hflags ⊢

theorem phase_le_two (c? : Option ClassNumber) (key : String) : phase r c? key ≤ 2 := by
  unfold phase
  split
  · split
    · exact Nat.zero_le 2
    · split <;> omega
  · omega

/-- What is in an earlier phase comes first. -/
theorem inOrder_of_lt (hr : r.registry.Sound) {entries : Table Entry} {e e' : String × Entry}
    (hlt : phase r (some c) e.1 < phase r (some c) e'.1) :
    InOrder r.registry c entries Prod.fst e e' := by
  have hle := phase_le_two (r := r) (some c) e'.1
  constructor
  case early =>
    intro hearly
    have hzero := phase_eq_zero_iff.2 hearly
    omega
  case late =>
    intro hlate
    have htwo := (phase_eq_two_iff hr).2 hlate
    omega
  case snapshot =>
    intro hearly hlate
    rw [← phase_eq_zero_iff, ← phase_eq_zero_iff] at hearly
    rw [← phase_eq_two_iff hr, ← phase_eq_two_iff hr] at hlate
    omega

/-- Within a phase the order of the snapshot decides. -/
theorem inOrder_of_eq (hr : r.registry.Sound) {entries : Table Entry} {e e' : String × Entry}
    (heq : phase r (some c) e.1 = phase r (some c) e'.1) (h : [e, e'].Sublist entries.entries) :
    InOrder r.registry c entries Prod.fst e e' where
  early hearly := phase_eq_zero_iff.1 (heq.trans (phase_eq_zero_iff.2 hearly))
  late hlate := (phase_eq_two_iff hr).1 (heq.symm.trans ((phase_eq_two_iff hr).2 hlate))
  snapshot _ _ := h

/-- The entries of a node are sorted by phases, and the sort is stable. -/
theorem pairwise_inPhases (hr : r.registry.Sound) (entries : Table Entry) :
    (inPhases r (some c) entries).Pairwise (InOrder r.registry c entries Prod.fst) := by
  have hphase : ∀ {n : Nat} {e : String × Entry}, e ∈ entries.entries.filter (fun entry =>
      phase r (some c) entry.1 == n) → phase r (some c) e.1 = n :=
    fun he => eq_of_beq (List.mem_filter.1 he).2
  unfold inPhases
  rw [List.pairwise_flatMap]
  constructor
  · intro n _
    rw [List.pairwise_iff_forall_sublist]
    intro e e' hsub
    have he := hphase (hsub.subset List.mem_cons_self)
    have he' := hphase (hsub.subset (List.mem_cons_of_mem _ List.mem_cons_self))
    exact inOrder_of_eq hr (he.trans he'.symm) (hsub.trans List.filter_sublist)
  · have hlt : [0, 1, 2].Pairwise (· < ·) := by decide
    refine hlt.imp ?_
    intro n m hnm e he e' he'
    exact inOrder_of_lt hr (by rw [hphase he, hphase he']; exact hnm)

end

/-! ## The First Write for an Entry -/

/-- Reads what an entry holds. An array some of whose items have had to wait is noted together with
its property. -/
def readNoting (inner : Inner P) (h : Handle) (key : String) (entry : Entry) : LoadingM P Value := do
  let before := (← get).lateItems
  let value ← inner entry
  match entry, value with
  | .array _, .object array =>
    if before < (← get).lateItems then
      modify fun s => { s with renewals := s.renewals ++ [(h, key, array)] }
  | _, _ => pure ()
  return value

/-- What is done for an entry before it is written for the first time. The answer is what is then
written: a new function, null for an object that has not been met, or what has been read. -/
def prepare (inner : Inner P) (h : Handle) (key : String) (entry : Entry) : LoadingM P Value :=
  match functionOf? (key, entry), entry with
  | some (name, source), _ =>
    return .function (← perform (modifyGet (Realm.newFunction name (.script source))))
  | none, .stub id => do
    await id (.property h key)
    return .null
  | none, entry => readNoting inner h key entry

/-- Writes a property for the first time. A setter that refuses null in place of an object that has
not been met is not an error. -/
def writeFirst (h : Handle) (name : String) (entry : Entry) (value : Value) : LoadingM P Unit :=
  match entry with
  | .stub _ => discard (attempt (Realm.putProperty h name value true))
  | _ => write h name value

theorem restoreEntry_reading (inner : Inner P) (h : Handle) {key : String} {entry : Entry}
    (hstub : ∀ id, entry ≠ .stub id) (hfunction : functionOf? (key, entry) = none) :
    restoreEntry inner h key entry = readNoting inner h key entry >>= write h key := by
  unfold restoreEntry readNoting
  cases entry with
  | stub id => exact absurd rfl (hstub id)
  | string text =>
    have hname : Snapshot.functionName? key = none := by simpa [functionOf?] using hfunction
    simp only [hname, bind_assoc, pure_bind]
  | array items =>
    cases Snapshot.functionName? key
    all_goals
      simp only [bind_assoc]
      refine bind_congr fun before => bind_congr fun value => ?_
      cases value <;> try simp only [pure_bind, bind_assoc]
      refine bind_congr fun s => ?_
      split <;> simp only [pure_bind, bind_assoc]
  | _ =>
    cases Snapshot.functionName? key <;> simp only [bind_assoc, pure_bind]

/-- An entry is restored by preparing it and writing it to its property. -/
theorem restoreEntry_eq (inner : Inner P) (h : Handle) (key : String) (entry : Entry) :
    restoreEntry inner h key entry =
      prepare inner h key entry >>= writeFirst h (fieldName (key, entry)) entry := by
  cases hfunction : functionOf? (key, entry) with
  | some function =>
    obtain ⟨name, source⟩ := function
    obtain ⟨_, heq, hname⟩ := functionOf?_eq_some hfunction
    obtain ⟨rfl, rfl⟩ := Prod.mk.inj heq
    rw [restoreEntry_function inner h hname, fieldName_of_some hfunction]
    simp only [prepare, hfunction, bind_assoc, pure_bind]
    rfl
  | none =>
    rw [fieldName_of_none hfunction]
    cases entry with
    | stub id =>
      rw [restoreEntry_stub]
      simp only [prepare, hfunction, bind_assoc, pure_bind]
      rfl
    | _ =>
      rw [restoreEntry_reading inner h (by simp) hfunction]
      simp only [prepare, hfunction]
      rfl

/-! ## The Writes for a Node -/

/-- The first write for an entry of a node. -/
structure FirstWrite (P : Platform) where
  /-- The object of the node. -/
  owner : Handle
  /-- The entry, under its key. -/
  source : String × Entry
  /-- The state in which the write is made. -/
  state : Loading P
  /-- What is written. -/
  value : Value

/-- The property that is written. -/
def FirstWrite.name (w : FirstWrite P) : String := fieldName w.source

/-- The first writes for a row of entries, in the order in which they are made. They end where the
load ends. -/
def firstWrites (inner : Inner P) (h : Handle) :
    List (String × Entry) → Loading P → List (FirstWrite P)
  | [], _ => []
  | (key, entry) :: entries, s =>
    match Id.run ((prepare inner h key entry).run.run s) with
    | (.error _, _) => []
    | (.ok value, s') =>
      ⟨h, (key, entry), s', value⟩ ::
        match Id.run ((writeFirst h (fieldName (key, entry)) entry value).run.run s') with
        | (.error _, _) => []
        | (.ok _, s'') => firstWrites inner h entries s''

/-- Makes the object of a node and puts it into the places that wait for it. -/
def openNode (node : Node) : LoadingM P Handle := do
  let h ← make node.className
  if let some id := node.id then announce id h
  return h

/-- The first writes for the entries of a node. -/
def nodeWrites (inner : Inner P) (node : Node) (s : Loading P) : List (FirstWrite P) :=
  match singletonName? s.realm node, Id.run ((openNode node).run.run s) with
  | none, (.ok h, s') =>
    firstWrites inner h (inPhases s'.realm (s'.realm.classOf? h) node.entries) s'
  -- the entries of a singleton are not applied, and without an object there is nothing to write to
  | _, _ => []

section

variable {inner : Inner P} {node : Node} {s : Loading P}

/-- A node that is not of a singleton class is opened, and its entries are prepared and written one
after the other. -/
theorem run_rebuildNode (inner : Inner P) (hnode : singletonName? s.realm node = none) :
    Id.run ((rebuildNode inner node).run.run s) =
      Id.run ((openNode node >>= fun h =>
        ask (fun r => inPhases r (r.classOf? h) node.entries) >>= fun entries =>
          (entries.forM fun entry => prepare inner h entry.1 entry.2 >>=
            writeFirst h (fieldName entry) entry.2) >>= fun _ =>
              pure (some h) : LoadingM P (Option Handle)).run.run s) := by
  have hentry : ∀ h, (fun entry : String × Entry => prepare inner h entry.1 entry.2 >>=
      writeFirst h (fieldName entry) entry.2) = fun entry => restoreEntry inner h entry.1 entry.2 :=
    fun h => funext fun entry => (restoreEntry_eq inner h entry.1 entry.2).symm
  have hask : ∀ {α : Type} (next : Option String → LoadingM P α),
      Id.run ((ask (singletonName? · node) >>= next).run.run s) =
        Id.run ((next (singletonName? s.realm node)).run.run s) := fun _ => rfl
  simp only [hentry]
  rw [rebuildNode, hask, hnode, openNode]
  dsimp only
  simp only [bind_assoc]
  cases node.id <;> simp only [bind_assoc, pure_bind]

/-- The entries whose first writes are made are the first ones of the row. -/
theorem firstWrites_source (h : Handle) (entries : List (String × Entry)) (s : Loading P) :
    (firstWrites inner h entries s).map FirstWrite.source <+: entries := by
  induction entries generalizing s with
  | nil => exact List.prefix_refl _
  | cons entry entries ih =>
    obtain ⟨key, entry⟩ := entry
    simp only [firstWrites]
    split
    · exact List.nil_prefix
    · rw [List.map_cons, List.cons_prefix_cons]
      refine ⟨rfl, ?_⟩
      split
      · exact List.nil_prefix
      · exact ih _

/-- If all entries are restored, each of them has been written. -/
theorem firstWrites_source_of_ok (h : Handle) (entries : List (String × Entry)) {s s' : Loading P}
    (hrun : Runs (entries.forM fun entry => prepare inner h entry.1 entry.2 >>=
      writeFirst h (fieldName entry) entry.2) s ⟨⟩ s') :
    (firstWrites inner h entries s).map FirstWrite.source = entries := by
  induction entries generalizing s with
  | nil => rfl
  | cons entry entries ih =>
    obtain ⟨key, entry⟩ := entry
    obtain ⟨_, s₁, hfirst, hrest⟩ := Realm.exists_of_run_bind hrun
    obtain ⟨value, s₂, hprepare, hwrite⟩ := Realm.exists_of_run_bind hfirst
    simp only [firstWrites, hprepare, hwrite]
    rw [List.map_cons, ih hrest]

theorem nature?_instantiate {r : Realm P} {c : ClassNumber} (hwf : r.heap.WellFormed)
    (hbound : (r.instantiate c).2.heap.capacity ≤ UInt32.size) :
    (r.instantiate c).2.heap.nature? (r.instantiate c).1 =
      some (ScriptObject.ofForm (r.freshForm c)).nature := by
  rw [Realm.instantiate_eq] at hbound ⊢
  have hget := hwf.get?_allocate (Heap.hasRoom_of_capacity_allocate hwf hbound)
    (.ofForm (r.freshForm c)) (r.heap.allocate (.ofForm (r.freshForm c))).1
  rw [if_pos rfl] at hget
  exact congrArg (Option.map ScriptObject.nature) hget

/-- The object that a node makes is of the class of the node, whatever is put into places that wait for
it. -/
theorem classOf?_openNode {h : Handle} {s' : Loading P} (hs : Owned s)
    (hwf : s.realm.heap.WellFormed) (hnode : singletonName? s.realm node = none)
    (hrun : Runs (openNode node) s h s') (hbound : s'.realm.heap.capacity ≤ UInt32.size) :
    s'.realm.registry = s.realm.registry ∧
      s'.realm.classOf? h = some (classFor s.realm node.className) := by
  obtain ⟨k, s₁, hmake, hrest⟩ := Realm.exists_of_run_bind hrun
  have hs₁ : Owned s₁ := by
    have hafter := (builds_make hs (common_of_singletonName? hnode)).2.1
    unfold after at hafter
    rwa [hmake] at hafter
  -- serving the places that wait is made of moves
  have hserve : Builds (do
      if let some id := node.id then announce id k
      return k) s₁ fun answer _ => answer = k := by
    cases node.id with
    | none => exact builds_pure hs₁ rfl
    | some id => exact (builds_announce hs₁ id k).bind fun _ _ _ hs' _ => builds_pure hs' rfl
  obtain rfl : h = k := hserve.2.2 h (congrArg Prod.fst hrest)
  have hmoves : Moves s₁.progress s'.progress := by
    have hafter := hserve.1
    unfold after at hafter
    rwa [hrest] at hafter
  have hlater : s₁.realm.heap.Changes (fun _ => True) (fun _ => True) s'.realm.heap := hmoves.changes
  have hregistry : s'.realm.registry = s₁.realm.registry :=
    (Moves.operates (R := Realm.Steps) hmoves).evolves.registry
  obtain ⟨-, error, hfail⟩ | hmade := make_cases node.className s
  · rw [hfail] at hmake
    cases (Prod.mk.inj hmake).1
  · obtain ⟨hh, rfl⟩ := Prod.mk.inj (hmade.symm.trans hmake)
    obtain rfl := Except.ok.inj hh
    generalize classFor s.realm node.className = c at *
    have hearlier : s.realm.heap.Changes (fun _ => True) (fun _ => True)
        (s.withNew c (s.sleepersWith node.className)).realm.heap :=
      (Realm.freely_instantiate c s.realm).heap
    have hbefore := Nat.le_trans hlater.capacity_le hbound
    refine ⟨hregistry.trans (Realm.evolves_instantiate c s.realm).registry, ?_⟩
    rw [Realm.classOf?_eq, hlater.nature? (hearlier.wellFormed hwf hbefore) hbound
      (nature?_instantiate hwf hbefore), Option.bind_some, ScriptObject.classNumber?_nature]
    exact Realm.classNumber?_freshForm _ _

/-- Entries that are restored in the order of a row are written to in this order. -/
theorem mem_pairwise_firstWrites {R : String × Entry → String × Entry → Prop} (h : Handle)
    {entries : List (String × Entry)} (hentries : entries.Pairwise R) (s : Loading P) :
    (firstWrites inner h entries s).Pairwise fun w w' => R w.source w'.source :=
  List.pairwise_map.1 (hentries.sublist (firstWrites_source h entries s).sublist)

/-- **Entries are restored in phases.** A node that is not of a singleton class makes an instance of its
class, and then the entries are prepared and written one after the other: each entry at most once, and
all of them if the node is read to its end. Of any two entries whose keys belong to the phases of the
properties that they are written to, as do all keys that do not hold functions, the one whose
property is in an earlier phase is written first, and within a phase the order of the snapshot is
kept. -/
theorem first_writes_in_phases (inner : Inner P) {s : Loading P} {node : Node}
    (hregistry : s.realm.registry.Declared) (hwf : s.realm.heap.WellFormed) (hs : Owned s)
    (hnode : singletonName? s.realm node = none)
    (hbound : (after (openNode node) s).realm.heap.capacity ≤ UInt32.size) :
    Id.run ((rebuildNode inner node).run.run s) =
      Id.run ((openNode node >>= fun h =>
        ask (fun r => inPhases r (r.classOf? h) node.entries) >>= fun entries =>
          (entries.forM fun entry => prepare inner h entry.1 entry.2 >>=
            writeFirst h (fieldName entry) entry.2) >>= fun _ =>
              pure (some h) : LoadingM P (Option Handle)).run.run s) ∧
    ((nodeWrites inner node s).map FirstWrite.source).Subperm node.entries.entries ∧
    (∀ answer s', Runs (rebuildNode inner node) s answer s' →
      ((nodeWrites inner node s).map FirstWrite.source).Perm node.entries.entries) ∧
    (nodeWrites inner node s).Pairwise fun w w' =>
      Steady s.realm.registry (classFor s.realm node.className) w.source →
      Steady s.realm.registry (classFor s.realm node.className) w'.source →
      InOrder s.realm.registry (classFor s.realm node.className) node.entries fieldName
        w.source w'.source := by
  refine ⟨run_rebuildNode inner hnode, ?_⟩
  cases hopen : Id.run ((openNode node).run.run s) with
  | mk outcome s' =>
    cases outcome with
    | error error =>
      -- without an object nothing is written
      have hnone : nodeWrites inner node s = [] := by simp only [nodeWrites, hnode, hopen]
      rw [hnone]
      refine ⟨List.nil_subperm, fun answer s'' hrun => ?_, List.Pairwise.nil⟩
      unfold Runs at hrun
      rw [run_rebuildNode inner hnode] at hrun
      obtain ⟨h, s₁, hrun, -⟩ := Realm.exists_of_run_bind hrun
      rw [hopen] at hrun
      cases (Prod.mk.inj hrun).1
    | ok h =>
      -- the writes are those of the entries in the order of their phases
      have hrow : nodeWrites inner node s =
          firstWrites inner h (inPhases s'.realm (s'.realm.classOf? h) node.entries) s' := by
        simp only [nodeWrites, hnode, hopen]
      have hafter : after (openNode node) s = s' := congrArg Prod.snd hopen
      obtain ⟨hclasses, hclass⟩ := classOf?_openNode hs hwf hnode hopen (hafter ▸ hbound)
      rw [hrow]
      refine ⟨?_, fun answer s'' hrun => ?_, ?_⟩
      · exact (firstWrites_source h _ s').sublist.subperm.trans (inPhases_perm _ _ _).subperm
      · unfold Runs at hrun
        rw [run_rebuildNode inner hnode, Realm.run_bind_of_ok hopen,
          Realm.run_bind_of_ok (runs_ask (s := s') _)] at hrun
        obtain ⟨_, s₁, hfill, -⟩ := Realm.exists_of_run_bind hrun
        rw [firstWrites_source_of_ok h _ hfill]
        exact inPhases_perm _ _ _
      · have hsound : s'.realm.registry.Sound := hclasses ▸ hregistry.sound
        rw [hclass, ← hclasses]
        exact (mem_pairwise_firstWrites h (pairwise_inPhases hsound node.entries) s').imp
          fun hkeys hsteady hsteady' => hkeys.of_steady hsteady hsteady'

end

end Loading

/-! ## A Class with Phases -/

/-- A property that can be read and written at will. -/
def Accessor.free : Accessor Scenario.platform :=
  ⟨.undefined, fun _ => .ok .undefined, some fun _ _ => pure ()⟩

namespace Registry

/-- The built-in classes, and one with an early, an ordinary and a late property. -/
def declareWidget : Except RegistrationError (Registry Scenario.platform) := do
  let r ← builtins.register (.declareClass "Widget" none false)
  let r ← r.register (.setFresh ⟨2⟩ fun _ => .vector .empty)
  let r ← r.register (.bindProperty ⟨2⟩ "hook" .free .early)
  let r ← r.register (.bindProperty ⟨2⟩ "size" .free .standard)
  r.register (.bindProperty ⟨2⟩ "tail" .free .late)

/-- The registry with this class. -/
def withWidget : Registry Scenario.platform := declareWidget.toOption.getD .builtins

theorem declared_withWidget : withWidget.Declared := by
  unfold withWidget
  cases h : declareWidget with
  | error error => exact .builtins
  | ok r =>
    obtain ⟨r₁, h₁, h⟩ := except_bind_eq_ok h
    obtain ⟨r₂, h₂, h⟩ := except_bind_eq_ok h
    obtain ⟨r₃, h₃, h⟩ := except_bind_eq_ok h
    obtain ⟨r₄, h₄, h₅⟩ := except_bind_eq_ok h
    exact .register (.register (.register (.register (.register .builtins h₁) h₂) h₃) h₄) h₅

end Registry

namespace Loading

open Snapshot (Node fieldName)
open Realm (after)

/-- The start of a load into a realm with this class. -/
def ofWidget : Loading Scenario.platform :=
  start (Realm.ofRegistry .withWidget .standard Scenario.Stage.empty)

theorem wellFormed_ofWidget : ofWidget.realm.heap.WellFormed := by
  have hcapacity : ofWidget.realm.heap.capacity = 1 := by cbv
  have hreachable : ofWidget.realm.Reachable :=
    ⟨.withWidget, .standard, Scenario.Stage.empty, Registry.declared_withWidget, .refl,
      by rw [hcapacity]; decide⟩
  exact hreachable.sound.wellFormed

/-- A node that names its entries in the opposite order, with a function in a field. -/
def backwards : Node :=
  ⟨some "Widget", none,
    ⟨[("tail", .int 3), ("grow()", .string "return 1"), ("size", .int 2), ("hook", .stub "7")],
      by decide⟩⟩

/-- The early entry is written first and the late one last, whatever the order in the snapshot. -/
theorem first_writes_backwards :
    ofWidget.realm.registry.Declared ∧ ofWidget.realm.heap.WellFormed ∧ Owned ofWidget ∧
    singletonName? ofWidget.realm backwards = none ∧
    (after (openNode backwards) ofWidget).realm.heap.capacity ≤ UInt32.size ∧
    (nodeWrites (read ⟨#[], .null⟩ 1) backwards ofWidget).map FirstWrite.name =
      ["hook", "grow", "size", "tail"] ∧
    (nodeWrites (read ⟨#[], .null⟩ 1) backwards ofWidget).Pairwise fun w w' =>
      Steady ofWidget.realm.registry (classFor ofWidget.realm backwards.className) w.source →
      Steady ofWidget.realm.registry (classFor ofWidget.realm backwards.className) w'.source →
      InOrder ofWidget.realm.registry (classFor ofWidget.realm backwards.className)
        backwards.entries fieldName w.source w'.source := by
  have hnode : singletonName? ofWidget.realm backwards = none := by cbv
  have hcapacity : (after (openNode backwards) ofWidget).realm.heap.capacity = 2 := by cbv
  have hbound : (after (openNode backwards) ofWidget).realm.heap.capacity ≤ UInt32.size := by
    rw [hcapacity]
    decide
  have howned := owned_start (Realm.ofRegistry .withWidget .standard Scenario.Stage.empty)
  have hphases := first_writes_in_phases (read ⟨#[], .null⟩ 1) Registry.declared_withWidget
    wellFormed_ofWidget howned hnode hbound
  exact ⟨Registry.declared_withWidget, wellFormed_ofWidget, howned, hnode, hbound, by cbv,
    hphases.2.2.2⟩

/-- A node with an ordinary entry and a function for the early property. -/
def hooked : Node :=
  ⟨some "Widget", none, ⟨[("size", .int 1), ("hook()", .string "return 1")], by decide⟩⟩

/-- The key of a function is not the name of a property, so the function of an early property is
written among the ordinary entries. -/
theorem late_hook :
    ofWidget.realm.registry.Declared ∧
    (nodeWrites (read ⟨#[], .null⟩ 1) hooked ofWidget).map FirstWrite.name = ["size", "hook"] ∧
    ofWidget.realm.registry.RestoresEarly (classFor ofWidget.realm hooked.className) "hook" ∧
    ¬ ofWidget.realm.registry.RestoresEarly (classFor ofWidget.realm hooked.className) "size" := by
  have hhook : ((ofWidget.realm.registry.resolveProperty?
      (classFor ofWidget.realm hooked.className) "hook").map fun b => b.flags.contains .early) =
        some true := by cbv
  have hsize : ((ofWidget.realm.registry.resolveProperty?
      (classFor ofWidget.realm hooked.className) "size").map fun b => b.flags.contains .early) =
        some false := by cbv
  refine ⟨Registry.declared_withWidget, by cbv, Option.map_eq_some_iff.1 hhook, ?_⟩
  rintro ⟨b, hb, hearly⟩
  rw [hb, Option.map_some, hearly] at hsize
  cases hsize

end Loading

end ScriptBridge
