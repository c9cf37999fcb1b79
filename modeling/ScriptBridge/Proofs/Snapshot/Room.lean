import ScriptBridge.Proofs.Snapshot.Saving

/-!
# How Much Room Saving Takes

Saving with little room either fails for lack of it, or it makes the same snapshot as with plenty of
room. What decides are the values that one comes to when all the room is used up. A node and an
array need room, and so do values that are turned away only after room has been asked for: a
transient object, a singleton, an array inside of itself.

Main statements: `inStep_save` (with little room and with plenty of it the same steps are taken, up
to the first value without room) and `Realm.Reachable.save_withLimit`.
-/

namespace ScriptBridge

namespace Snapshot

/-- With so many containers around it, something lies in an entry. -/
inductive Holds (nodes : Array Node) : Entry → Nat → Entry → Prop
  | here {entry : Entry} : Holds nodes entry 0 entry
  | item {items : List Entry} {item entry : Entry} {n : Nat} :
      item ∈ items → Holds nodes item n entry → Holds nodes (.array items) (n + 1) entry
  | member {index n : Nat} {node : Node} {member entry : Entry} :
      nodes[index]? = some node → member ∈ node.entries.values → Holds nodes member n entry →
      Holds nodes (.node index) (n + 1) entry

/-- A node or an array lies inside of at least so many others. -/
def NestsTo (s : Snapshot) (depth : Nat) : Prop :=
  ∃ n entry, depth ≤ n ∧ Holds s.nodes s.root n entry ∧ entry.isLeaf = false

theorem NestsTo.mono {s : Snapshot} {depth less : Nat} (h : s.NestsTo depth) (hle : less ≤ depth) :
    s.NestsTo less := by
  obtain ⟨n, entry, hn, hentry⟩ := h
  exact ⟨n, entry, Nat.le_trans hle hn, hentry⟩

/-- A walk comes to all containers, so it has room for them. -/
theorem Visits.lt_room {nodes : Array Node} {room : Nat} {entries : List Entry}
    {positions : List Nat} (h : Visits nodes room entries positions) {start entry : Entry} {n : Nat}
    (hstart : start ∈ entries) (hholds : Holds nodes start n entry)
    (hentry : entry.isLeaf = false) : n < room := by
  induction h generalizing start entry n with
  | nil => simp at hstart
  | leaf hleaf _ ih =>
    rcases List.mem_cons.1 hstart with rfl | hstart
    · cases hholds with
      | here => rw [hleaf] at hentry; cases hentry
      | item => simp [Entry.isLeaf] at hleaf
      | member => simp [Entry.isLeaf] at hleaf
    · exact ih hstart hholds hentry
  | array _ _ ihitems ihrest =>
    rcases List.mem_cons.1 hstart with rfl | hstart
    · cases hholds with
      | here => exact Nat.succ_pos _
      | item hitem hinside => exact Nat.succ_lt_succ (ihitems hitem hinside hentry)
    · exact ihrest hstart hholds hentry
  | node hnode _ _ ihvalues ihrest =>
    rcases List.mem_cons.1 hstart with rfl | hstart
    · cases hholds with
      | here => exact Nat.succ_pos _
      | member hnode' hmember hinside =>
        rw [hnode] at hnode'
        rw [← Option.some.inj hnode'] at hmember
        exact Nat.succ_lt_succ (ihvalues hmember hinside hentry)
    · exact ihrest hstart hholds hentry

end Snapshot

/-- The realm with another limit for what nests in snapshots. -/
def Realm.withLimit {P : Platform} (r : Realm P) (limit : Nat) : Realm P :=
  { r with options := { r.options with depthLimit := limit } }

namespace Saving

open Snapshot (Entry Holds)

variable {P : Platform}

/-! ## What One Comes To -/

/-- Whether nothing is saved for a value. The object that a graph starts with may be exempt. -/
def leavesOut (r : Realm P) (exempt? : Option Handle) : Value → Bool
  | .undefined => true
  | .function _ => true
  | .object h => exempt? != some h && (r.heap.get? h).any fun object =>
      object.items?.isNone && isTransient object
  | _ => false

section

variable (r : Realm P) (mask? : Option (List String)) (exempt? : Option Handle)

/-- A value that needs room although no container is saved for it. -/
inductive TurnedAway (path : List Handle) : Value → Prop
  | transient {h : Handle} :
      leavesOut r exempt? (.object h) = true → TurnedAway path (.object h)
  | singleton {h : Handle} {object : ScriptObject P} :
      r.heap.get? h = some object → object.items? = none → r.isSingletonInstance h = true →
      TurnedAway path (.object h)
  | cut {value : Value} {h : Handle} {items : List Value} :
      arrayOf? r value = some (some h, items) → h ∈ path → TurnedAway path value

/-- What a property of an object has to save, with its name. -/
def ownProperty? (h : Handle) (binding : BoundProperty P) : Option (String × Value) :=
  if isSaved mask? binding && !Snapshot.isReserved binding.name then
    (r.property h binding.name).toOption.map (binding.name, ·)
  else none

/-- Whether there is an entry for what stands under a name. -/
def leavesEntry (member : String × Value) : Bool :=
  (shared? mask? member.1 member.2).isSome || !leavesOut r exempt? member.2

/-- The keys of the entries that properties leave. -/
def present (h : Handle) (bindings : List (BoundProperty P)) : List String :=
  ((bindings.filterMap (ownProperty? r mask? h)).filter (leavesEntry r mask? exempt?)).map Prod.fst

/-- What a field has to save beside the entries of the keys `keys`, unless it is a function. -/
def ownField? (keys : List String) (field : String × Value) : Option (String × Value) :=
  if field.1 == Snapshot.transientField || keys.contains field.1 || Snapshot.isReserved field.1 then
    none
  else if field.2.function?.isSome then none else some field

/-- What stands in an object and is saved with it, functions aside. -/
def members (h : Handle) (object : ScriptObject P) : List (String × Value) :=
  (propertiesOf r object).filterMap (ownProperty? r mask? h) ++
    object.fields.entries.filterMap
      (ownField? (present r mask? exempt? h (propertiesOf r object)))

/-- The entry of what stands under a name. -/
def entryOf (entries : Table Entry) (member : String × Value) : Entry :=
  if leavesOut r exempt? member.2 then .null else (entries.find? member.1).getD .null

/-- With so many containers around it, one comes to a value and to what is saved for it, on the way
from another value. What a copy shares is not looked into. -/
inductive ComesTo (nodes : Array Snapshot.Node) :
    List Handle → Value → Entry → Nat → List Handle → Value → Entry → Prop
  | here {path : List Handle} {value : Value} {entry : Entry} :
      ComesTo nodes path value entry 0 path value entry
  | item {path path' : List Handle} {value item value' : Value} {origin : Option Handle}
      {items : List Value} {entries : List Entry} {entry entry' : Entry} {k n : Nat} :
      arrayOf? r value = some (origin, items) → items[k]? = some item →
      entries[k]? = some entry →
      ComesTo nodes (origin.toList ++ path) item entry n path' value' entry' →
      ComesTo nodes path value (.array entries) (n + 1) path' value' entry'
  | member {path path' : List Handle} {h : Handle} {object : ScriptObject P} {index : Nat}
      {node : Snapshot.Node} {member : String × Value} {value' : Value} {entry' : Entry} {n : Nat} :
      r.heap.get? h = some object → nodes[index]? = some node →
      member ∈ members r mask? exempt? h object → shared? mask? member.1 member.2 = none →
      ComesTo nodes path member.2 (entryOf r exempt? node.entries member) n path' value' entry' →
      ComesTo nodes path (.object h) (.node index) (n + 1) path' value' entry'

/-- Saving a value takes more room than there is: one comes to a value that needs room when none is
left. -/
def Exceeds (nodes : Array Snapshot.Node) (room : Nat) (path : List Handle) (value : Value)
    (entry : Entry) : Prop :=
  ∃ path' value' entry', ComesTo r mask? exempt? nodes path value entry room path' value' entry' ∧
    (entry'.isLeaf = false ∨ TurnedAway r exempt? path' value')

end

/-! ## Two runs in step -/

/-- An object that may have a node. -/
def Proper (r : Realm P) (exempt? : Option Handle) (h : Handle) : Prop :=
  leavesOut r exempt? (.object h) = false ∧ r.isSingletonInstance h = false

/-- Whether an object has a node. -/
def has (s : Saving) (h : Handle) : Prop := (s.saved.lookup h).isSome = true

/-- The objects with a node are proper ones, and the exempt one is among them. -/
structure Ready (r : Realm P) (exempt? : Option Handle) (s : Saving) : Prop where
  /-- The objects with a node may have one. -/
  proper : ∀ h, s.has h → Proper r exempt? h
  /-- The exempt object has a node already. -/
  exempt : ∀ h, exempt? = some h → leavesOut r none (.object h) = true → s.has h

/-- The nodes of before are kept, and further ones belong to proper objects. -/
structure Grows (r : Realm P) (exempt? : Option Handle) (s s' : Saving) : Prop where
  /-- The nodes are kept. -/
  kept : Kept s.nodes s'.nodes
  /-- The objects with a node keep it. -/
  has : ∀ h, s.has h → s'.has h
  /-- Objects that have a node by now may have one. -/
  proper : ∀ h, s'.has h → s.has h ∨ Proper r exempt? h

/-- The nodes of a row from a position on are found in another one with the same entries. -/
def Settled (start : Nat) (nodes final : Array Snapshot.Node) : Prop :=
  ∀ (i : Nat) (node : Snapshot.Node), start ≤ i → nodes[i]? = some node →
    ∃ node' : Snapshot.Node, final[i]? = some node' ∧ node'.entries = node.entries

section

variable {r : Realm P} {exempt? : Option Handle} {s s' s'' : Saving}

theorem Grows.refl : Grows r exempt? s s := ⟨Kept.refl, fun _ h => h, fun _ => Or.inl⟩

theorem Grows.trans (h : Grows r exempt? s s') (h' : Grows r exempt? s' s'') :
    Grows r exempt? s s'' where
  kept := h.kept.trans h'.kept
  has k hk := h'.has k (h.has k hk)
  proper k hk := (h'.proper k hk).elim (h.proper k) Or.inr

theorem Ready.grows (hs : Ready r exempt? s) (h : Grows r exempt? s s') : Ready r exempt? s' where
  proper k hk := (h.proper k hk).elim (hs.proper k) id
  exempt k hk hout := h.has k (hs.exempt k hk hout)

theorem Settled.first {start : Nat} {final : Array Snapshot.Node} (h : Settled start s'.nodes final)
    (hkept : Kept s.nodes s'.nodes) : Settled start s.nodes final := by
  intro i node hi hnode
  obtain ⟨node', hnode', -, hentries, -⟩ := hkept i node hnode
  obtain ⟨node'', hfinal, hentries'⟩ := h i node' hi hnode'
  exact ⟨node'', hfinal, hentries'.trans hentries⟩

theorem Settled.second {start start' : Nat} {nodes final : Array Snapshot.Node}
    (h : Settled start nodes final) (hle : start ≤ start') : Settled start' nodes final :=
  fun i node hi => h i node (Nat.le_trans hle hi)

end

/-- Where a step with plenty of room succeeds, the same step with little room does the same, or it
fails for lack of room, and it does so when more is needed. What is needed may be read off any
snapshot in which the new nodes are found. -/
def InStep (r : Realm P) (exempt? : Option Handle) (limit : Nat) {α : Type}
    (wide narrow : SavingM α) (s : Saving) (needs : Array Snapshot.Node → α → Prop)
    (Q : α → Prop) : Prop :=
  ∀ answer s', wide.run s = .ok (answer, s') → Grows r exempt? s s' ∧ Q answer ∧
    ∀ final, Settled s.nodes.size s'.nodes final →
      (needs final answer → narrow.run s = .error (.depthExceeded limit)) ∧
      (¬ needs final answer → narrow.run s = .ok (answer, s'))

section

variable {r : Realm P} {exempt? : Option Handle} {limit : Nat} {α β : Type} {s : Saving}

theorem inStep_refl {step : SavingM α} {needs : Array Snapshot.Node → α → Prop} {Q : α → Prop}
    (h : ∀ answer s', step.run s = .ok (answer, s') → Grows r exempt? s s' ∧ Q answer ∧
      ∀ final, ¬ needs final answer) :
    InStep r exempt? limit step step s needs Q := by
  intro answer s' hrun
  obtain ⟨hgrows, hq, hneeds⟩ := h answer s' hrun
  exact ⟨hgrows, hq, fun final _ => ⟨fun h => absurd h (hneeds final), fun _ => hrun⟩⟩

theorem inStep_pure {answer : α} {needs : Array Snapshot.Node → α → Prop} {Q : α → Prop}
    (hneeds : ∀ final, ¬ needs final answer) (hq : Q answer) :
    InStep r exempt? limit (pure answer) (pure answer) s needs Q := by
  refine inStep_refl fun answer' s' hrun => ?_
  obtain ⟨rfl, rfl⟩ := Prod.mk.inj (Except.ok.inj hrun)
  exact ⟨Grows.refl, hq, hneeds⟩

/-- The one step fails for lack of room when the other one succeeds. -/
theorem inStep_throw {wide : SavingM α} {needs : Array Snapshot.Node → α → Prop} {Q : α → Prop}
    (h : ∀ answer s', wide.run s = .ok (answer, s') → Grows r exempt? s s' ∧ Q answer ∧
      ∀ final, needs final answer) :
    InStep r exempt? limit wide (throw (.depthExceeded limit)) s needs Q := by
  intro answer s' hrun
  obtain ⟨hgrows, hq, hneeds⟩ := h answer s' hrun
  exact ⟨hgrows, hq, fun final _ => ⟨fun _ => rfl, fun h => absurd (hneeds final) h⟩⟩

theorem InStep.imp {wide narrow : SavingM α} {needs needs' : Array Snapshot.Node → α → Prop}
    {Q Q' : α → Prop} (h : InStep r exempt? limit wide narrow s needs Q)
    (hneeds : ∀ final answer, Q answer → (needs' final answer ↔ needs final answer))
    (himp : ∀ answer, Q answer → Q' answer) :
    InStep r exempt? limit wide narrow s needs' Q' := by
  intro answer s' hrun
  obtain ⟨hgrows, hq, hfinal⟩ := h answer s' hrun
  refine ⟨hgrows, himp answer hq, fun final hsettled => ?_⟩
  rw [hneeds final answer hq]
  exact hfinal final hsettled

/-- One step after another needs what the one or the other needs. -/
theorem InStep.bind {wide narrow : SavingM α} {wideNext narrowNext : α → SavingM β}
    {needs : Array Snapshot.Node → α → Prop} {needsBoth : Array Snapshot.Node → β → Prop}
    {Q : α → Prop} {QBoth : β → Prop} (h : InStep r exempt? limit wide narrow s needs Q)
    (needsNext : α → Array Snapshot.Node → β → Prop)
    (hnext : ∀ answer s', Grows r exempt? s s' → Q answer →
      InStep r exempt? limit (wideNext answer) (narrowNext answer) s' (needsNext answer)
        fun next => QBoth next ∧ ∀ final,
          needsBoth final next ↔ needs final answer ∨ needsNext answer final next) :
    InStep r exempt? limit (wide >>= wideNext) (narrow >>= narrowNext) s needsBoth QBoth := by
  intro next s'' hrun
  rw [StateT.run_bind] at hrun
  cases hfirst : wide.run s with
  | error error =>
    rw [hfirst] at hrun
    cases hrun
  | ok outcome =>
    obtain ⟨answer, s'⟩ := outcome
    rw [hfirst] at hrun
    have hsecond : (wideNext answer).run s' = .ok (next, s'') := hrun
    obtain ⟨hgrows, hq, hneeds⟩ := h answer s' hfirst
    obtain ⟨hgrows', ⟨hq', hboth⟩, hneeds'⟩ := hnext answer s' hgrows hq next s'' hsecond
    refine ⟨hgrows.trans hgrows', hq', fun final hsettled => ?_⟩
    obtain ⟨hfail, hok⟩ := hneeds final (hsettled.first hgrows'.kept)
    obtain ⟨hfail', hok'⟩ := hneeds' final (hsettled.second hgrows.kept.size_le)
    rw [hboth final, StateT.run_bind]
    by_cases hany : needs final answer
    -- there is no room for the first step, so the second one does not take place
    · rw [hfail hany]
      exact ⟨fun _ => rfl, fun hnot => absurd (Or.inl hany) hnot⟩
    · rw [hok hany]
      refine ⟨fun hor => hfail' (hor.resolve_left hany), fun hnot => ?_⟩
      exact hok' fun hlater => hnot (Or.inr hlater)

end

/-! ## Members -/

/-- With little room and with plenty of it, values that are met inside the arrays of `path` are saved
in step. -/
def InStepInside (r : Realm P) (mask? : Option (List String)) (exempt? : Option Handle)
    (limit room : Nat) (path : List Handle) (wide narrow : Value → SavingM (Option Entry)) : Prop :=
  ∀ value s, Ready r exempt? s → InStep r exempt? limit (wide value) (narrow value) s
    (fun final image? => Exceeds r mask? exempt? final room path value (image?.getD .null))
    fun image? => image? = none ↔ leavesOut r exempt? value = true

section

variable {r : Realm P} {mask? : Option (List String)} {exempt? : Option Handle} {limit room : Nat}
  {path : List Handle} {wide narrow : Value → SavingM (Option Entry)} {s : Saving}

/-- Saving what stands under a name takes more room than there is. -/
def MemberExceeds (r : Realm P) (mask? : Option (List String)) (exempt? : Option Handle)
    (room : Nat) (path : List Handle) (final : Array Snapshot.Node) (entries : Table Entry)
    (member : String × Value) : Prop :=
  shared? mask? member.1 member.2 = none ∧
    Exceeds r mask? exempt? final room path member.2 (entryOf r exempt? entries member)

/-- Later entries of other names make no difference. -/
theorem memberExceeds_congr {final : Array Snapshot.Node} {table table' : Table Entry}
    {member : String × Value} (hfirst : table.entries <+: table'.entries)
    (hmember : leavesEntry r mask? exempt? member = true → member.1 ∈ table.keys) :
    MemberExceeds r mask? exempt? room path final table' member ↔
      MemberExceeds r mask? exempt? room path final table member := by
  have hentry : shared? mask? member.1 member.2 = none →
      entryOf r exempt? table' member = entryOf r exempt? table member := by
    intro hown
    cases hout : leavesOut r exempt? member.2 with
    | true => simp only [entryOf, hout, if_true]
    | false =>
      have hmem := hmember (by simp [leavesEntry, hout])
      obtain ⟨pair, hpair, hname⟩ := List.mem_map.1 hmem
      have hfind : table.find? member.1 = some pair.2 :=
        Table.find?_eq_some_iff.2 (hname ▸ hpair)
      have hfind' : table'.find? member.1 = some pair.2 :=
        Table.find?_eq_some_iff.2 (hname ▸ hfirst.subset hpair)
      rw [entryOf, entryOf, hfind, hfind']
  constructor
  · rintro ⟨hown, h⟩
    exact ⟨hown, hentry hown ▸ h⟩
  · rintro ⟨hown, h⟩
    exact ⟨hown, (hentry hown).symm ▸ h⟩

/-- A table with one more entry for what stands under a name, if it leaves one. -/
def Added (r : Realm P) (mask? : Option (List String)) (exempt? : Option Handle)
    (table : Table Entry) (member : String × Value) (table' : Table Entry) : Prop :=
  ∃ out : Option Entry, table'.entries = table.entries ++ (out.map (member.1, ·)).toList ∧
    out.isSome = leavesEntry r mask? exempt? member

theorem inStep_addEntry (hinside : InStepInside r mask? exempt? limit room path wide narrow)
    (hs : Ready r exempt? s) {table : Table Entry} {name : String} (value : Value)
    (hnew : name ∉ table.keys) :
    InStep r exempt? limit (addEntry mask? wide table name value)
      (addEntry mask? narrow table name value) s
      (fun final table' => MemberExceeds r mask? exempt? room path final table' (name, value))
      (Added r mask? exempt? table (name, value)) := by
  unfold addEntry
  cases hshared : shared? mask? name value with
  | some h =>
    refine inStep_pure (fun final hexceeds => ?_) ⟨some (.reference h), ?_, ?_⟩
    · simp [MemberExceeds, hshared] at hexceeds
    · exact table.entries_insert_of_not_mem _ hnew
    · simp [leavesEntry, hshared]
  | none =>
    refine (hinside value s hs).bind (fun _ _ _ => False) fun image? s' _ himage => ?_
    cases image? with
    | none =>
      have hout : leavesOut r exempt? value = true := himage.1 rfl
      refine inStep_pure (fun _ => id) ⟨⟨none, by simp, by simp [leavesEntry, hshared, hout]⟩, ?_⟩
      simp [MemberExceeds, hshared, entryOf, hout]
    | some entry =>
      have hout : leavesOut r exempt? value = false := by
        rw [← Bool.not_eq_true, ← himage]
        simp
      have hentries := table.entries_insert_of_not_mem entry hnew
      have hfind : (table.insert name entry).find? name = some entry := by
        rw [Table.find?_eq_some_iff, hentries]
        exact List.mem_append_right _ List.mem_cons_self
      refine inStep_pure (fun _ => id) ⟨⟨some entry, hentries, by simp [leavesEntry, hout]⟩, ?_⟩
      simp [MemberExceeds, hshared, entryOf, hout, hfind]

/-- Members are added to a table one after the other. -/
theorem inStep_foldlM {ι : Type} {add addNarrow : Table Entry → ι → SavingM (Table Entry)}
    (own : ι → Option (String × Value)) (Todo : List ι → Table Entry → Prop)
    (hadd : ∀ {x : ι} {xs : List ι} {table : Table Entry} {s : Saving}, Todo (x :: xs) table →
      Ready r exempt? s → InStep r exempt? limit (add table x) (addNarrow table x) s
        (fun final table' => ∃ member, own x = some member ∧
          MemberExceeds r mask? exempt? room path final table' member)
        fun table' => Todo xs table' ∧ table.entries <+: table'.entries ∧
          ∀ member, own x = some member → leavesEntry r mask? exempt? member = true →
            member.1 ∈ table'.keys)
    {xs : List ι} {table : Table Entry} {s : Saving} (htodo : Todo xs table)
    (hs : Ready r exempt? s) :
    InStep r exempt? limit (xs.foldlM add table) (xs.foldlM addNarrow table) s
      (fun final table' => ∃ member ∈ xs.filterMap own,
        MemberExceeds r mask? exempt? room path final table' member)
      fun table' => Todo [] table' ∧ table.entries <+: table'.entries := by
  induction xs generalizing table s with
  | nil => exact inStep_pure (by simp) ⟨htodo, List.prefix_refl _⟩
  | cons x xs ih =>
    rw [List.foldlM_cons, List.foldlM_cons]
    refine (hadd htodo hs).bind (fun _ final table' => ∃ member ∈ xs.filterMap own,
      MemberExceeds r mask? exempt? room path final table' member) fun table₁ s₁ hgrows hq => ?_
    obtain ⟨htodo₁, hfirst, hkeys⟩ := hq
    refine (ih htodo₁ (hs.grows hgrows)).imp (fun _ _ _ => Iff.rfl) fun table₂ hq₂ => ?_
    obtain ⟨htodo₂, hfirst₂⟩ := hq₂
    refine ⟨⟨htodo₂, hfirst.trans hfirst₂⟩, fun final => ?_⟩
    have hcongr : ∀ member, own x = some member →
        (MemberExceeds r mask? exempt? room path final table₂ member ↔
          MemberExceeds r mask? exempt? room path final table₁ member) :=
      fun member hown => memberExceeds_congr hfirst₂ (hkeys member hown)
    simp only [List.mem_filterMap, List.mem_cons]
    constructor
    · rintro ⟨member, ⟨y, rfl | hy, hown⟩, hexceeds⟩
      · exact Or.inl ⟨member, hown, (hcongr member hown).1 hexceeds⟩
      · exact Or.inr ⟨member, ⟨y, hy, hown⟩, hexceeds⟩
    · rintro (⟨member, hown, hexceeds⟩ | ⟨member, ⟨y, hy, hown⟩, hexceeds⟩)
      · exact ⟨member, ⟨x, Or.inl rfl, hown⟩, (hcongr member hown).2 hexceeds⟩
      · exact ⟨member, ⟨y, Or.inr hy, hown⟩, hexceeds⟩

theorem mem_names_of_mem_present {h : Handle} {bindings : List (BoundProperty P)} {key : String}
    (hmem : key ∈ present r mask? exempt? h bindings) :
    key ∈ bindings.map BoundProperty.name := by
  obtain ⟨member, hmember, rfl⟩ := List.mem_map.1 hmem
  obtain ⟨binding, hbinding, hown⟩ := List.mem_filterMap.1 (List.mem_of_mem_filter hmember)
  unfold ownProperty? at hown
  split at hown
  · obtain ⟨value, -, rfl⟩ := Option.map_eq_some_iff.1 hown
    exact List.mem_map_of_mem hbinding
  · cases hown

theorem free_of_mem_present {h : Handle} {bindings : List (BoundProperty P)} {key : String}
    (hmem : key ∈ present r mask? exempt? h bindings) : Snapshot.isReserved key = false := by
  obtain ⟨member, hmember, rfl⟩ := List.mem_map.1 hmem
  obtain ⟨binding, -, hown⟩ := List.mem_filterMap.1 (List.mem_of_mem_filter hmember)
  unfold ownProperty? at hown
  split at hown
  · next hsaved =>
    obtain ⟨value, -, rfl⟩ := Option.map_eq_some_iff.1 hown
    simp only [Bool.and_eq_true, Bool.not_eq_true'] at hsaved
    exact hsaved.2
  · cases hown

/-- The first properties have been added, and no others. -/
def PropertiesAdded (r : Realm P) (mask? : Option (List String)) (exempt? : Option Handle)
    (h : Handle) (all rest : List (BoundProperty P)) (table : Table Entry) : Prop :=
  ∃ done, done ++ rest = all ∧ table.keys = present r mask? exempt? h done

/-- A property that has been passed over leaves the next ones to be added. -/
theorem PropertiesAdded.skip {h : Handle} {binding : BoundProperty P}
    {all rest : List (BoundProperty P)} {table : Table Entry}
    (hadded : PropertiesAdded r mask? exempt? h all (binding :: rest) table)
    (hown : ownProperty? r mask? h binding = none) :
    PropertiesAdded r mask? exempt? h all rest table := by
  obtain ⟨done, hall, hkeys⟩ := hadded
  refine ⟨done ++ [binding], by rw [List.append_assoc]; exact hall, ?_⟩
  rw [hkeys, present, present, List.filterMap_append]
  simp [hown]

/-- So does one that has been added. -/
theorem PropertiesAdded.next {h : Handle} {binding : BoundProperty P}
    {all rest : List (BoundProperty P)} {table table' : Table Entry} {value : Value}
    (hadded : PropertiesAdded r mask? exempt? h all (binding :: rest) table)
    (hown : ownProperty? r mask? h binding = some (binding.name, value))
    (htable : Added r mask? exempt? table (binding.name, value) table') :
    PropertiesAdded r mask? exempt? h all rest table' := by
  obtain ⟨done, hall, hkeys⟩ := hadded
  obtain ⟨out, hentries, hout⟩ := htable
  refine ⟨done ++ [binding], by rw [List.append_assoc]; exact hall, ?_⟩
  have hkeys' : table'.keys = table.keys ++ (out.map (binding.name, ·)).toList.map Prod.fst := by
    rw [Table.keys, hentries, List.map_append]
    rfl
  rw [hkeys', hkeys, present, present, List.filterMap_append, List.filter_append, List.map_append]
  cases out with
  | none => simp [hown, ← hout]
  | some entry => simp [hown, ← hout]

/-- What has been added with an entry is found under its name. -/
theorem Added.mem_keys {table table' : Table Entry} {member : String × Value}
    (h : Added r mask? exempt? table member table')
    (hleaves : leavesEntry r mask? exempt? member = true) : member.1 ∈ table'.keys := by
  obtain ⟨out, hentries, hout⟩ := h
  rw [← hout, Option.isSome_iff_exists] at hleaves
  obtain ⟨entry, rfl⟩ := hleaves
  rw [Table.keys, hentries]
  simp

theorem inStep_addProperties (hinside : InStepInside r mask? exempt? limit room path wide narrow)
    (hs : Ready r exempt? s) (h : Handle) (c : ClassNumber)
    (hnames : ((r.registry.visibleProperties c).map BoundProperty.name).Nodup) :
    InStep r exempt? limit (addProperties r mask? wide h c .empty)
      (addProperties (r.withLimit limit) mask? narrow h c .empty) s
      (fun final table =>
        ∃ member ∈ (r.registry.visibleProperties c).filterMap (ownProperty? r mask? h),
          MemberExceeds r mask? exempt? room path final table member)
      fun table => table.keys = present r mask? exempt? h (r.registry.visibleProperties c) := by
  have hstart : PropertiesAdded r mask? exempt? h (r.registry.visibleProperties c)
      (r.registry.visibleProperties c) (.empty : Table Entry) := ⟨[], rfl, rfl⟩
  refine (inStep_foldlM _ (PropertiesAdded r mask? exempt? h (r.registry.visibleProperties c))
    ?_ hstart hs).imp (fun _ _ _ => Iff.rfl) ?_
  · intro binding rest table s hadded hs
    have hnew : binding.name ∉ table.keys := by
      obtain ⟨done, hall, hkeys⟩ := hadded
      rw [← hall, List.map_append, List.nodup_append] at hnames
      rw [hkeys]
      exact fun hmem => hnames.2.2 _ (mem_names_of_mem_present hmem) _
        (List.mem_map_of_mem List.mem_cons_self) rfl
    by_cases hsaved : (isSaved mask? binding && !Snapshot.isReserved binding.name) = true
    · rw [if_pos hsaved, if_pos hsaved]
      cases hvalue : r.property h binding.name with
      -- the read fails whatever room there is
      | error error =>
        have hvalue' : (r.withLimit limit).property h binding.name = .error error := hvalue
        rw [hvalue']
        exact inStep_refl fun _ _ hrun => nomatch hrun
      | ok value =>
        have hvalue' : (r.withLimit limit).property h binding.name = .ok value := hvalue
        have hown : ownProperty? r mask? h binding = some (binding.name, value) := by
          rw [ownProperty?, if_pos hsaved, hvalue]
          rfl
        rw [hvalue']
        refine (inStep_addEntry hinside hs value hnew).imp (fun final table' _ => ?_)
          fun table' htable => ⟨hadded.next hown htable, ?_, ?_⟩
        · simp [hown]
        · obtain ⟨out, hentries, -⟩ := htable
          exact ⟨_, hentries.symm⟩
        · intro member hmember hleaves
          rw [hown] at hmember
          obtain rfl := Option.some.inj hmember
          exact htable.mem_keys hleaves
    · have hown : ownProperty? r mask? h binding = none := by rw [ownProperty?, if_neg hsaved]
      rw [if_neg hsaved, if_neg hsaved]
      exact inStep_pure (by simp [hown]) ⟨hadded.skip hown, List.prefix_refl _, by simp [hown]⟩
  · rintro table ⟨⟨done, hall, hkeys⟩, -⟩
    rw [← hall, List.append_nil, hkeys]

/-- A field has been dealt with, and the others are ready. -/
def FieldDone (r : Realm P) (mask? : Option (List String)) (exempt? : Option Handle)
    (keys : List String) (field : String × Value) (fields : List (String × Value))
    (table table' : Table Entry) : Prop :=
  FieldsReady keys fields table' ∧ table.entries <+: table'.entries ∧
    ∀ member, ownField? keys field = some member → leavesEntry r mask? exempt? member = true →
      member.1 ∈ table'.keys

/-- A field that nothing is saved for, except for the source of a function. -/
theorem inStep_noField {keys : List String} {field : String × Value}
    {fields : List (String × Value)} {table table' : Table Entry} (out : Option (String × Entry))
    (hready : FieldsReady keys (field :: fields) table) (hown : ownField? keys field = none)
    (htable : table'.entries = table.entries ++ out.toList)
    (hout : ∀ key entry, out = some (key, entry) → Snapshot.isReserved field.1 = false ∧
      (key = field.1 ∨ key = Snapshot.functionKey field.1)) :
    InStep r exempt? limit (pure table') (pure table') s
      (fun final table' => ∃ member, ownField? keys field = some member ∧
        MemberExceeds r mask? exempt? room path final table' member)
      (FieldDone r mask? exempt? keys field fields table) :=
  inStep_pure (by simp [hown]) ⟨hready.next htable hout, ⟨_, htable.symm⟩, by simp [hown]⟩

theorem inStep_addFields (hinside : InStepInside r mask? exempt? limit room path wide narrow)
    (hs : Ready r exempt? s) (object : ScriptObject P) {keys : List String}
    {table : Table Entry} (hkeys : table.keys = keys)
    (hfree : ∀ key ∈ keys, Snapshot.isReserved key = false) :
    InStep r exempt? limit (addFields r mask? wide object table)
      (addFields (r.withLimit limit) mask? narrow object table) s
      (fun final table' => ∃ member ∈ object.fields.entries.filterMap (ownField? keys),
        MemberExceeds r mask? exempt? room path final table' member)
      fun table' => table.entries <+: table'.entries := by
  have hready : FieldsReady keys object.fields.entries table := by
    refine ⟨object.fields.nodup, fun field _ => ⟨fun _ => by rw [hkeys], fun hmem => ?_⟩⟩
    rw [hkeys] at hmem
    simpa [Snapshot.isReserved_functionKey] using hfree _ hmem
  refine (inStep_foldlM _ (FieldsReady keys) ?_ hready hs).imp (fun _ _ _ => Iff.rfl)
    fun _ hq => hq.2
  rintro ⟨key, value⟩ fields table s hready hs
  have hsame : (key == Snapshot.transientField || keys.contains key ||
      Snapshot.isReserved key) = (key == Snapshot.transientField || table.contains key ||
      Snapshot.isReserved key) := by
    rw [Bool.eq_iff_iff, hready.passed_over_iff]
    simp [or_assoc]
  by_cases hskip : (key == Snapshot.transientField || table.contains key ||
      Snapshot.isReserved key) = true
  · have hown : ownField? keys (key, value) = none := by
      rw [ownField?, hsame, if_pos hskip]
    simp only [if_pos hskip]
    exact inStep_noField none hready hown (by simp) (by simp)
  · have hskip' := hskip
    rw [hready.passed_over_iff, not_or, not_or, Bool.not_eq_true] at hskip'
    obtain ⟨-, hnew, hfree⟩ := hskip'
    simp only [if_neg hskip]
    cases hvalue : value.function? with
    | some f =>
      obtain rfl : value = .function f := by
        cases value <;> simp_all [Value.function?]
      have hown : ownField? keys (key, .function f) = none := by
        rw [ownField?, hsame, if_neg hskip]
        rfl
      cases hsource : sourceOf? r f with
      | none =>
        simp only [sourceOf?] at hsource
        have hsource' : ((r.withLimit limit).heap.get? f).bind (fun object =>
            object.function?.bind FunctionObject.source?) = none := hsource
        simp only [hsource, hsource']
        exact inStep_noField none hready hown (by simp) (by simp)
      | some source =>
        simp only [sourceOf?] at hsource
        have hsource' : ((r.withLimit limit).heap.get? f).bind (fun object =>
            object.function?.bind FunctionObject.source?) = some source := hsource
        simp only [hsource, hsource']
        refine inStep_noField (some (Snapshot.functionKey key, .string source)) hready hown ?_ ?_
        · exact table.entries_insert_of_not_mem _ (hready.2 _ List.mem_cons_self).2
        · rintro _ _ ⟨⟩
          exact ⟨hfree, Or.inr rfl⟩
    | none =>
      have hown : ownField? keys (key, value) = some (key, value) := by
        simp only [ownField?, hsame, if_neg hskip, hvalue, Option.isSome_none]
        rfl
      have hmem : key ∉ table.keys := fun h =>
        hnew (((hready.2 _ List.mem_cons_self).1 hfree).1 h)
      have hadd : InStep r exempt? limit (addEntry mask? wide table key value)
          (addEntry mask? narrow table key value) s
          (fun final table' => ∃ member, ownField? keys (key, value) = some member ∧
            MemberExceeds r mask? exempt? room path final table' member)
          (FieldDone r mask? exempt? keys (key, value) fields table) := by
        refine (inStep_addEntry hinside hs value hmem).imp (by simp [hown]) fun table' htable => ?_
        refine ⟨?_, ?_, fun member hmember hleaves => ?_⟩
        · obtain ⟨out, hentries, -⟩ := htable
          refine hready.next hentries fun other entry hout => ?_
          obtain ⟨_, -, hpair⟩ := Option.map_eq_some_iff.1 hout
          exact ⟨hfree, Or.inl (Prod.mk.inj hpair).1.symm⟩
        · obtain ⟨out, hentries, -⟩ := htable
          exact ⟨_, hentries.symm⟩
        · rw [hown] at hmember
          obtain rfl := Option.some.inj hmember
          exact htable.mem_keys hleaves
      cases value with
      | function f => simp [Value.function?] at hvalue
      | _ => exact hadd

theorem inStep_get {α : Type} {wide narrow : Saving → SavingM α}
    {needs : Array Snapshot.Node → α → Prop} {Q : α → Prop}
    (h : InStep r exempt? limit (wide s) (narrow s) s needs Q) :
    InStep r exempt? limit (get >>= wide) (get >>= narrow) s needs Q := h

theorem inStep_items (hinside : InStepInside r mask? exempt? limit room path wide narrow)
    {items : List Value} (hs : Ready r exempt? s) :
    InStep r exempt? limit (items.mapM fun item => do return (← wide item).getD .null)
      (items.mapM fun item => do return (← narrow item).getD .null) s
      (fun final entries => ∃ (k : Nat) (item : Value) (entry : Entry), items[k]? = some item ∧
        entries[k]? = some entry ∧ Exceeds r mask? exempt? final room path item entry)
      fun _ => True := by
  induction items generalizing s with
  | nil => exact inStep_pure (by simp) trivial
  | cons item items ih =>
    rw [List.mapM_cons, List.mapM_cons]
    have hitem : InStep r exempt? limit (do return (← wide item).getD .null)
        (do return (← narrow item).getD .null) s
        (fun final entry => Exceeds r mask? exempt? final room path item entry) fun _ => True :=
      (hinside item s hs).bind (fun _ _ _ => False) fun image? s' _ _ =>
        inStep_pure (fun _ => id) ⟨trivial, by simp⟩
    refine hitem.bind (fun _ final all => ∃ (k : Nat) (item : Value) (entry : Entry),
      items[k]? = some item ∧ all[k + 1]? = some entry ∧
        Exceeds r mask? exempt? final room path item entry) fun entry s₁ hgrows _ => ?_
    refine (ih (hs.grows hgrows)).bind (fun _ _ _ => False) fun entries s₂ _ _ =>
      inStep_pure (fun _ => id) ⟨⟨trivial, fun final => ?_⟩, by simp⟩
    constructor
    · rintro ⟨k, item', entry', hitem', hentry', hexceeds⟩
      cases k with
      | zero =>
        obtain rfl : item = item' := by simpa using hitem'
        obtain rfl : entry = entry' := by simpa using hentry'
        exact Or.inl hexceeds
      | succ k => exact Or.inr ⟨k, item', entry', hitem', hentry', hexceeds⟩
    · rintro (hexceeds | ⟨k, item', entry', hitem', hentry', hexceeds⟩)
      · exact ⟨0, item, entry, rfl, rfl, hexceeds⟩
      · exact ⟨k + 1, item', entry', hitem', hentry', hexceeds⟩

end

/-! ## Values -/

/-- With plenty of room, whatever lies inside of a value is saved in step with saving it with any
other room. -/
def InStepBelow (r : Realm P) (mask? : Option (List String)) (exempt? : Option Handle)
    (limit : Nat) (wide? : Option Inner) : Prop :=
  ∀ wide, wide? = some wide → ∀ room path, InStepInside r mask? exempt? limit room path (wide path)
    (save (r.withLimit limit) mask? room path)

section

variable {r : Realm P} {mask? : Option (List String)} {exempt? : Option Handle} {limit : Nat}
  {path : List Handle} {s : Saving} {wide? : Option Inner}

/-- What is needed for the items of an array is needed for the array. -/
theorem exceeds_array_iff {final : Array Snapshot.Node} {room : Nat} {value : Value}
    {origin : Option Handle} {items : List Value} {entries : List Entry}
    (harray : arrayOf? r value = some (origin, items)) :
    Exceeds r mask? exempt? final (room + 1) path value (.array entries) ↔
      ∃ (k : Nat) (item : Value) (entry : Entry), items[k]? = some item ∧
        entries[k]? = some entry ∧
        Exceeds r mask? exempt? final room (origin.toList ++ path) item entry := by
  constructor
  · rintro ⟨path', value', entry', hcomes, hneeds⟩
    cases hcomes with
    | item harray' hitem hentry hcomes =>
      rw [harray] at harray'
      obtain ⟨rfl, rfl⟩ := Prod.mk.inj (Option.some.inj harray')
      exact ⟨_, _, _, hitem, hentry, path', value', entry', hcomes, hneeds⟩
  · rintro ⟨k, item, entry, hitem, hentry, path', value', entry', hcomes, hneeds⟩
    exact ⟨path', value', entry', .item harray hitem hentry hcomes, hneeds⟩

/-- What is needed for the members of an object is needed for the object. -/
theorem exceeds_node_iff {final : Array Snapshot.Node} {room : Nat} {h : Handle}
    {object : ScriptObject P} {index : Nat} (hget : r.heap.get? h = some object) :
    Exceeds r mask? exempt? final (room + 1) path (.object h) (.node index) ↔
      ∃ node : Snapshot.Node, final[index]? = some node ∧
        ∃ member ∈ members r mask? exempt? h object,
          MemberExceeds r mask? exempt? room path final node.entries member := by
  constructor
  · rintro ⟨path', value', entry', hcomes, hneeds⟩
    cases hcomes with
    | member hget' hnode hmember hown hcomes =>
      rw [hget] at hget'
      obtain rfl := Option.some.inj hget'
      exact ⟨_, hnode, _, hmember, hown, path', value', entry', hcomes, hneeds⟩
  · rintro ⟨node, hnode, member, hmember, hown, path', value', entry', hcomes, hneeds⟩
    exact ⟨path', value', entry', .member hget hnode hmember hown hcomes, hneeds⟩

theorem exceeds_zero_iff {final : Array Snapshot.Node} {value : Value} {entry : Entry} :
    Exceeds r mask? exempt? final 0 path value entry ↔
      entry.isLeaf = false ∨ TurnedAway r exempt? path value := by
  constructor
  · rintro ⟨path', value', entry', hcomes, hneeds⟩
    cases hcomes
    exact hneeds
  · exact fun hneeds => ⟨path, value, entry, .here, hneeds⟩

theorem not_comesTo_of_isLeaf {nodes : Array Snapshot.Node} {path' : List Handle}
    {value value' : Value} {entry entry' : Entry} {n : Nat} (hleaf : entry.isLeaf = true) :
    ¬ ComesTo r mask? exempt? nodes path value entry (n + 1) path' value' entry' := by
  intro hcomes
  cases hcomes with
  | item => simp [Entry.isLeaf] at hleaf
  | member => simp [Entry.isLeaf] at hleaf

/-- Where nothing lies inside of an entry, nothing more is needed. -/
theorem not_exceeds_leaf {final : Array Snapshot.Node} {room : Nat} {value : Value} {entry : Entry}
    (hleaf : entry.isLeaf = true) :
    ¬ Exceeds r mask? exempt? final (room + 1) path value entry :=
  fun ⟨_, _, _, hcomes, _⟩ => not_comesTo_of_isLeaf hleaf hcomes

/-- A value that is saved as it is, whatever room there is. -/
theorem inStep_leaf {image? : Option Entry} {value : Value}
    (hleaf : (image?.getD .null).isLeaf = true) (haway : ¬ TurnedAway r exempt? path value)
    (hout : image? = none ↔ leavesOut r exempt? value = true) (room : Nat) :
    InStep r exempt? limit (pure image?) (pure image?) s
      (fun final image? => Exceeds r mask? exempt? final room path value (image?.getD .null))
      fun image? => image? = none ↔ leavesOut r exempt? value = true := by
  refine inStep_pure (fun final => ?_) hout
  cases room with
  | zero =>
    rw [exceeds_zero_iff, hleaf]
    simpa using haway
  | succ room => exact not_exceeds_leaf hleaf

/-- What needs room itself fails without any, and is saved in step otherwise. -/
theorem inStep_roomy {α : Type} {wide narrow : Inner → SavingM α}
    (needs : Nat → Array Snapshot.Node → α → Prop) {Q : α → Prop}
    (h : ∀ inner, wide? = some inner → ∀ less, InStep r exempt? limit (wide inner)
      (narrow (save (r.withLimit limit) mask? less)) s (needs (less + 1)) Q)
    (hzero : ∀ final answer, Q answer → needs 0 final answer) (room : Nat) :
    InStep r exempt? limit
      (do
        let some inner := wide? | throw (.depthExceeded r.options.depthLimit)
        wide inner)
      (do
        let some inner := inner? (r.withLimit limit) mask? room |
          throw (.depthExceeded (r.withLimit limit).options.depthLimit)
        narrow inner) s (needs room) Q := by
  cases wide? with
  | none => exact fun _ _ hrun => nomatch hrun
  | some inner =>
    cases room with
    | zero =>
      refine inStep_throw fun answer s' hrun => ?_
      obtain ⟨hgrows, hq, -⟩ := h inner rfl 0 answer s' hrun
      exact ⟨hgrows, hq, fun final => hzero final answer hq⟩
    | succ less => exact h inner rfl less

theorem inStep_saveArray (hbelow : InStepBelow r mask? exempt? limit wide?) (room : Nat)
    (hs : Ready r exempt? s) {value : Value} {origin : Option Handle} {items : List Value}
    (harray : arrayOf? r value = some (origin, items)) :
    InStep r exempt? limit (saveArray r wide? path origin items)
      (saveArray (r.withLimit limit) (inner? (r.withLimit limit) mask? room) path origin items) s
      (fun final entry => Exceeds r mask? exempt? final room path value entry)
      fun entry => entry.isLeaf = false ∨ TurnedAway r exempt? path value := by
  unfold saveArray
  refine inStep_roomy (fun room final entry => Exceeds r mask? exempt? final room path value entry)
    (fun wide hwide less => ?_) (fun final entry => exceeds_zero_iff.2) room
  by_cases hcut : origin.any path.contains = true
  · simp only [if_pos hcut]
    have haway : TurnedAway r exempt? path value := by
      cases origin with
      | none => simp at hcut
      | some h => exact .cut harray (by simpa using hcut)
    exact inStep_pure (fun _ => not_exceeds_leaf rfl) (Or.inr haway)
  · simp only [if_neg hcut]
    refine (inStep_items (hbelow wide hwide less (origin.toList ++ path)) hs).bind
      (fun _ _ _ => False) fun entries s' _ _ => inStep_pure (fun _ => id) ⟨Or.inl rfl, ?_⟩
    intro final
    rw [exceeds_array_iff harray, or_false]

/-! ## Nodes -/

/-- Makes the node of an object, then its entries. -/
def makeNode (h : Handle) (className : Option String) (entries : SavingM (Table Entry)) :
    SavingM (Option Entry) := do
  let index ← addNode h className
  let entries ← entries
  modify fun s => { s with nodes := s.nodes.modify index fun node => { node with entries } }
  return some (.node index)

theorem run_makeNode (h : Handle) (className : Option String) (entries : SavingM (Table Entry)) :
    (makeNode h className entries).run s = (entries.run (s.withNode h className)).map
      fun outcome => (some (.node s.nodes.size), outcome.2.withEntries s.nodes.size outcome.1) := by
  have hrun : (makeNode h className entries).run s =
      (entries.run (s.withNode h className)).bind fun outcome =>
        .ok (some (.node s.nodes.size), outcome.2.withEntries s.nodes.size outcome.1) := rfl
  rw [hrun]
  cases entries.run (s.withNode h className) <;> rfl

theorem has_withNode {h k : Handle} {className : Option String} :
    (s.withNode h className).has k ↔ k = h ∨ s.has k := by
  by_cases hk : k = h
  · simp [has, Saving.withNode, hk]
  · simp [has, Saving.withNode, hk, List.lookup_cons, beq_eq_false_iff_ne.2 hk]

theorem grows_makeNode {h : Handle} {className : Option String} {table : Table Entry}
    (hgrows : Grows r exempt? (s.withNode h className) s') (hproper : Proper r exempt? h) :
    Grows r exempt? s (s'.withEntries s.nodes.size table) := by
  constructor
  case kept =>
    intro i node hnode
    have hi := (Array.getElem?_eq_some_iff.1 hnode).1
    obtain ⟨node', hnode', hkept⟩ := ((kept_withNode h className).trans hgrows.kept) i node hnode
    exact ⟨node', by rw [getElem?_withEntries_of_ne _ (by omega), hnode'], hkept⟩
  case has => exact fun k hk => hgrows.has k (has_withNode.2 (Or.inr hk))
  case proper =>
    intro k hk
    rcases hgrows.proper k hk with hold | hproper
    · exact (has_withNode.1 hold).elim (fun heq => Or.inr (heq ▸ hproper)) Or.inl
    · exact Or.inr hproper

/-- Nodes are made in step when their entries are. -/
theorem inStep_makeNode {wide narrow : SavingM (Table Entry)} {h : Handle}
    {className : Option String} {needs : Array Snapshot.Node → Table Entry → Prop}
    {Q : Table Entry → Prop}
    (hentries : InStep r exempt? limit wide narrow (s.withNode h className) needs Q)
    (hproper : Proper r exempt? h) :
    InStep r exempt? limit (makeNode h className wide) (makeNode h className narrow) s
      (fun final _ => ∃ node : Snapshot.Node, final[s.nodes.size]? = some node ∧
        needs final node.entries)
      fun image? => image? = some (.node s.nodes.size) := by
  intro image? s' hrun
  rw [run_makeNode] at hrun
  cases hwide : wide.run (s.withNode h className) with
  | error error =>
    rw [hwide] at hrun
    cases hrun
  | ok outcome =>
    obtain ⟨table, s₁⟩ := outcome
    rw [hwide] at hrun
    obtain ⟨rfl, rfl⟩ := Prod.mk.inj (Except.ok.inj hrun)
    obtain ⟨hgrows, -, hneeds⟩ := hentries table s₁ hwide
    refine ⟨grows_makeNode hgrows hproper, rfl, fun final hsettled => ?_⟩
    have hsize : (s.withNode h className).nodes.size = s.nodes.size + 1 := by
      simp [Saving.withNode]
    -- the new node holds the table in the end
    have hfinal : ∃ node : Snapshot.Node, final[s.nodes.size]? = some node ∧
        node.entries = table := by
      obtain ⟨node, hnode, -⟩ := hgrows.kept s.nodes.size { Snapshot.Node.empty with className }
        (by simp [Saving.withNode])
      refine hsettled s.nodes.size { node with entries := table } (Nat.le_refl _) ?_
      rw [Saving.withEntries, Array.getElem?_modify, if_pos rfl, hnode]
      rfl
    have hinside : Settled (s.withNode h className).nodes.size s₁.nodes final := by
      intro i node hi hnode
      exact hsettled i node (by omega) (by rw [getElem?_withEntries_of_ne _ (by omega), hnode])
    obtain ⟨node, hnode, hnodeEntries⟩ := hfinal
    obtain ⟨hfail, hok⟩ := hneeds final hinside
    constructor
    · rintro ⟨node', hnode', hany⟩
      rw [hnode] at hnode'
      rw [← Option.some.inj hnode', hnodeEntries] at hany
      rw [run_makeNode, hfail hany]
      rfl
    · intro hnone
      have hnot : ¬ needs final table := fun hany => hnone ⟨node, hnode, hnodeEntries ▸ hany⟩
      rw [run_makeNode, hok hnot]
      rfl

/-- Makes the entries of an object: those of its properties first, then those of its fields. -/
def makeEntries (r : Realm P) (mask? : Option (List String))
    (inner : Value → SavingM (Option Entry)) (h : Handle) (object : ScriptObject P) :
    SavingM (Table Entry) :=
  ((registered? r object).elim (pure .empty) fun named =>
    addProperties r mask? inner h named.1 .empty) >>= addFields r mask? inner object

theorem inStep_makeEntries {wide narrow : Value → SavingM (Option Entry)} {room : Nat}
    (hinside : InStepInside r mask? exempt? limit room path wide narrow) (hs : Ready r exempt? s)
    (hnames : ∀ c, ((r.registry.visibleProperties c).map BoundProperty.name).Nodup) (h : Handle)
    (object : ScriptObject P) :
    InStep r exempt? limit (makeEntries r mask? wide h object)
      (makeEntries (r.withLimit limit) mask? narrow h object) s
      (fun final table => ∃ member ∈ members r mask? exempt? h object,
        MemberExceeds r mask? exempt? room path final table member)
      fun _ => True := by
  have hproperties : InStep r exempt? limit
      ((registered? r object).elim (pure .empty) fun named =>
        addProperties r mask? wide h named.1 .empty)
      ((registered? r object).elim (pure .empty) fun named =>
        addProperties (r.withLimit limit) mask? narrow h named.1 .empty) s
      (fun final table => ∃ member ∈ (propertiesOf r object).filterMap (ownProperty? r mask? h),
        MemberExceeds r mask? exempt? room path final table member)
      fun table => table.keys = present r mask? exempt? h (propertiesOf r object) := by
    rw [propertiesOf]
    cases registered? r object with
    | none => exact inStep_pure (by simp) rfl
    | some named => exact inStep_addProperties hinside hs h named.1 (hnames named.1)
  refine hproperties.bind (fun _ final table => ∃ member ∈ object.fields.entries.filterMap
      (ownField? (present r mask? exempt? h (propertiesOf r object))),
    MemberExceeds r mask? exempt? room path final table member) fun table s₁ hgrows hkeys => ?_
  refine (inStep_addFields hinside (hs.grows hgrows) object hkeys fun _ => free_of_mem_present).imp
    (fun _ _ _ => Iff.rfl) fun table' hfirst => ⟨trivial, fun final => ?_⟩
  -- fields do not put anything in front of the properties, so these exceed as before
  have hcongr : ∀ member ∈ (propertiesOf r object).filterMap (ownProperty? r mask? h),
      (MemberExceeds r mask? exempt? room path final table' member ↔
        MemberExceeds r mask? exempt? room path final table member) := by
    intro member hmember
    refine memberExceeds_congr hfirst fun hleaves => ?_
    rw [hkeys]
    exact List.mem_map_of_mem (List.mem_filter.2 ⟨hmember, hleaves⟩)
  simp only [members, List.mem_append]
  constructor
  · rintro ⟨member, hmember | hmember, hexceeds⟩
    · exact Or.inl ⟨member, hmember, (hcongr member hmember).1 hexceeds⟩
    · exact Or.inr ⟨member, hmember, hexceeds⟩
  · rintro (⟨member, hmember, hexceeds⟩ | ⟨member, hmember, hexceeds⟩)
    · exact ⟨member, Or.inl hmember, (hcongr member hmember).2 hexceeds⟩
    · exact ⟨member, Or.inr hmember, hexceeds⟩

/-! ## Objects -/

/-- A further way to an object costs no room. -/
theorem inStep_identifier (index : Nat) :
    InStep r exempt? limit (identifier index) (identifier index) s (fun _ _ => False)
      fun _ => True := by
  refine inStep_get ?_
  cases hid : Snapshot.idAt? s.nodes index with
  | some known =>
    have hmatch : s.nodes[index]?.bind Snapshot.Node.id = some known := hid
    rw [hmatch]
    exact inStep_pure (fun _ => id) trivial
  | none =>
    have hmatch : s.nodes[index]?.bind Snapshot.Node.id = none := hid
    rw [hmatch]
    refine inStep_refl fun id s' hrun => ?_
    obtain ⟨rfl, rfl⟩ := Prod.mk.inj (Except.ok.inj hrun)
    exact ⟨⟨kept_modify_id hid _, fun _ h => h, fun _ => Or.inl⟩, trivial, fun _ h => h⟩

/-- Saves an object that has no node, once there is room for it. -/
def saveNew (r : Realm P) (mask? : Option (List String)) (inner : Value → SavingM (Option Entry))
    (h : Handle) (force : Bool) : SavingM (Option Entry) := do
  let some object := r.heap.get? h | return some .null
  if !force && isTransient object then return none
  if r.isSingletonInstance h then return some .null
  makeNode h ((registered? r object).map Prod.snd) (makeEntries r mask? inner h object)

theorem saveObject_eq_saveNew (r : Realm P) (mask? : Option (List String)) (inner? : Option Inner)
    (path : List Handle) (h : Handle) (force : Bool) :
    saveObject r mask? inner? path h force = (do
      match (← get).saved.lookup h with
      | some index => return some (.stub (← identifier index))
      | none =>
        let some inner := inner? | throw (.depthExceeded r.options.depthLimit)
        saveNew r mask? (inner path) h force) := by
  unfold saveObject saveNew
  congr 1
  funext s
  cases s.saved.lookup h with
  | some index => rfl
  | none =>
    cases inner? with
    | none => rfl
    | some inner =>
      cases r.heap.get? h with
      | none => rfl
      | some object =>
        -- the node is made in the same way, whether its class is registered or not
        have hmatch : (object.class?.bind fun c => (r.registry.get? c).bind fun d =>
            if d.outline.builtin = true then none else some (c, d.outline.name)) =
              registered? r object := rfl
        simp only [hmatch, makeNode, makeEntries, bind_assoc]
        cases registered? r object <;> rfl

theorem Ready.withNode {h : Handle} {className : Option String}
    (hproper : ∀ k, s.has k → Proper r exempt? k)
    (hexempt : ∀ k, exempt? = some k → leavesOut r none (.object k) = true → k = h ∨ s.has k)
    (hnew : Proper r exempt? h) : Ready r exempt? (s.withNode h className) where
  proper k hk := (has_withNode.1 hk).elim (fun heq => heq ▸ hnew) (hproper k)
  exempt k hk hout := has_withNode.2 (hexempt k hk hout)

theorem inStep_saveNew {wide narrow : Value → SavingM (Option Entry)} {less : Nat}
    (hinside : InStepInside r mask? exempt? limit less path wide narrow)
    (hnames : ∀ c, ((r.registry.visibleProperties c).map BoundProperty.name).Nodup)
    {h : Handle} {object : ScriptObject P} (hget : r.heap.get? h = some object)
    (hcontainer : object.items? = none) {force : Bool}
    (hforce : (!force && isTransient object) = leavesOut r exempt? (.object h))
    (hproper : ∀ k, s.has k → Proper r exempt? k)
    (hexempt : ∀ k, exempt? = some k → leavesOut r none (.object k) = true → k = h ∨ s.has k) :
    InStep r exempt? limit (saveNew r mask? wide h force)
      (saveNew (r.withLimit limit) mask? narrow h force) s
      (fun final image? =>
        Exceeds r mask? exempt? final (less + 1) path (.object h) (image?.getD .null))
      fun image? => ((image?.getD .null).isLeaf = false ∨ TurnedAway r exempt? path (.object h)) ∧
        ( image? = none ↔ leavesOut r exempt? (.object h) = true) := by
  unfold saveNew
  have hget' : (r.withLimit limit).heap.get? h = some object := hget
  have hsingle : (r.withLimit limit).isSingletonInstance h = r.isSingletonInstance h := rfl
  simp only [hget, hget', hsingle, hforce]
  by_cases hout : leavesOut r exempt? (.object h) = true
  · simp only [if_pos hout]
    exact inStep_pure (fun _ => not_exceeds_leaf rfl) ⟨Or.inr (.transient hout), by simp [hout]⟩
  simp only [if_neg hout]
  by_cases hsingleton : r.isSingletonInstance h = true
  · simp only [if_pos hsingleton]
    exact inStep_pure (fun _ => not_exceeds_leaf rfl)
      ⟨Or.inr (.singleton hget hcontainer hsingleton), by simp [hout]⟩
  simp only [if_neg hsingleton]
  have hnew : Proper r exempt? h := ⟨Bool.eq_false_iff.2 hout, Bool.eq_false_iff.2 hsingleton⟩
  refine (inStep_makeNode (inStep_makeEntries hinside (Ready.withNode hproper hexempt hnew) hnames h
    object) hnew).imp ?_ ?_
  · rintro final _ rfl
    exact exceeds_node_iff hget
  · rintro _ rfl
    exact ⟨Or.inl rfl, by simp [hout]⟩

theorem inStep_saveObject (hbelow : InStepBelow r mask? exempt? limit wide?)
    (hnames : ∀ c, ((r.registry.visibleProperties c).map BoundProperty.name).Nodup) (room : Nat)
    {h : Handle} {object : ScriptObject P} (hget : r.heap.get? h = some object)
    (hcontainer : object.items? = none) (force : Bool)
    (hforce : s.saved.lookup h = none →
      (!force && isTransient object) = leavesOut r exempt? (.object h))
    (hproper : ∀ k, s.has k → Proper r exempt? k)
    (hexempt : ∀ k, exempt? = some k → leavesOut r none (.object k) = true → k = h ∨ s.has k) :
    InStep r exempt? limit (saveObject r mask? wide? path h force)
      (saveObject (r.withLimit limit) mask? (inner? (r.withLimit limit) mask? room) path h force) s
      (fun final image? =>
        Exceeds r mask? exempt? final room path (.object h) (image?.getD .null))
      fun image? => image? = none ↔ leavesOut r exempt? (.object h) = true := by
  rw [saveObject_eq_saveNew, saveObject_eq_saveNew]
  refine inStep_get ?_
  cases hlookup : s.saved.lookup h with
  | some index =>
    -- an object that has been saved is referred to by a stub, which needs no room
    obtain ⟨hstays, hmany⟩ := hproper h (by simp [has, hlookup])
    have haway : ¬ TurnedAway r exempt? path (.object h) := by
      intro haway
      cases haway with
      | transient hout => rw [hstays] at hout; cases hout
      | singleton _ _ hsingleton => rw [hmany] at hsingleton; cases hsingleton
      | cut harray _ => simp [arrayOf?, hget, hcontainer] at harray
    refine (inStep_identifier index).bind (fun id final image? =>
      Exceeds r mask? exempt? final room path (.object h) (image?.getD .null)) fun id s' _ _ => ?_
    refine InStep.imp (inStep_leaf ?_ haway ?_ room) (fun _ _ _ => Iff.rfl)
      fun image? himage => ⟨himage, fun final => by simp⟩
    · rfl
    · simp [hstays]
  | none =>
    -- a new node needs room for itself, with and without the limit
    refine (inStep_roomy (fun room final image? =>
      Exceeds r mask? exempt? final room path (.object h) (image?.getD .null)) (fun wide hwide less =>
        inStep_saveNew (hbelow wide hwide less path) hnames hget hcontainer (hforce hlookup) hproper
          hexempt) (fun final image? hq => exceeds_zero_iff.2 hq.1) room).imp
      (fun _ _ _ => Iff.rfl) fun image? hq => hq.2

/-! ## Saving a value -/

/-- What is neither an object nor an array is not turned away. -/
theorem not_turnedAway {value : Value} (hobject : value.object? = none)
    (harray : arrayOf? r value = none) : ¬ TurnedAway r exempt? path value := by
  intro haway
  cases haway with
  | transient => simp [Value.object?] at hobject
  | singleton => simp [Value.object?] at hobject
  | cut hitems => simp [harray] at hitems

theorem leavesOut_of_dead {h : Handle} (hget : r.heap.get? h = none) :
    leavesOut r exempt? (.object h) = false := by
  simp [leavesOut, hget]

theorem not_turnedAway_of_dead {h : Handle} (hget : r.heap.get? h = none) :
    ¬ TurnedAway r exempt? path (.object h) := by
  intro haway
  cases haway with
  | transient hout => rw [leavesOut_of_dead hget] at hout; cases hout
  | singleton hget' => rw [hget] at hget'; cases hget'
  | cut harray => simp [arrayOf?, hget] at harray

theorem inStep_saveWith (hbelow : InStepBelow r mask? exempt? limit wide?)
    (hnames : ∀ c, ((r.registry.visibleProperties c).map BoundProperty.name).Nodup) (room : Nat)
    (path : List Handle) : InStepInside r mask? exempt? limit room path
      (saveWith r mask? wide? path)
      (saveWith (r.withLimit limit) mask? (inner? (r.withLimit limit) mask? room) path) := by
  intro value s hs
  have harrays : ∀ {origin : Option Handle} {items : List Value},
      arrayOf? r value = some (origin, items) → leavesOut r exempt? value = false →
      InStep r exempt? limit (do return some (← saveArray r wide? path origin items))
        (do return some (← saveArray (r.withLimit limit) (inner? (r.withLimit limit) mask? room)
          path origin items)) s
        (fun final image? => Exceeds r mask? exempt? final room path value (image?.getD .null))
        fun image? => image? = none ↔ leavesOut r exempt? value = true := by
    intro origin items harray hstays
    exact (inStep_saveArray hbelow room hs harray).bind (fun _ _ _ => False) fun entry s' _ _ =>
      inStep_pure (fun _ => id) ⟨by simp [hstays], fun final => by simp⟩
  cases value with
  | undefined => exact inStep_leaf rfl (not_turnedAway rfl rfl) (by simp [leavesOut]) room
  | function f => exact inStep_leaf rfl (not_turnedAway rfl rfl) (by simp [leavesOut]) room
  | array origin items => exact harrays rfl rfl
  | object h =>
    simp only [saveWith]
    have hsame : (r.withLimit limit).heap.get? h = r.heap.get? h := rfl
    rw [hsame]
    cases hget : r.heap.get? h with
    | none =>
      exact inStep_leaf rfl (not_turnedAway_of_dead hget) (by simp [leavesOut_of_dead hget]) room
    | some object =>
      cases hitems : object.items? with
      | none =>
        simp only [hitems]
        refine inStep_saveObject hbelow hnames room hget hitems false (fun hlookup => ?_) hs.proper
          fun k hk hout => Or.inr (hs.exempt k hk hout)
        have hout : leavesOut r none (.object h) = isTransient object := by
          simp [leavesOut, hget, hitems]
        by_cases hexempt : exempt? = some h
        -- the exempt object has its node already, unless it is not transient at all
        · have hstays : isTransient object = false := by
            rw [← hout, Bool.eq_false_iff]
            intro hout
            have hhas := hs.exempt h hexempt hout
            simp [has, hlookup] at hhas
          simp [leavesOut, hexempt, hstays]
        · simp [leavesOut, hexempt, hget, hitems]
      | some items =>
        simp only [hitems]
        have hvalue : arrayOf? r (.object h) = some (some h, items.toList) := by
          simp [arrayOf?, hget, hitems]
        exact harrays hvalue (by simp [leavesOut, hget, hitems])
  | _ => exact inStep_leaf rfl (not_turnedAway rfl rfl) (by simp [leavesOut]) room

end

section

variable {r : Realm P} {mask? : Option (List String)} {exempt? : Option Handle} {limit : Nat}

theorem save_eq_saveWith (r : Realm P) (mask? : Option (List String)) (room : Nat) :
    save r mask? room = saveWith r mask? (inner? r mask? room) := by
  cases room <;> rfl

/-- With little room and with plenty of it the same steps are taken, up to the first value that
needs room when none is left. -/
theorem inStep_save (hnames : ∀ c, ((r.registry.visibleProperties c).map BoundProperty.name).Nodup)
    (plenty room : Nat) (path : List Handle) :
    InStepInside r mask? exempt? limit room path (save r mask? plenty path)
      (save (r.withLimit limit) mask? room path) := by
  rw [save_eq_saveWith (r.withLimit limit)]
  induction plenty generalizing room path with
  | zero => exact inStep_saveWith (fun _ hnone => by cases hnone) hnames room path
  | succ plenty ih =>
    refine inStep_saveWith (fun wide hwide less path => ?_) hnames room path
    obtain rfl := Option.some.inj hwide
    rw [save_eq_saveWith (r.withLimit limit)]
    exact ih less path

theorem inStepBelow_inner?
    (hnames : ∀ c, ((r.registry.visibleProperties c).map BoundProperty.name).Nodup) (plenty : Nat) :
    InStepBelow r mask? exempt? limit (inner? r mask? plenty) := by
  intro wide hwide room path
  cases plenty with
  | zero => cases hwide
  | succ plenty =>
    obtain rfl := Option.some.inj hwide
    exact inStep_save hnames plenty room path

/-- The object that is saved even if it is transient. -/
def exemptFrom? (force : Bool) (value : Value) : Option Handle := value.object?.filter fun _ => force

theorem eq_of_exemptFrom? {force : Bool} {value : Value} {h : Handle}
    (hexempt : exemptFrom? force value = some h) : value = .object h := by
  have hobject := (Option.filter_eq_some_iff.1 hexempt).1
  cases value <;> simp_all [Value.object?]

/-- A dead object needs room where a graph starts, and only there. -/
def LostAt (r : Realm P) (value : Value) (depth : Nat) : Prop :=
  depth = 0 ∧ ∃ h, value = .object h ∧ r.heap.get? h = none

theorem inStep_saveRoot (mask? : Option (List String))
    (hnames : ∀ c, ((r.registry.visibleProperties c).map BoundProperty.name).Nodup) (force : Bool)
    (value : Value) :
    InStep r (exemptFrom? force value) limit (saveRoot r mask? force value)
      (saveRoot (r.withLimit limit) mask? force value) ⟨#[], [], 0⟩
      (fun final image? =>
        Exceeds r mask? (exemptFrom? force value) final limit [] value (image?.getD .null) ∨
          LostAt r value limit)
      fun _ => True := by
  have hnobody : ∀ k, ¬ (⟨#[], [], 0⟩ : Saving).has k := fun k hk => by cases hk
  unfold saveRoot
  have hsame : (value.object?.filter fun h =>
      (((r.withLimit limit).heap.get? h).bind ScriptObject.items?).isNone) =
        value.object?.filter fun h => ((r.heap.get? h).bind ScriptObject.items?).isNone := rfl
  rw [hsame]
  cases hroot : value.object?.filter fun h => ((r.heap.get? h).bind ScriptObject.items?).isNone with
  | none =>
    -- nothing is exempt here, and nothing is lost: an object that is met is an array
    have hitems : ∀ k, value = .object k → ((r.heap.get? k).bind ScriptObject.items?).isSome := by
      rintro k rfl
      simpa [Value.object?, Option.filter_eq_none_iff, Option.isNone_iff_eq_none,
        Option.isSome_iff_ne_none] using hroot
    have hready : Ready r (exemptFrom? force value) ⟨#[], [], 0⟩ := by
      refine ⟨fun k hk => absurd hk (hnobody k), fun k hk hout => ?_⟩
      have harray := hitems k (eq_of_exemptFrom? hk)
      cases hget : r.heap.get? k with
      | none => simp [hget] at harray
      | some object =>
        simp only [hget, Option.bind_some] at harray
        simp [leavesOut, hget, Option.isSome_iff_ne_none.1 harray] at hout
    refine (inStep_save hnames r.options.depthLimit limit [] value _ hready).imp (fun final _ _ => ?_)
      fun _ _ => trivial
    refine or_iff_left ?_
    rintro ⟨-, k, hk, hdead⟩
    simpa [hdead] using hitems k hk
  | some h =>
    obtain ⟨hobject, hnone⟩ := Option.filter_eq_some_iff.1 hroot
    obtain rfl : value = .object h := by
      cases value <;> simp_all [Value.object?]
    dsimp only
    cases hget : r.heap.get? h with
    | none =>
      rw [saveObject_eq_saveNew, saveObject_eq_saveNew]
      refine inStep_get (inStep_roomy (fun room final (image? : Option Entry) =>
        Exceeds r mask? (exemptFrom? force (.object h)) final room [] (.object h)
          (image?.getD .null) ∨ LostAt r (.object h) room) (fun wide _ less => ?_)
        (fun _ _ _ => Or.inr ⟨rfl, h, rfl, hget⟩) limit)
      have hget' : (r.withLimit limit).heap.get? h = none := hget
      simp only [saveNew, hget, hget']
      refine inStep_pure (fun final => ?_) trivial
      rintro (hexceeds | ⟨hzero, -⟩)
      · exact not_exceeds_leaf rfl hexceeds
      · cases hzero
    | some object =>
      have hitems : object.items? = none := by simpa [hget] using hnone
      refine (inStep_saveObject (inStepBelow_inner? hnames r.options.depthLimit) hnames limit hget
        hitems force (fun _ => ?_) (fun k hk => absurd hk (hnobody k)) fun k hk _ => ?_).imp
        (fun final _ _ => ?_) fun _ _ => trivial
      · cases force <;> simp [leavesOut, exemptFrom?, Value.object?, hget, hitems]
      · exact Or.inl (Value.object.inj (eq_of_exemptFrom? hk)).symm
      · refine or_iff_left ?_
        rintro ⟨-, k, hk, hdead⟩
        cases hk
        rw [hget] at hdead
        cases hdead

/-- What stands for a member is among the entries, or null stands for it. -/
theorem entryOf_cases (entries : Table Entry) (member : String × Value) :
    entryOf r exempt? entries member = .null ∨
      entryOf r exempt? entries member ∈ entries.values := by
  unfold entryOf
  split
  · exact Or.inl rfl
  · cases hfind : entries.find? member.1 with
    | none => exact Or.inl rfl
    | some entry => exact Or.inr (List.mem_map_of_mem (Table.find?_eq_some_iff.1 hfind))

/-- From null one comes to nothing else. -/
theorem ComesTo.eq_null {nodes : Array Snapshot.Node} {path path' : List Handle}
    {value value' : Value} {entry' : Entry} {n : Nat}
    (h : ComesTo r mask? exempt? nodes path value .null n path' value' entry') : entry' = .null := by
  cases h
  rfl

/-- What one comes to in the graph, one comes to in the snapshot, if it is more than a leaf. -/
theorem ComesTo.holds {nodes : Array Snapshot.Node} {path path' : List Handle}
    {value value' : Value} {entry entry' : Entry} {n : Nat}
    (h : ComesTo r mask? exempt? nodes path value entry n path' value' entry')
    (hentry : entry'.isLeaf = false) : Holds nodes entry n entry' := by
  induction h with
  | here => exact .here
  | item _ _ hitem _ ih => exact .item (List.mem_of_getElem? hitem) (ih hentry)
  | @member path path' h object index node member value' entry' n _ hnode _ _ hcomes ih =>
    rcases entryOf_cases node.entries member with hnull | hmem
    · rw [hnull] at hcomes
      rw [hcomes.eq_null] at hentry
      simp [Entry.isLeaf] at hentry
    · exact .member hnode hmem (ih hentry)

/-- The limit of a realm has no part in what one comes to. -/
theorem ComesTo.withLimit {nodes : Array Snapshot.Node} {path path' : List Handle}
    {value value' : Value} {entry entry' : Entry} {n : Nat}
    (h : ComesTo r mask? exempt? nodes path value entry n path' value' entry') (limit : Nat) :
    ComesTo (r.withLimit limit) mask? exempt? nodes path value entry n path' value' entry' := by
  induction h with
  | here => exact .here
  | item harray hitem hentry _ ih => exact .item harray hitem hentry ih
  | member hget hnode hmember hown _ ih => exact .member hget hnode hmember hown ih

theorem TurnedAway.withLimit {path : List Handle} {value : Value}
    (h : TurnedAway r exempt? path value) (limit : Nat) :
    TurnedAway (r.withLimit limit) exempt? path value := by
  cases h with
  | transient hout => exact .transient hout
  | singleton hget hitems hsingleton => exact .singleton hget hitems hsingleton
  | cut harray hmem => exact .cut harray hmem

end

end Saving

namespace Realm

open Saving

variable {P : Platform}

/-- Behind so many containers one comes to a value that is turned away. -/
def TurnsAwayAt (r : Realm P) (mask? : Option (List String)) (force : Bool) (value : Value)
    (s : Snapshot) (depth : Nat) : Prop :=
  (∃ path value' entry, ComesTo r mask? (exemptFrom? force value) s.nodes [] value s.root depth path
    value' entry ∧ TurnedAway r (exemptFrom? force value) path value') ∨ LostAt r value depth

theorem TurnsAwayAt.withLimit {r : Realm P} {mask? : Option (List String)} {force : Bool}
    {value : Value} {s : Snapshot} {depth : Nat} (h : r.TurnsAwayAt mask? force value s depth)
    (limit : Nat) : (r.withLimit limit).TurnsAwayAt mask? force value s depth := by
  rcases h with ⟨path, value', entry, hcomes, haway⟩ | hlost
  · exact Or.inl ⟨path, value', entry, hcomes.withLimit limit, haway.withLimit limit⟩
  · exact Or.inr hlost

/-- With another limit saving fails for lack of room, or it makes the same snapshot. It fails when
the limit is used up by the time that one comes to a node, an array or a value that is turned away. -/
theorem save_withLimit_cases {r : Realm P}
    (hnames : ∀ c, ((r.registry.visibleProperties c).map BoundProperty.name).Nodup) {value : Value}
    {force : Bool} {mask? : Option (List String)} {s : Snapshot}
    (hsave : r.save value force mask? = .ok s) (limit : Nat) :
    (r.withLimit limit).save value force mask? = .error (.depthExceeded limit) ∧
        (s.NestsTo limit ∨ r.TurnsAwayAt mask? force value s limit) ∨
      (r.withLimit limit).save value force mask? = .ok s ∧
        ¬ r.TurnsAwayAt mask? force value s limit := by
  unfold save at hsave ⊢
  cases hwide : (saveRoot r mask? force value).run ⟨#[], [], 0⟩ with
  | error error =>
    rw [hwide] at hsave
    cases hsave
  | ok outcome =>
    obtain ⟨image?, s'⟩ := outcome
    rw [hwide] at hsave
    obtain rfl := Except.ok.inj hsave
    have hsettled : Settled 0 s'.nodes s'.nodes := fun i node _ hnode => ⟨node, hnode, rfl⟩
    have hstep : InStep r _ limit _ _ _ _ _ := inStep_saveRoot mask? hnames force value
    obtain ⟨-, -, hneeds⟩ := hstep image? s' hwide
    obtain ⟨hfail, hok⟩ := hneeds s'.nodes hsettled
    by_cases hany : Exceeds r mask? (exemptFrom? force value) s'.nodes limit [] value
        ( image?.getD .null) ∨ LostAt r value limit
    · refine Or.inl ⟨by rw [hfail hany]; rfl, ?_⟩
      rcases hany with ⟨path, value', entry, hcomes, hleaf | haway⟩ | hlost
      · exact Or.inl ⟨limit, entry, Nat.le_refl _, hcomes.holds hleaf, hleaf⟩
      · exact Or.inr (Or.inl ⟨path, value', entry, hcomes, haway⟩)
      · exact Or.inr (Or.inr hlost)
    · refine Or.inr ⟨by rw [hok hany]; rfl, ?_⟩
      rintro (⟨path, value', entry, hcomes, haway⟩ | hlost)
      · exact hany (Or.inl ⟨path, value', entry, hcomes, Or.inr haway⟩)
      · exact hany (Or.inr hlost)

/-- Saving with a limit fails if and only if a node or an array of the snapshot that would be made
without a limit lies behind so many others, or a value that is turned away does; otherwise it makes
that snapshot. -/
theorem Reachable.save_withLimit {r : Realm P} (hr : r.Reachable) {value : Value} {force : Bool}
    {mask? : Option (List String)} {plenty : Nat} {s : Snapshot}
    (hsave : (r.withLimit plenty).save value force mask? = .ok s) (limit : Nat) :
    (s.NestsTo limit ∨ r.TurnsAwayAt mask? force value s limit →
      (r.withLimit limit).save value force mask? = .error (.depthExceeded limit)) ∧
    (¬ s.NestsTo limit → ¬ r.TurnsAwayAt mask? force value s limit →
      (r.withLimit limit).save value force mask? = .ok s) := by
  have hnames : ∀ c, (((r.withLimit plenty).registry.visibleProperties c).map
      BoundProperty.name).Nodup := hr.sound.registry.nodup_visibleProperties
  have hsame : (r.withLimit plenty).withLimit limit = r.withLimit limit := rfl
  have haway : (r.withLimit plenty).TurnsAwayAt mask? force value s limit ↔
      r.TurnsAwayAt mask? force value s limit :=
    ⟨fun h => h.withLimit r.options.depthLimit, fun h => h.withLimit plenty⟩
  have hcases := save_withLimit_cases hnames hsave limit
  rw [hsame, haway] at hcases
  -- a snapshot that has been made with the limit nests less than that
  have hfits : (r.withLimit limit).save value force mask? = .ok s → ¬ s.NestsTo limit := by
    rintro hsaved ⟨n, entry, hdeep, hholds, hentry⟩
    have hnames' : ∀ c, (((r.withLimit limit).registry.visibleProperties c).map
        BoundProperty.name).Nodup := hnames
    obtain ⟨horderly, -⟩ := shows_of_save hnames' hsaved
    exact Nat.not_lt.2 hdeep (horderly.preorder.lt_room List.mem_cons_self hholds hentry)
  rcases hcases with ⟨hfails, hwhy⟩ | ⟨hsaves, hnone⟩
  · exact ⟨fun _ => hfails, fun hnest haway => absurd hwhy (not_or.2 ⟨hnest, haway⟩)⟩
  · exact ⟨fun hwhy => absurd hwhy (not_or.2 ⟨hfits hsaves, hnone⟩), fun _ _ => hsaves⟩

/-- A realm with an object that refers to a transient one. -/
def ofShy : Realm Scenario.platform :=
  let (owner, r) := (ofRegistry .builtins .standard Scenario.Stage.empty).newObject
  let (shy, r) := r.newObject
  let r := after (putProperty shy Snapshot.transientField (.bool true) false) r
  after (putProperty owner "shy" (.object shy) false) r

theorem reachable_ofShy : ofShy.Reachable := by
  have hsteps : Steps (ofRegistry .builtins .standard Scenario.Stage.empty) ofShy :=
    .tail (.tail (.tail (.single (.newObject _)) (.newObject _))
      (.putProperty ⟨2, 0⟩ Snapshot.transientField (.bool true) false _))
      (.putProperty ⟨1, 0⟩ "shy" (.object ⟨2, 0⟩) false _)
  have hcapacity : ofShy.heap.capacity = 3 := by cbv
  exact ⟨.builtins, .standard, Scenario.Stage.empty, .builtins, hsteps, by rw [hcapacity]; decide⟩

theorem save_ofShy : (ofShy.withLimit 100).save (.object ⟨1, 0⟩) false none =
    .ok ⟨#[Snapshot.Node.empty], .node 0⟩ := by cbv

theorem not_nestsTo_empty : ¬ Snapshot.NestsTo ⟨#[Snapshot.Node.empty], .node 0⟩ 1 := by
  rintro ⟨n, entry, hdeep, hholds, -⟩
  cases hholds with
  | here => simp at hdeep
  | member hnode hmember =>
    obtain rfl := Option.some.inj hnode
    simp [Snapshot.Node.empty, Table.values, Table.empty] at hmember

theorem members_ofShy :
    members ofShy none (exemptFrom? false (.object ⟨1, 0⟩)) ⟨1, 0⟩
      ⟨.plain, ⟨[("shy", .object ⟨2, 0⟩)], by decide⟩⟩ = [("shy", .object ⟨2, 0⟩)] := by cbv

theorem get?_ofShy : ofShy.heap.get? ⟨1, 0⟩ =
    some ⟨.plain, ⟨[("shy", .object ⟨2, 0⟩)], by decide⟩⟩ := by cbv

/-- A transient object is met behind the only container that there is room for. -/
theorem turnsAwayAt_ofShy :
    ofShy.TurnsAwayAt none false (.object ⟨1, 0⟩) ⟨#[Snapshot.Node.empty], .node 0⟩ 1 := by
  have hmember : ("shy", Value.object ⟨2, 0⟩) ∈ members ofShy none
      (exemptFrom? false (.object ⟨1, 0⟩)) ⟨1, 0⟩
      ⟨.plain, ⟨[("shy", .object ⟨2, 0⟩)], by decide⟩⟩ := by
    rw [members_ofShy]
    exact List.mem_cons_self
  exact Or.inl ⟨[], .object ⟨2, 0⟩, _, .member get?_ofShy rfl hmember rfl .here,
    .transient (by cbv)⟩

/-- With room for one container there is room for the snapshot of `ofShy`, but not for the transient
object that does not get into it. -/
theorem save_withLimit_ofShy :
    ofShy.Reachable ∧
    (ofShy.withLimit 100).save (.object ⟨1, 0⟩) false none =
      .ok ⟨#[Snapshot.Node.empty], .node 0⟩ ∧
    (ofShy.withLimit 1).save (.object ⟨1, 0⟩) false none = .error (.depthExceeded 1) ∧
    (ofShy.withLimit 2).save (.object ⟨1, 0⟩) false none =
      .ok ⟨#[Snapshot.Node.empty], .node 0⟩ := by
  refine ⟨reachable_ofShy, save_ofShy, ?_, ?_⟩
  · exact (reachable_ofShy.save_withLimit save_ofShy 1).1 (Or.inr turnsAwayAt_ofShy)
  · refine (reachable_ofShy.save_withLimit save_ofShy 2).2 (fun hnest => ?_) ?_
    · exact not_nestsTo_empty (hnest.mono (by decide))
    · rintro (⟨path, value', entry, hcomes, -⟩ | ⟨hzero, -⟩)
      · cases hcomes with
        | member hget hnode hmember hown hcomes =>
          rw [get?_ofShy] at hget
          obtain rfl := Option.some.inj hget
          rw [members_ofShy, List.mem_singleton] at hmember
          have hout : leavesOut ofShy (exemptFrom? false (.object ⟨1, 0⟩)) (.object ⟨2, 0⟩) =
            true := by cbv
          rw [hmember, entryOf, if_pos hout] at hcomes
          exact not_comesTo_of_isLeaf rfl hcomes
      · simp at hzero

/-- A limit that no container of a snapshot reaches may keep it from being made. -/
theorem limit_hit_by_transient :
    ∃ s : Snapshot, (ofShy.withLimit 100).save (.object ⟨1, 0⟩) false none = .ok s ∧
      ¬ s.NestsTo 1 ∧
      (ofShy.withLimit 1).save (.object ⟨1, 0⟩) false none = .error (.depthExceeded 1) :=
  ⟨_, save_ofShy, not_nestsTo_empty, by cbv⟩

end Realm

end ScriptBridge
