import ScriptBridge.Proofs.Realm.Calls
import ScriptBridge.Proofs.Snapshot.Reading

/-!
# What Loading Builds

A snapshot without classes is loaded as a graph of new objects: one plain object for each node, one
array for each array of items, and in the place of each stub the object of the node that carries its
identifier, wherever that node stands.

Main statement: `Host.load_rebuilds`.
-/

namespace ScriptBridge

namespace Loading

open Snapshot (Entry Node Visits idAt? fieldName functionOf? costOf)

variable {P : Platform}

section

variable {snapshot : Snapshot} {old : Realm P} {todo : Place → Prop} {L : Ledger} {s : Loading P}

/-! ## The last steps of a load -/

/-- The places of stubs whose nodes have not been met. -/
def Unresolved (L : Ledger) (s : Loading P) (p : Place) : Prop :=
  ∃ id, L.late? p = some id ∧ s.built.lookup id = none

/-- Serves the places that wait for one node. -/
def settleEntry (waiting : String × List Place) : LoadingM P Unit := do
  match (← get).built.lookup waiting.1 with
  | some target => waiting.2.forM (settle target)
  | none => if ← isStrict then throw (.unresolvedStub waiting.1)

/-- What is left to be served when only some of the waiting places have been. -/
def Left (L : Ledger) (s : Loading P) (rest : List (String × List Place)) (p : Place) : Prop :=
  (∃ id places, (id, places) ∈ rest ∧ p ∈ places) ∨ Unresolved L s p

/-- Once the node is there, all places that wait for it are served; otherwise they stay as they are. -/
theorem runs_settleEntry {id : String} {places : List Place} {rest : List (String × List Place)}
    {t : Loading P} (ht : Consistent snapshot old L (Left L s ((id, places) :: rest)) t)
    (hbuilt : t.built = s.built) (hplaces : ∀ p ∈ places, L.late? p = some id)
    (hstrict : old.options.strictness = .strict → ∃ h, s.built.lookup id = some h) :
    ∃ t', Runs (settleEntry (id, places)) t () t' ∧ Consistent snapshot old L (Left L s rest) t' ∧
      Settled L t t' := by
  have hcases : ∀ p, Left L s ((id, places) :: rest) p → p ∈ places ∨ Left L s rest p := by
    rintro p (⟨id', places', hmem, hp⟩ | hp)
    · rcases List.mem_cons.1 hmem with heq | hmem
      · rw [Prod.mk.injEq] at heq
        exact Or.inl (heq.2 ▸ hp)
      · exact Or.inr (Or.inl ⟨id', places', hmem, hp⟩)
    · exact Or.inr (Or.inr hp)
  cases hfound : t.built.lookup id with
  | some target =>
    obtain ⟨t', hrun, ht', hsettled⟩ :=
      runs_settle_places (Left L s rest) places ht hfound hplaces hcases
    refine ⟨t', runs_get.bind ?_, ht', hsettled⟩
    rw [hfound]
    exact hrun
  | none =>
    have hfound' : s.built.lookup id = none := hbuilt ▸ hfound
    -- in strict mode the node would be there
    have hlenient : old.options.strictness ≠ .strict := by
      intro h
      obtain ⟨k, hk⟩ := hstrict h
      rw [hfound'] at hk
      simp at hk
    refine ⟨t, runs_get.bind ?_, { ht with waits := fun p id' hp => ?_ }, Settled.refl L t⟩
    · rw [hfound]
      refine (runs_ask _).bind ?_
      rw [if_neg (by simpa [ht.options] using hlenient)]
      exact runs_pure ()
    -- a place whose node is not there holds null for good
    · rcases ht.waits p id' hp with ⟨hwait | hleft, hnull⟩ | hobject
      · exact Or.inl ⟨Or.inl hwait, hnull⟩
      · refine Or.inl ⟨Or.inr ((hcases p hleft).elim (fun hmem => ?_) fun hleft => hleft), hnull⟩
        exact Or.inr ⟨id, hplaces p hmem, hfound'⟩
      · exact Or.inr hobject

/-- Places wait for the nodes of their stubs. -/
theorem Consistent.late?_of_entry (hs : Consistent snapshot old L todo s) {id : String}
    {places : List Place} (hentry : (id, places) ∈ s.waiting.entries) :
    ∀ p ∈ places, L.late? p = some id := by
  intro p hp
  apply hs.waiting id p
  rw [waitingFor, Table.find?_eq_some_iff.2 hentry, Option.getD_some]
  exact hp

/-- Before the places that wait are served one after the other. -/
theorem Consistent.settling (hs : Consistent snapshot old L (fun _ => False) s) :
    Consistent snapshot old L (Left L s s.waiting.entries) { s with waiting := .empty } := by
  refine { hs with
    waits := fun p id hp => ?_
    waiting := fun id p hp => by simp [waitingFor] at hp
    awaited := fun id places hfind => by simp at hfind }
  rcases hs.waits p id hp with ⟨hwait | hfalse, hnull⟩ | hobject
  · refine Or.inl ⟨Or.inr (Or.inl ?_), hnull⟩
    unfold waitingFor at hwait
    cases hfind : s.waiting.find? id with
    | none => simp [hfind] at hwait
    | some places =>
      rw [hfind, Option.getD_some] at hwait
      exact ⟨id, places, Table.find?_eq_some_iff.1 hfind, hwait⟩
  · exact hfalse.elim
  · exact Or.inr hobject

/-- All places that still wait are served. -/
theorem runs_settleAll (hs : Consistent snapshot old L (fun _ => False) s)
    (hstrict : old.options.strictness = .strict →
      ∀ p id, L.late? p = some id → ∃ h, s.built.lookup id = some h) :
    ∃ s', Runs settleAll s () s' ∧ Consistent snapshot old L (Unresolved L s) s' ∧
      Settled L { s with waiting := .empty } s' := by
  let I : List (String × List Place) → Loading P → Prop := fun rest t =>
    (∀ entry ∈ rest, entry ∈ s.waiting.entries) ∧ Consistent snapshot old L (Left L s rest) t ∧
      Settled L { s with waiting := .empty } t
  have hstep : ∀ entry rest t, I (entry :: rest) t →
      ∃ t', Runs (settleEntry entry) t () t' ∧ I rest t' := by
    rintro ⟨id, places⟩ rest t ⟨hmem, ht, hsettled⟩
    have hentry := hmem _ List.mem_cons_self
    have hplaces := hs.late?_of_entry hentry
    obtain ⟨t', hrun, ht', hsettled'⟩ := runs_settleEntry ht hsettled.alike.built hplaces (by
      intro h
      obtain ⟨p, hp⟩ := List.exists_mem_of_ne_nil places
        (hs.awaited id places (Table.find?_eq_some_iff.2 hentry))
      exact hstrict h p id (hplaces p hp))
    exact ⟨t', hrun, fun entry h => hmem entry (List.mem_cons_of_mem _ h), ht',
      hsettled.trans hsettled'⟩
  obtain ⟨s', hrun, -, hs', hsettled⟩ :=
    runs_forM hstep ⟨fun entry hentry => hentry, hs.settling, Settled.refl L _⟩
  refine ⟨s', runs_get.bind ((runs_modify _).bind hrun), { hs' with waits := fun p id hp => ?_ },
    hsettled⟩
  rcases hs'.waits p id hp with ⟨hwait | hleft, hnull⟩ | hobject
  · exact Or.inl ⟨Or.inl hwait, hnull⟩
  · exact Or.inl ⟨Or.inr (hleft.resolve_left (by simp)), hnull⟩
  · exact Or.inr hobject

/-- What has been noted is written again, which changes nothing. -/
theorem runs_renewAll (hs : Consistent snapshot old L todo s) :
    ∃ s', Runs renewAll s () s' ∧ Consistent snapshot old L todo s' ∧
      Settled L { s with renewals := [] } s' ∧ ∀ p, s'.heap.at? p = s.heap.at? p := by
  have hstart : Consistent snapshot old L todo { s with renewals := [] } :=
    { hs with renewals := fun owner name array hmem => by simp at hmem }
  let I : List (Handle × String × Handle) → Loading P → Prop := fun rest t =>
    (∀ renewal ∈ rest, renewal ∈ s.renewals) ∧ Consistent snapshot old L todo t ∧
      Settled L { s with renewals := [] } t ∧ ∀ p, t.heap.at? p = s.heap.at? p
  have hstep : ∀ renewal rest t, I (renewal :: rest) t →
      ∃ t', Runs (write renewal.1 renewal.2.1 (.object renewal.2.2)) t () t' ∧ I rest t' := by
    rintro ⟨owner, name, array⟩ rest t ⟨hmem, ht, hsettled, hat⟩
    obtain ⟨hnew, hkind, hlate, hhere⟩ := hs.renewals owner name array (hmem _ List.mem_cons_self)
    have hp : t.heap.Writable (.property owner name) := (hsettled.kinds owner).trans hkind
    rw [← hat] at hhere
    refine ⟨_, runs_write hp name rfl,
      fun renewal hrenewal => hmem renewal (List.mem_cons_of_mem _ hrenewal),
      ht.repeat hp hnew hlate hhere, ?_, fun q => ?_⟩
    · exact hsettled.trans (settled_put hp (fun _ => hhere) fun a ha _ => hhere)
    · rw [heap_put, Heap.at?_put_same hp hhere, hat]
  obtain ⟨s', hrun, -, hs', hsettled, hat⟩ := runs_forM hstep
    ⟨fun renewal hrenewal => hrenewal, hstart, Settled.refl L _, fun _ => rfl⟩
  exact ⟨s', runs_get.bind ((runs_modify _).bind hrun), hs', hsettled, hat⟩

/-- Where there are no instances to be awakened, awakening changes nothing. -/
theorem runs_awaken (host : Host P) (hs : s.sleepers = []) :
    Runs (awaken host) s () { s with sleepers := [] } := by
  refine runs_get.bind ((runs_modify _).bind ?_)
  rw [hs]
  exact runs_pure ()

/-- Before anything has been read. -/
theorem consistent_start (snapshot : Snapshot) {r : Realm P} (hr : r.heap.WellFormed) :
    Consistent snapshot r .empty (fun _ => False) ⟨r, [], .empty, 0, [], [], []⟩ := by
  constructor
  case wellFormed => exact hr
  case options => rfl
  case kept => exact fun h object hget => hget
  case object => exact fun i h hi => by simp [Ledger.empty] at hi
  case distinct => exact fun i j h hi => by simp [Ledger.empty] at hi
  case built => exact fun id h => by simp [Ledger.empty]
  case late => exact fun p id hp => by simp [Ledger.empty] at hp
  case named => exact fun p id hp => by simp [Ledger.empty] at hp
  case waits => exact fun p id hp => by simp [Ledger.empty] at hp
  case waiting => exact fun id p hp => by simp [waitingFor] at hp
  case awaited => exact fun id places hfind => by simp at hfind
  case renewals => exact fun owner name array hmem => by simp at hmem
  case sleepers => rfl
  case valid =>
    intro p h hnew hat
    have hlive : r.heap.contains p.owner = true := Heap.contains_of_at? hat
    rw [hlive] at hnew
    exact Bool.noConfusion hnew
  case unshared =>
    intro p q a hnew _ _ hat
    have hlive : r.heap.contains p.owner = true := Heap.contains_of_at? hat
    rw [hlive] at hnew
    exact Bool.noConfusion hnew

end

/-! ## What is there in the end -/

section

variable (snapshot : Snapshot) (old new : Heap P) (object? : Nat → Option Handle)

/-- A value stands for an entry, when the objects of the nodes are known. Arrays are new. -/
inductive Stands : Value → Entry → Prop
  | leaf {entry : Entry} {v : Value} : leafValue? entry = some v → Stands v entry
  | node {i : Nat} {h : Handle} : object? i = some h → Stands (.object h) (.node i)
  | stub {i : Nat} {h : Handle} {id : String} :
      idAt? snapshot.nodes i = some id → object? i = some h → Stands (.object h) (.stub id)
  | missing {id : String} :
      (∀ i, idAt? snapshot.nodes i = some id → object? i = none) → Stands .null (.stub id)
  | array {a : Handle} {slots : Array Value} {items : List Entry} :
      old.contains a = false → new.get? a = some ⟨.array slots, .empty⟩ →
      slots.size = items.length →
      (∀ (i : Nat) v item, slots[i]? = some v → items[i]? = some item → Stands v item) →
      Stands (.object a) (.array items)

/-- An entry of a node has come into the field that it is about. -/
structure Carried (fields : Table Value) (entry : String × Entry) : Prop where
  function : ∀ name source, functionOf? entry = some (name, source) →
    ∃ f rest, fields.find? name = some (.function f) ∧
      new.get? f = some ⟨.function ⟨name, .script source⟩, rest⟩
  value : functionOf? entry = none → ∃ v, fields.find? entry.1 = some v ∧
    Stands snapshot old new object? v entry.2

/-- The nodes at some positions have been built: a new plain object for each of them, with the fields
that its entries ask for. Nothing that was there before has changed. -/
structure Rebuilt (met : List Nat) : Prop where
  kept : ∀ h object, old.get? h = some object → new.get? h = some object
  built : ∀ i ∈ met, ∃ h node fields, snapshot.nodes[i]? = some node ∧ object? i = some h ∧
    old.contains h = false ∧ new.get? h = some ⟨.plain, fields⟩ ∧
    fields.keys.Perm (node.entries.entries.map fieldName) ∧
    ∀ entry ∈ node.entries.entries, Carried snapshot old new object? fields entry
  /-- No other node has an object. -/
  only : ∀ i h, object? i = some h → i ∈ met
  distinct : ∀ i j h, object? i = some h → object? j = some h → i = j
  /-- No array is in two new places. -/
  unshared : ∀ p q a, old.contains p.owner = false → old.contains q.owner = false →
    new.kind? a = some (.array #[]) → new.at? p = some (.object a) → new.at? q = some (.object a) →
    p = q

end

section

variable {snapshot : Snapshot} {old new : Heap P} {L : Ledger} {fresh : Handle → Prop}
  {v? : Option Value} {id? : Option String} {entry : Entry}

/-- An array of which every item is known. -/
theorem get?_of_items {a : Handle} {n : Nat} (hkind : new.kind? a = some (.array #[]))
    (hfields : ∀ name, new.at? (.property a name) = none)
    (hend : ∀ i, n ≤ i → new.at? (.item a i) = none)
    (hitems : ∀ i, i < n → ∃ v, new.at? (.item a i) = some v) :
    ∃ slots, new.get? a = some ⟨.array slots, .empty⟩ ∧ slots.size = n ∧
      ∀ i, slots[i]? = new.at? (.item a i) := by
  obtain ⟨slots, fields, hget⟩ := Heap.get?_of_kind?_array hkind
  have hat : ∀ i, new.at? (.item a i) = slots[i]? := fun i => by
    simp [Heap.at?, Place.owner, hget, ScriptObject.at?, ScriptObject.items?]
  have hempty : fields = .empty := Table.eq_empty_of_find? fun name => by
    have hname := hfields name
    simpa [Heap.at?, Place.owner, hget, ScriptObject.at?] using hname
  refine ⟨slots, by rw [hget, hempty], ?_, fun i => (hat i).symm⟩
  apply Nat.le_antisymm
  · have hnone := hend n (Nat.le_refl n)
    rw [hat, Array.getElem?_eq_none_iff] at hnone
    exact hnone
  · by_contra hlt
    obtain ⟨v, hv⟩ := hitems slots.size (Nat.lt_of_not_le hlt)
    rw [hat] at hv
    simp at hv

/-- When every late place holds what its stub stands for, so does everything else. -/
theorem Holds.stands (h : Holds fresh new L v? id? entry)
    (hfresh : ∀ a, fresh a → old.contains a = false)
    (hlate : ∀ p id, L.late? p = some id →
      ∃ v, new.at? p = some v ∧ Stands snapshot old new L.object? v (.stub id))
    (hv : ∀ id, id? = some id →
      ∃ v, v? = some v ∧ Stands snapshot old new L.object? v (.stub id)) :
    ∃ v, v? = some v ∧ Stands snapshot old new L.object? v entry := by
  induction h with
  | stub => exact hv _ rfl
  | leaf hleaf => exact ⟨_, rfl, .leaf hleaf⟩
  | node hi => exact ⟨_, rfl, .node hi⟩
  | @array a items ha hkind hfields hend _ ih =>
    have hitems : ∀ i item, items[i]? = some item → ∃ v, new.at? (.item a i) = some v ∧
        Stands snapshot old new L.object? v item :=
      fun i item hitem => ih i item hitem fun id hid => hlate _ id hid
    obtain ⟨slots, hget, hsize, hslots⟩ := get?_of_items hkind hfields hend (by
      intro i hi
      obtain ⟨v, hat, -⟩ := hitems i items[i] (List.getElem?_eq_getElem hi)
      exact ⟨v, hat⟩)
    refine ⟨_, rfl, .array (hfresh a ha) hget hsize ?_⟩
    intro i v item hslot hitem
    obtain ⟨w, hat, hstands⟩ := hitems i item hitem
    rw [← hslots, hslot] at hat
    exact Option.some.inj hat ▸ hstands

theorem Restored.carried {h : Handle} {fields : Table Value} {entry : String × Entry}
    (hr : Restored fresh new L h entry) (hget : new.get? h = some ⟨.plain, fields⟩)
    (hfresh : ∀ a, fresh a → old.contains a = false)
    (hlate : ∀ p id, L.late? p = some id →
      ∃ v, new.at? p = some v ∧ Stands snapshot old new L.object? v (.stub id)) :
    Carried snapshot old new L.object? fields entry := by
  have hat : ∀ name, new.at? (.property h name) = fields.find? name := fun name => by
    simp [Heap.at?, Place.owner, hget, ScriptObject.at?]
  constructor
  case function =>
    intro name source hfunction
    obtain ⟨-, f, hf, hkind⟩ := hr.function name source hfunction
    obtain ⟨rest, hrest⟩ := Heap.get?_of_kind?_function hkind
    exact ⟨f, rest, by rw [← hat, hf], hrest⟩
  case value =>
    intro hfunction
    rw [← hat]
    exact (hr.value hfunction).stands hfresh hlate fun id hid => hlate _ id hid

/-- The object of a node that has been filled. -/
theorem Complete.rebuilt {h : Handle} {entries : List (String × Entry)}
    (hc : Complete fresh new L h entries) (hnames : (entries.map fieldName).Nodup)
    (hfresh : ∀ a, fresh a → old.contains a = false)
    (hlate : ∀ p id, L.late? p = some id →
      ∃ v, new.at? p = some v ∧ Stands snapshot old new L.object? v (.stub id)) :
    ∃ fields, new.get? h = some ⟨.plain, fields⟩ ∧ fields.keys.Perm (entries.map fieldName) ∧
      ∀ entry ∈ entries, Carried snapshot old new L.object? fields entry := by
  obtain ⟨fields, hget⟩ := Heap.get?_of_kind?_plain hc.plain
  have hat : ∀ name, new.at? (.property h name) = fields.find? name := fun name => by
    simp [Heap.at?, Place.owner, hget, ScriptObject.at?]
  have hcarried : ∀ entry ∈ entries, Carried snapshot old new L.object? fields entry :=
    fun entry hentry => (hc.restored entry hentry).carried hget hfresh hlate
  refine ⟨fields, hget, (List.perm_ext_iff_of_nodup fields.nodup hnames).2 fun name => ?_, hcarried⟩
  rw [← Table.keys, ← Table.contains_iff, Table.contains, Option.isSome_iff_exists, List.mem_map]
  constructor
  · rintro ⟨v, hv⟩
    exact hc.fields name v (by rw [hat, hv])
  · rintro ⟨entry, hentry, rfl⟩
    cases hfunction : functionOf? entry with
    | none =>
      obtain ⟨v, hv, -⟩ := (hcarried entry hentry).value hfunction
      exact ⟨v, by rw [fieldName_of_none hfunction, hv]⟩
    | some named =>
      obtain ⟨f, rest, hf, -⟩ := (hcarried entry hentry).function named.1 named.2 hfunction
      exact ⟨_, by rw [fieldName_of_some hfunction, hf]⟩

theorem Extends.of_heap_eq {E : Place → Prop} {L' : Ledger} {s s' t : Loading P}
    (h : Extends E L s L' s') (hheap : t.heap = s.heap) : Extends E L t L' s' := by
  constructor
  · exact h.objects
  · rw [hheap]
    exact h.kinds
  · rw [hheap]
    exact h.late
  · rw [hheap]
    exact h.kept

/-- When nothing waits any more, each late place holds what its stub stands for. -/
theorem Consistent.stands_late {snapshot : Snapshot} {old : Realm P} {s t : Loading P}
    (h : Consistent snapshot old L (Unresolved L s) t) (hwaiting : t.waiting = .empty)
    (hbuilt : t.built = s.built) {p : Place} {id : String} (hp : L.late? p = some id) :
    ∃ v, t.heap.at? p = some v ∧ Stands snapshot old.heap t.heap L.object? v (.stub id) := by
  rcases h.waits p id hp with ⟨hwait | ⟨id', hp', hnone⟩, hnull⟩ | ⟨k, hk, hat⟩
  · simp [waitingFor, hwaiting] at hwait
  · obtain rfl := Option.some.inj (hp.symm.trans hp')
    refine ⟨_, hnull, .missing fun i hi => ?_⟩
    cases hobject : L.object? i with
    | none => rfl
    | some k =>
      have hk := (h.built id k).2 ⟨i, hobject, hi⟩
      rw [hbuilt, hnone] at hk
      simp at hk
  · obtain ⟨i, hobject, hi⟩ := (h.built id k).1 hk
    exact ⟨_, hat, .stub hi hobject⟩

end

end Loading

open Snapshot (Entry Visits idAt? costOf) in
/-- A snapshot without classes can be loaded when there is room for its objects and the depth limit
admits it, and what is built is what it asks for. In strict mode the nodes of its stubs must all be
met. -/
theorem Host.load_rebuilds {P : Platform} (host : Host P) {s : Snapshot} (hs : s.Classless)
    {r : Realm P} (hr : r.heap.WellFormed) {met : List Nat}
    (hvisits : Visits s.nodes r.options.depthLimit [s.root] met) (hnodup : met.Nodup)
    (hroot : ∀ id, s.root ≠ .stub id)
    (hroom : r.heap.HasRoom (s.root.arrays + costOf s.nodes met))
    (hstrict : r.options.strictness = .strict →
      ∀ id, s.Names id → ∃ i ∈ met, idAt? s.nodes i = some id) (copying : Bool) :
    ∃ v r' object?, Id.run ((host.load s copying).run.run r) = (.ok (r'.expand v), r') ∧
      Loading.Rebuilt s r.heap r'.heap object? met ∧
      Loading.Stands s r.heap r'.heap object? v s.root ∧
      ∀ a, v = .object a → r'.heap.kind? a = some (.array #[]) →
        ∀ q, r.heap.contains q.owner = false → r'.heap.at? q ≠ some (.object a) := by
  obtain ⟨v, L, s₁, hread, hanswers⟩ := Loading.reads_read hs r r.options.depthLimit s.root met .empty
    ⟨r, [], .empty, 0, [], [], []⟩ hs.within_root hroot hvisits
    ⟨hnodup, fun _ _ => rfl, Loading.consistent_start s hr, hroom⟩
  have hs₁ := hanswers.progress.consistent
  obtain ⟨s₂, hsettle, hs₂, hsettled⟩ := Loading.runs_settleAll hs₁ (by
    intro h p id hp
    obtain ⟨i, hi, hid⟩ := hstrict h id (hs₁.named p id hp)
    obtain ⟨k, node, -, hk, -⟩ := hanswers.progress.complete i hi
    exact ⟨k, (hs₁.built id k).2 ⟨i, hk, hid⟩⟩)
  obtain ⟨s₃, hrenew, hs₃, hrenewed, hat⟩ := Loading.runs_renewAll hs₂
  have hload : Loading.Runs (Loading.load host s) ⟨r, [], .empty, 0, [], [], []⟩
      (s₃.realm.expand v) { s₃ with sleepers := [] } :=
    (Loading.runs_ask _).bind (hread.bind (hsettle.bind (hrenew.bind
      ((Loading.runs_awaken host hs₃.sleepers).bind (Loading.runs_ask _)))))
  let r' := s₃.realm.unprotectAll s₃.made
  have hheap : r'.heap = s₃.heap := Realm.heap_unprotectAll s₃.made s₃.realm
  -- serving and writing again leave alone what is not late
  have hserved : Loading.Extends (fun _ => False) L s₁ L s₂ := hsettled.frame.of_heap_eq rfl
  have hwritten : Loading.Extends (fun _ => False) L s₂ L s₃ := hrenewed.frame.of_heap_eq rfl
  have hframe := hserved.trans hwritten fun _ h => h.elim
  have hlate := fun p id (hp : L.late? p = some id) =>
    hs₃.stands_late (hrenewed.alike.waiting.trans hsettled.alike.waiting)
      (hrenewed.alike.built.trans hsettled.alike.built) hp
  refine ⟨v, r', L.object?, ?_, ?_, ?_, ?_⟩
  · show Id.run ((host.load s copying).run.run r) = (.ok (r'.heap.expand v), r')
    rw [hheap]
    exact host.run_load (t := { s₃ with sleepers := [] }) (by rw [hs.lifeless, Bool.and_false]) hload
  · rw [hheap]
    refine ⟨hs₃.kept, fun i hi => ?_, fun i k hi => ?_, hs₃.distinct, hs₃.unshared⟩
    · obtain ⟨k, node, hnode, hk, hnew, hcomplete⟩ := hanswers.progress.complete i hi
      have hnames := hs.names node (Array.mem_of_getElem? hnode)
      obtain ⟨fields, hget, hkeys, hcarried⟩ :=
        (hcomplete.mono hs₁ hframe (fun _ h => h.elim) hnew).rebuilt hnames (fun _ ha => ha) hlate
      exact ⟨k, node, fields, hnode, hk, hnew, hget, hkeys, hcarried⟩
    · rcases hanswers.progress.only i k hi with hbefore | hmet
      · simp [Loading.Ledger.empty] at hbefore
      · exact hmet
  · rw [hheap]
    obtain ⟨w, hw, hstands⟩ := (hanswers.holds.mono hs₁ hframe fun _ h => h.elim).stands
      (fun _ ha => ha) hlate fun id hid => Option.noConfusion rfl (heq_of_eq hid)
    exact Option.some.inj hw ▸ hstands
  · rw [hheap]
    intro a ha hkind q hq hat
    -- serving and writing again put no array anywhere
    have hkind₂ := (hrenewed.kinds a).symm.trans hkind
    have hkind₁ := (hsettled.kinds a).symm.trans hkind₂
    exact hanswers.unplaced a ha hkind₁ q hq
      (hsettled.held q a hkind₁ (hrenewed.held q a hkind₂ hat))

end ScriptBridge
