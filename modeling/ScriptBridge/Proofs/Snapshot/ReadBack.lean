import ScriptBridge.Proofs.Snapshot.Saving
import ScriptBridge.Snapshot.Encoding

/-!
# Reading Back what was Written

The text of a snapshot shows a node in the place where it is referred to, and reading numbers the
nodes in the order in which their texts begin. So what is read is numbered as the walk from the root
meets the nodes. A snapshot that has been made from a graph is numbered like this already, and comes
back as it was, but for numbers that JSON has no text for.

Main statements: `decodes_encoded` (entries on a walk come back, with the nodes that the walk meets)
and `Realm.Reachable.ofJson_toJson_save`.
-/

namespace ScriptBridge.Snapshot

/-! ## What a Text Shows -/

mutual

/-- An entry as its text shows it: null stands for a number that is not finite. -/
def Entry.legible : Entry → Entry
  | .double x => if x.isFinite then .double x else .null
  | .array items => .array (Entry.legibleItems items)
  | entry => entry

/-- Items as their texts show them. -/
def Entry.legibleItems : List Entry → List Entry
  | [] => []
  | item :: items => Entry.legible item :: Entry.legibleItems items

end

theorem Entry.legibleItems_eq_map (items : List Entry) :
    Entry.legibleItems items = items.map Entry.legible := by
  induction items with
  | nil => rfl
  | cons item items ih => rw [Entry.legibleItems, ih, List.map_cons]

/-- A node as its text shows it. -/
def Node.legible (n : Node) : Node := { n with entries := n.entries.map Entry.legible }

/-- A snapshot as its text shows it. -/
def legible (s : Snapshot) : Snapshot := ⟨s.nodes.map Node.legible, s.root.legible⟩

/-- The nodes at some positions, as their texts show them. -/
def legibleAt (nodes : Array Node) (met : List Nat) : List Node :=
  met.map fun i => (nodes[i]?.getD .empty).legible

theorem legibleAt_range (nodes : Array Node) :
    legibleAt nodes (List.range nodes.size) = nodes.toList.map Node.legible := by
  apply List.ext_getElem
  · simp [legibleAt]
  · intro i hi hi'
    have hlt : i < nodes.size := by simpa using hi'
    simp [legibleAt, hlt]

/-! ## Inverting the Writer -/

/-- What a list is turned into, when each of its members can be. -/
theorem mapM_cons_eq_ok {ε α β : Type} {f : α → Except ε β} {x : α} {xs : List α} {out : List β}
    (h : (x :: xs).mapM f = .ok out) :
    ∃ y ys, f x = .ok y ∧ xs.mapM f = .ok ys ∧ out = y :: ys := by
  rw [List.mapM_cons] at h
  obtain ⟨y, hy, h⟩ := Registry.except_bind_eq_ok h
  obtain ⟨ys, hys, h⟩ := Registry.except_bind_eq_ok h
  exact ⟨y, ys, hy, hys, (Except.ok.inj h).symm⟩

theorem length_of_mapM_eq_ok {ε α β : Type} {f : α → Except ε β} {xs : List α} {out : List β}
    (h : xs.mapM f = .ok out) : out.length = xs.length := by
  induction xs generalizing out with
  | nil =>
    obtain rfl := Except.ok.inj h
    rfl
  | cons x xs ih =>
    obtain ⟨y, ys, -, hys, rfl⟩ := mapM_cons_eq_ok h
    rw [List.length_cons, ih hys, List.length_cons]

/-- Entries under new keys are written one behind the other. -/
theorem foldlM_insertEntry_eq_ok {ε : Type} {inner : Entry → Except ε Json}
    {entries : List (String × Entry)} {members out : List (String × Json)}
    (hnodup : (members.map Prod.fst ++ entries.map Prod.fst).Nodup)
    (h : entries.foldlM (fun members (key, entry) =>
      return insertEntry key (← inner entry) members) members = .ok out) :
    ∃ values, (entries.map Prod.snd).mapM inner = .ok values ∧
      out = members ++ (entries.map Prod.fst).zip values := by
  induction entries generalizing members with
  | nil => exact ⟨[], rfl, by simpa using (Except.ok.inj h).symm⟩
  | cons head rest ih =>
    obtain ⟨key, entry⟩ := head
    rw [List.foldlM_cons] at h
    obtain ⟨more, hmore, h⟩ := Registry.except_bind_eq_ok h
    obtain ⟨value, hvalue, hmore⟩ := Registry.except_bind_eq_ok hmore
    have hfresh : key ∉ members.map Prod.fst := fun hmem =>
      (List.nodup_append.1 hnodup).2.2 key hmem key List.mem_cons_self rfl
    -- the key is new, so the member comes last
    have hlast : more = members ++ [(key, value)] := by
      have hnew := Table.entries_insert_of_not_mem
        (⟨members, (List.nodup_append.1 hnodup).1⟩ : Table Json) value hfresh
      exact (Except.ok.inj hmore).symm.trans hnew
    obtain ⟨values, hvalues, hout⟩ := ih (by
      rw [hlast, List.map_append, List.append_assoc]
      exact hnodup) h
    refine ⟨value :: values, ?_, ?_⟩
    · simp only [List.map_cons, List.mapM_cons, hvalue, hvalues]
      rfl
    · rw [hout, hlast]
      simp

variable {s : Snapshot} {room : Nat} {path : List Nat} {json : Json}

/-- An array that has been written. -/
theorem encode_array_eq_ok {items : List Entry} (h : encode s room path (.array items) = .ok json) :
    ∃ inside values, room = inside + 1 ∧ items.mapM (encode s inside path) = .ok values ∧
      json = .array values := by
  cases room with
  | zero => cases h
  | succ room =>
    have h' : (items.mapM (encode s room path)).map Json.array = .ok json := h
    cases hitems : items.mapM (encode s room path) with
    | error error =>
      rw [hitems] at h'
      cases h'
    | ok values =>
      rw [hitems] at h'
      exact ⟨room, values, rfl, hitems, (Except.ok.inj h').symm⟩

/-- The keys of a node do not hide what stands in front of its entries. -/
structure Node.Legible (n : Node) : Prop where
  notClass : classKey ∉ n.entries.keys
  notId : idKey ∉ n.entries.keys
  notStub : stubKey ∉ n.entries.keys

theorem Orderly.legible {room : Nat} (hs : s.Orderly room) {i : Nat} {node : Node}
    (hnode : s.nodes[i]? = some node) : node.Legible := by
  have hkeys : ∀ key, key ∈ node.entries.keys → key ≠ classKey ∧ key ≠ idKey ∧ key ≠ stubKey := by
    intro key hkey
    obtain ⟨⟨key', entry⟩, hentry, rfl⟩ := List.mem_map.1 hkey
    obtain ⟨hclass, hid, hstub, -⟩ := hs.keys node (Array.mem_of_getElem? hnode) key' entry hentry
    exact ⟨hclass, hid, hstub⟩
  exact ⟨fun h => (hkeys _ h).1 rfl, fun h => (hkeys _ h).2.1 rfl, fun h => (hkeys _ h).2.2 rfl⟩

theorem Node.map_fst_header (n : Node) :
    n.header.map Prod.fst =
      (n.className.toList.map fun _ => classKey) ++ n.id.toList.map fun _ => idKey := by
  simp [Node.header, Function.comp_def]

theorem Node.Legible.nodup {n : Node} (hn : n.Legible) :
    (n.header.map Prod.fst ++ n.entries.keys).Nodup := by
  have hheader : (n.header.map Prod.fst).Nodup := by
    have hne : classKey ≠ idKey := by decide
    rw [Node.map_fst_header]
    cases n.className <;> cases n.id <;> simp [hne]
  refine List.nodup_append.2 ⟨hheader, n.entries.nodup, ?_⟩
  rintro key hkey other hother rfl
  rw [Node.map_fst_header, List.mem_append] at hkey
  rcases hkey with hkey | hkey
  · obtain ⟨-, -, rfl⟩ := List.mem_map.1 hkey
    exact hn.notClass hother
  · obtain ⟨-, -, rfl⟩ := List.mem_map.1 hkey
    exact hn.notId hother

/-- A node that has been written: its entries, one after the other, into what stands in front of
them. -/
theorem encode_node_cases {index : Nat} (h : encode s room path (.node index) = .ok json) :
    ∃ node inside members, s.nodes[index]? = some node ∧ room = inside + 1 ∧
      node.entries.entries.foldlM (fun members (key, entry) =>
        return insertEntry key (← encode s inside (index :: path) entry) members) node.header =
          .ok members ∧
      json = .object members := by
  cases room with
  | zero => cases h
  | succ room =>
    change (do
      let node ← s.node index
      if path.contains index then
        throw (SnapshotError.malformed ("node " ++ toString index ++ " contains itself"))
      let members ← node.entries.entries.foldlM (fun members (key, entry) =>
        return insertEntry key (← encode s room (index :: path) entry) members) node.header
      return Json.object members) = .ok json at h
    obtain ⟨node, hfound, h⟩ := Registry.except_bind_eq_ok h
    have hnode : s.nodes[index]? = some node := node_eq_ok_iff.1 hfound
    dsimp only at h
    split at h
    · cases h
    · obtain ⟨members, hmembers, h⟩ := Registry.except_bind_eq_ok h
      exact ⟨node, room, members, hnode, rfl, hmembers, (Except.ok.inj h).symm⟩

/-- A node whose keys hide nothing: its class and its identifier, then its entries by their keys. -/
theorem encode_node_eq_ok {index : Nat} {node : Node} (hnode : s.nodes[index]? = some node)
    (hlegible : node.Legible) (h : encode s room path (.node index) = .ok json) :
    ∃ inside values, node.entries.values.mapM (encode s inside (index :: path)) = .ok values ∧
      json = .object (node.header ++ node.entries.keys.zip values) := by
  obtain ⟨found, inside, members, hfound, -, hmembers, rfl⟩ := encode_node_cases h
  obtain rfl := Option.some.inj (hnode.symm.trans hfound)
  obtain ⟨values, hvalues, rfl⟩ := foldlM_insertEntry_eq_ok hlegible.nodup hmembers
  exact ⟨inside, values, hvalues, rfl⟩

/-! ## Runs of the Reader -/

/-- Reading succeeds, and adds nodes behind those that were there. -/
def Decodes {α : Type} (step : Decoding α) (before : Array Node) (answer : α) (added : List Node) :
    Prop :=
  step.run before = .ok (answer, before ++ added.toArray)

section

variable {before : Array Node} {added more : List Node}

theorem decodes_pure {α : Type} (answer : α) : Decodes (pure answer) before answer [] := by
  unfold Decodes
  rw [Array.append_empty]
  rfl

theorem Decodes.bind {α β : Type} {step : Decoding α} {next : α → Decoding β} {a : α} {b : β}
    (h : Decodes step before a added) (h' : Decodes (next a) (before ++ added.toArray) b more) :
    Decodes (step >>= next) before b (added ++ more) := by
  unfold Decodes at h h' ⊢
  rw [StateT.run_bind, h, ← List.append_toArray, ← Array.append_assoc]
  exact h'

theorem Decodes.map {α β : Type} {step : Decoding α} {a : α} (h : Decodes step before a added)
    (f : α → β) : Decodes (step >>= fun a => pure (f a)) before (f a) added := by
  have hbind : Decodes (step >>= fun a => pure (f a)) before (f a) (added ++ []) :=
    h.bind (decodes_pure (f a))
  rwa [List.append_nil] at hbind

theorem decodes_items_cons {json : Json} {values : List Json} {entry : Entry}
    {entries : List Entry} (h : Decodes (decode json) before entry added)
    (h' : Decodes (decodeItems values) (before ++ added.toArray) entries more) :
    Decodes (decodeItems (json :: values)) before (entry :: entries) (added ++ more) := by
  rw [decodeItems]
  exact h.bind (h'.map (entry :: ·))

/-- What is read of several values is what is read of the first one and of the others. -/
theorem run_decodeItems_cons {json : Json} {values : List Json} {entries : List Entry}
    {after : Array Node} (h : (decodeItems (json :: values)).run before = .ok (entries, after)) :
    ∃ entry rest between, (decode json).run before = .ok (entry, between) ∧
      (decodeItems values).run between = .ok (rest, after) ∧ entries = entry :: rest := by
  rw [decodeItems, StateT.run_bind] at h
  obtain ⟨⟨entry, between⟩, hentry, h⟩ := Registry.except_bind_eq_ok h
  rw [StateT.run_bind] at h
  obtain ⟨⟨rest, nodes⟩, hrest, h⟩ := Registry.except_bind_eq_ok h
  have hout := Except.ok.inj h
  rw [Prod.mk.injEq] at hout
  obtain ⟨rfl, rfl⟩ := hout
  exact ⟨entry, rest, between, hentry, hrest, rfl⟩

/-! ## Entries -/

theorem intEntry_toInt (n : Int64) : intEntry n.toInt = .int n := by
  have hlow := n.minValue_le_toInt
  have hhigh := n.toInt_le
  have hfits : (decide (Int64.minValue.toInt ≤ n.toInt) && decide (n.toInt ≤ Int64.maxValue.toInt)) =
      true := by
    rw [Bool.and_eq_true, decide_eq_true_iff, decide_eq_true_iff]
    exact ⟨hlow, hhigh⟩
  rw [intEntry, if_pos hfits, Int64.ofInt_toInt]

/-- An entry that nothing lies inside of comes back by itself. -/
theorem decodes_leaf (before : Array Node) {entry : Entry} (hleaf : entry.isLeaf = true)
    (h : encode s room path entry = .ok json) :
    Decodes (decode json) before entry.legible [] := by
  have h' : ∃ inner?, encodeWith s inner? path entry = .ok json := by
    cases room with
    | zero => exact ⟨_, h⟩
    | succ room => exact ⟨_, h⟩
  obtain ⟨inner?, h⟩ := h'
  cases entry with
  | null =>
    obtain rfl := Except.ok.inj h
    exact decodes_pure Entry.null
  | bool b =>
    obtain rfl := Except.ok.inj h
    exact decodes_pure (Entry.bool b)
  | int n =>
    obtain rfl := Except.ok.inj h
    rw [decode, intEntry_toInt]
    exact decodes_pure (Entry.int n)
  | double x =>
    have hjson := Except.ok.inj h
    rw [Entry.legible]
    split at hjson
    · next hfinite =>
      rw [← hjson, if_pos hfinite]
      exact decodes_pure (Entry.double x)
    · next hfinite =>
      rw [← hjson, if_neg hfinite]
      exact decodes_pure Entry.null
  | string text =>
    obtain rfl := Except.ok.inj h
    exact decodes_pure (Entry.string text)
  | stub id =>
    obtain rfl := Except.ok.inj h
    exact decodes_pure (Entry.stub id)
  | reference k => cases h
  | array items => cases hleaf
  | node index => cases hleaf

/-! ## Nodes -/

theorem lookup_zip_of_not_mem {α : Type} {key : String} {keys : List String} (hkey : key ∉ keys)
    (values : List α) : (keys.zip values).lookup key = none := by
  rw [List.lookup_eq_none_iff]
  rintro ⟨other, value⟩ hmem
  have hother : other ∈ keys := (List.of_mem_zip hmem).1
  simp only [bne_iff_ne, ne_eq]
  rintro rfl
  exact hkey hother

/-- What stands in front of the entries of a node is found there. -/
theorem Node.Legible.member? {n : Node} (hn : n.Legible) (values : List Json) :
    Json.member? stubKey (n.header ++ n.entries.keys.zip values) = none ∧
    textMember? classKey (n.header ++ n.entries.keys.zip values) = .ok n.className ∧
    textMember? idKey (n.header ++ n.entries.keys.zip values) = .ok n.id := by
  have hclass := lookup_zip_of_not_mem hn.notClass values
  have hid := lookup_zip_of_not_mem hn.notId values
  have hstub := lookup_zip_of_not_mem hn.notStub values
  have hkeys : (idKey == classKey) = false ∧ (stubKey == classKey) = false ∧
      (stubKey == idKey) = false ∧ (classKey == idKey) = false := by decide
  obtain ⟨h₁, h₂, h₃, h₄⟩ := hkeys
  simp only [textMember?, Json.member?, Node.header]
  cases n.className <;> cases n.id <;>
    simp [List.lookup_cons, h₁, h₂, h₃, h₄, hclass, hid, hstub]

/-- The entries of a node are read one behind the other. -/
theorem run_decodeMembers {keys : List String} {values : List Json} {entries : List Entry}
    (found : Table Entry) {after : Array Node} (hlength : values.length = keys.length)
    (hnodup : (found.keys ++ keys).Nodup) (hclass : classKey ∉ keys) (hid : idKey ∉ keys)
    (h : (decodeItems values).run before = .ok (entries, after)) :
    ∃ table, (decodeMembers found (keys.zip values)).run before = .ok (table, after) ∧
      table.entries = found.entries ++ keys.zip entries := by
  induction values generalizing keys entries found before with
  | nil =>
    obtain rfl := List.eq_nil_of_length_eq_zero hlength.symm
    have hout := Except.ok.inj h
    rw [Prod.mk.injEq] at hout
    refine ⟨found, ?_, by simp⟩
    rw [← hout.2, List.zip_nil_left, decodeMembers]
    rfl
  | cons json values ih =>
    cases keys with
    | nil => cases hlength
    | cons key keys =>
      obtain ⟨entry, rest, between, hentry, hrest, rfl⟩ := run_decodeItems_cons h
      -- the key is new, so its entry comes last
      have hfresh : key ∉ found.keys := fun hmem =>
        (List.nodup_append.1 hnodup).2.2 key hmem key List.mem_cons_self rfl
      have hentries := found.entries_insert_of_not_mem entry hfresh
      obtain ⟨table, htable, hall⟩ := ih (found.insert key entry)
        (Nat.succ.inj hlength) (by
          rw [Table.keys, hentries, List.map_append, List.append_assoc]
          exact hnodup)
        (fun hmem => hclass (List.mem_cons_of_mem _ hmem))
        (fun hmem => hid (List.mem_cons_of_mem _ hmem)) hrest
      -- it is neither the key of a class nor that of an identifier
      have hkey : (key == classKey || key == idKey) = false := by
        rw [Bool.or_eq_false_iff, beq_eq_false_iff_ne, beq_eq_false_iff_ne]
        exact ⟨fun e => hclass (e ▸ List.mem_cons_self), fun e => hid (e ▸ List.mem_cons_self)⟩
      refine ⟨table, ?_, by rw [hall, hentries, List.zip_cons_cons, List.append_assoc]; rfl⟩
      rw [List.zip_cons_cons, decodeMembers, if_neg (by rw [hkey]; exact Bool.false_ne_true),
        StateT.run_bind, hentry]
      exact htable

/-- What stands in front of the entries of a node is passed over. -/
theorem decodeMembers_header (n : Node) (found : Table Entry) (members : List (String × Json)) :
    decodeMembers found (n.header ++ members) = decodeMembers found members := by
  rw [Node.header]
  cases n.className <;> cases n.id <;> simp [decodeMembers]

/-- An object is read as a node, whose place is taken before the nodes inside of it take theirs. -/
theorem decodes_object {members : List (String × Json)} {className id : Option String}
    {entries : Table Entry} (hstub : Json.member? stubKey members = none)
    (hclass : textMember? classKey members = .ok className)
    (hid : textMember? idKey members = .ok id)
    (h : Decodes (decodeMembers .empty members) (before.push .empty) entries added) :
    Decodes (decode (.object members)) before (.node before.size)
      (⟨className, id, entries⟩ :: added) := by
  unfold Decodes at h ⊢
  have hrun : (decode (.object members)).run before = (do
      let (entries, nodes) ← (decodeMembers .empty members).run (before.push .empty)
      return (.node before.size, nodes.setIfInBounds before.size ⟨className, id, entries⟩)) := by
    rw [decode, hstub, hclass, hid]
    rfl
  rw [hrun, h]
  show Except.ok _ = Except.ok _
  congr 2
  apply Array.ext'
  simp

/-- The text of a node is read as the node. -/
theorem decodes_node {node : Node} (hn : node.Legible) {values : List Json}
    (hlength : values.length = node.entries.values.length)
    (h : Decodes (decodeItems values) (before.push .empty) (node.entries.values.map Entry.legible)
      added) :
    Decodes (decode (.object (node.header ++ node.entries.keys.zip values))) before
      (.node before.size) (node.legible :: added) := by
  obtain ⟨hstub, hclass, hid⟩ := hn.member? values
  have hkeys : values.length = node.entries.keys.length := by
    rw [hlength, Table.values, Table.keys, List.length_map, List.length_map]
  obtain ⟨table, htable, hall⟩ := run_decodeMembers .empty hkeys
    (by rw [Table.keys_empty, List.nil_append]; exact node.entries.nodup) hn.notClass hn.notId h
  have hsame : table = node.entries.map Entry.legible := by
    have hentries : table.entries = (node.entries.map Entry.legible).entries := by
      rw [hall, Table.keys, Table.values, List.map_map, List.zip_map']
      rfl
    cases table
    exact (Table.mk.injEq _ _ _ _).mpr hentries
  refine decodes_object hstub hclass hid ?_
  rw [decodeMembers_header, ← hsame]
  exact htable

/-! ## Walks -/

/-- A walk that numbers the nodes one after the other does so in each of its parts. -/
theorem range'_append_inv {start : Nat} {inside after : List Nat}
    (h : inside ++ after = List.range' start (inside ++ after).length) :
    inside = List.range' start inside.length ∧
      after = List.range' (start + inside.length) after.length := by
  rw [List.length_append, ← List.range'_append_1] at h
  exact List.append_inj h (by simp)

/-- The entries on a walk come back, with the nodes that the walk meets, if it numbers them one after
the other. -/
theorem decodes_encoded (before : Array Node)
    (hs : ∀ (i : Nat) (node : Node), s.nodes[i]? = some node → node.Legible) {limit : Nat}
    {entries : List Entry} {met : List Nat} (h : Visits s.nodes limit entries met)
    {values : List Json} (hmet : met = List.range' before.size met.length)
    (hvalues : entries.mapM (encode s room path) = .ok values) :
    Decodes (decodeItems values) before (entries.map Entry.legible) (legibleAt s.nodes met) := by
  induction h generalizing room path values before with
  | nil =>
    obtain rfl := Except.ok.inj hvalues
    exact decodes_pure []
  | leaf hleaf _ ih =>
    obtain ⟨json, rest, hjson, hrest, rfl⟩ := mapM_cons_eq_ok hvalues
    have hone := decodes_leaf before hleaf hjson
    have hmore := ih (before ++ #[]) (by simpa using hmet) hrest
    exact decodes_items_cons hone hmore
  | @array limit items entries inside after _ _ ihitems ihrest =>
    obtain ⟨json, rest, hjson, hrest, rfl⟩ := mapM_cons_eq_ok hvalues
    obtain ⟨room', values', -, hvalues', rfl⟩ := encode_array_eq_ok hjson
    obtain ⟨hinside, hafter⟩ := range'_append_inv hmet
    have hone : Decodes (decode (.array values')) before (.array (Entry.legibleItems items))
        (legibleAt s.nodes inside) := by
      rw [decode, Entry.legibleItems_eq_map]
      exact (ihitems before hinside hvalues').map Entry.array
    have hmore := ihrest (before ++ (legibleAt s.nodes inside).toArray)
      (by simpa [legibleAt] using hafter) hrest
    rw [legibleAt, List.map_append]
    exact decodes_items_cons hone hmore
  | @node limit index node entries inside after hnode _ _ ihvalues ihrest =>
    obtain ⟨json, rest, hjson, hrest, rfl⟩ := mapM_cons_eq_ok hvalues
    obtain ⟨room', values', hvalues', rfl⟩ := encode_node_eq_ok hnode (hs index node hnode) hjson
    -- the node takes the next number, and the nodes inside of it take those behind
    rw [List.length_cons, List.range'_succ, List.cons.injEq] at hmet
    obtain ⟨rfl, hmet⟩ := hmet
    obtain ⟨hinside, hafter⟩ := range'_append_inv hmet
    have hone := decodes_node (hs _ node hnode) (length_of_mapM_eq_ok hvalues')
      (ihvalues (before.push .empty) (by simpa using hinside) hvalues')
    have hmore := ihrest
      (before ++ (node.legible :: legibleAt s.nodes inside).toArray)
      (by simpa [legibleAt, Nat.add_assoc, Nat.add_comm 1] using hafter) hrest
    have hmet : legibleAt s.nodes (before.size :: (inside ++ after)) =
        (node.legible :: legibleAt s.nodes inside) ++ legibleAt s.nodes after := by
      simp [legibleAt, hnode]
    rw [hmet]
    exact decodes_items_cons hone hmore

/-- A snapshot comes back from its JSON form as that shows it, if a walk from the root numbers its
nodes one after the other. -/
theorem ofJson_of_visits {limit : Nat}
    (hs : ∀ (i : Nat) (node : Node), s.nodes[i]? = some node → node.Legible)
    (hvisits : Visits s.nodes limit [s.root] (List.range s.nodes.size)) (h : s.toJson = .ok json) :
    ofJson json = .ok s.legible := by
  have hvalues : [s.root].mapM (encode s Json.maxTextNesting []) = .ok [json] := by
    rw [List.mapM_cons, show encode s Json.maxTextNesting [] s.root = .ok json from h]
    rfl
  have hdecodes := decodes_encoded #[] hs hvisits (by simp [List.range_eq_range']) hvalues
  obtain ⟨entry, rest, between, hroot, hrest, hentries⟩ := run_decodeItems_cons hdecodes
  have hnothing := Except.ok.inj hrest
  rw [Prod.mk.injEq] at hnothing
  rw [List.map_cons, List.cons.injEq] at hentries
  rw [ofJson, hroot, hnothing.2, legibleAt_range, ← hentries.1]
  show Except.ok _ = Except.ok _
  rw [Snapshot.legible]
  congr 2
  apply Array.ext'
  simp

/-- An orderly snapshot comes back from its JSON form as that shows it. -/
theorem Orderly.ofJson_toJson {limit : Nat} (hs : s.Orderly limit) (h : s.toJson = .ok json) :
    ofJson json = .ok s.legible :=
  ofJson_of_visits (fun _ _ => hs.legible) hs.preorder h

end

end Snapshot

/-- What has been saved comes back from its JSON form as it was, but for numbers that are not
finite: null stands for these. -/
theorem Realm.Reachable.ofJson_toJson_save {P : Platform} {r : Realm P} (hr : r.Reachable)
    {value : Value} {force : Bool} {mask? : Option (List String)} {s : Snapshot}
    (hsave : r.save value force mask? = .ok s) {json : Json} (hjson : s.toJson = .ok json) :
    Snapshot.ofJson json = .ok s.legible :=
  (shows_of_save hr.sound.registry.nodup_visibleProperties hsave).1.ofJson_toJson hjson

namespace Realm

/-- A realm with an object that refers to itself and holds a number that is not finite. -/
def ofRatio : Realm Scenario.platform :=
  after (putProperty ⟨1, 0⟩ "ratio" (.double (.ofBits 0x7ff0000000000000)) false) ofLoop

theorem reachable_ofRatio : ofRatio.Reachable := by
  have hcapacity : ofRatio.heap.capacity = 2 := by cbv
  exact reachable_ofLoop.steps
    (.single (.putProperty ⟨1, 0⟩ "ratio" (.double (.ofBits 0x7ff0000000000000)) false ofLoop))
    (by rw [hcapacity]; decide)

/-- The object comes back with its identifier and the stub in it, and the number as null. -/
theorem ofJson_toJson_save_ratio :
    ofRatio.Reachable ∧
    ∃ s json, ofRatio.save (.object ⟨1, 0⟩) false none = .ok s ∧ s.toJson = .ok json ∧
      Snapshot.ofJson json = .ok s.legible ∧
      s.legible = ⟨#[⟨none, some "1", ⟨[("self", .stub "1"), ("ratio", .null)], by decide⟩⟩], .node 0⟩ := by
  have hsave : ofRatio.save (.object ⟨1, 0⟩) false none =
      .ok ⟨#[⟨none, some "1",
        ⟨[("self", .stub "1"), ("ratio", .double (.ofBits 0x7ff0000000000000))], by decide⟩⟩],
        .node 0⟩ := by cbv
  have hjson : Snapshot.toJson ⟨#[⟨none, some "1",
      ⟨[("self", .stub "1"), ("ratio", .double (.ofBits 0x7ff0000000000000))], by decide⟩⟩], .node 0⟩ =
      .ok (.object [("__id__", .string "1"), ("self", Snapshot.stubJson "1"), ("ratio", .null)]) := by
    cbv
  exact ⟨reachable_ofRatio, _, _, hsave, hjson,
    reachable_ofRatio.ofJson_toJson_save hsave hjson, by cbv⟩

end Realm

end ScriptBridge
