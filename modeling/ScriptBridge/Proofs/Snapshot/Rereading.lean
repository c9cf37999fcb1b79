import ScriptBridge.Proofs.Number.Rounding
import ScriptBridge.Proofs.Snapshot.Unfolding

/-!
# Writing What has been Read

Reading puts a JSON value in order: what stands beside the key of a stub is dropped, the class and the
identifier of an object are told from its entries, and a whole number that needs more bits than a signed
integer has becomes the nearest double. What it makes of a value can be walked through from the root,
with no more room for containers than the value has, and nothing on the walk is shown differently in a
text. So there is a text, and reading it once more changes nothing.

Main statements: `tells_decode` (how the nodes that have been added tell of what has been read) and
`toJson_ofJson`.
-/

namespace ScriptBridge

namespace Json

/-- A JSON value as programs hold it: whole numbers fit 64 bits, with a sign or without, other numbers
are finite, and no key of an object occurs twice. -/
inductive Proper : Json → Prop
  | null : Proper .null
  | bool {b : Bool} : Proper (.bool b)
  | integer {n : Int} : Int64.minValue.toInt ≤ n → n < UInt64.size → Proper (.integer n)
  | double {x : Float} : x.isFinite = true → Proper (.double x)
  | string {text : String} : Proper (.string text)
  | array {items : List Json} : (∀ item ∈ items, Proper item) → Proper (.array items)
  | object {members : List (String × Json)} :
      (members.map Prod.fst).Nodup → (∀ member ∈ members, Proper member.2) → Proper (.object members)

end Json

namespace Snapshot

/-! ## Walks through what a Text Shows -/

/-- Whether nothing lies inside of an entry and its text shows it as it is, without braces. -/
def Entry.isPlain : Entry → Bool
  | .null | .bool _ | .int _ | .string _ => true
  | .double x => x.isFinite
  | _ => false

/-- A walk like `Visits` through entries that texts show as they are; stubs need room, too. -/
inductive Faithful (nodes : Array Node) : Nat → List Entry → List Nat → Prop
  | nil {room : Nat} : Faithful nodes room [] []
  | plain {room : Nat} {entry : Entry} {entries : List Entry} {after : List Nat} :
      entry.isPlain = true → Faithful nodes room entries after →
      Faithful nodes room (entry :: entries) after
  | stub {room : Nat} {id : String} {entries : List Entry} {after : List Nat} :
      Faithful nodes (room + 1) entries after → Faithful nodes (room + 1) (.stub id :: entries) after
  | array {room : Nat} {items entries : List Entry} {inside after : List Nat} :
      Faithful nodes room items inside → Faithful nodes (room + 1) entries after →
      Faithful nodes (room + 1) (.array items :: entries) (inside ++ after)
  | node {room index : Nat} {node : Node} {entries : List Entry} {inside after : List Nat} :
      nodes[index]? = some node → node.Legible → Faithful nodes room node.entries.values inside →
      Faithful nodes (room + 1) entries after →
      Faithful nodes (room + 1) (.node index :: entries) (index :: (inside ++ after))

theorem Entry.isLeaf_of_isPlain {e : Entry} (h : e.isPlain = true) : e.isLeaf = true := by
  cases e with
  | array items => cases h
  | node index => cases h
  | _ => rfl

theorem Entry.legible_of_isPlain {e : Entry} (h : e.isPlain = true) : e.legible = e := by
  cases e with
  | array items => cases h
  | double x => exact if_pos h
  | _ => rfl

theorem Node.legible_of_values {node : Node}
    (h : node.entries.values.map Entry.legible = node.entries.values) : node.legible = node := by
  have hvalues : ∀ entry ∈ node.entries.entries, entry.2.legible = entry.2 := by
    have hsame := List.map_eq_map_iff.1 (h.trans (List.map_id' _).symm)
    exact fun entry hentry => hsame entry.2 (List.mem_map.2 ⟨entry, hentry, rfl⟩)
  have hentries : (node.entries.map Entry.legible).entries = node.entries.entries :=
    calc node.entries.entries.map (fun entry => (entry.1, entry.2.legible))
        = node.entries.entries.map (fun entry => entry) :=
          List.map_congr_left fun entry hentry => Prod.ext rfl (hvalues entry hentry)
      _ = node.entries.entries := List.map_id' _
  obtain ⟨className, id, ⟨entries, nodup⟩⟩ := node
  exact (Node.mk.injEq _ _ _ _ _ _).mpr ⟨rfl, rfl, (Table.mk.injEq _ _ _ _).mpr hentries⟩

namespace Faithful

section

variable {nodes : Array Node} {room : Nat} {entries more : List Entry} {met after : List Nat}

theorem visits (h : Faithful nodes room entries met) : Visits nodes room entries met := by
  induction h with
  | nil => exact .nil
  | plain hplain _ ih => exact .leaf (Entry.isLeaf_of_isPlain hplain) ih
  | stub _ ih => exact .leaf rfl ih
  | array _ _ ihitems ihrest => exact .array ihitems ihrest
  | node hnode _ _ _ ihvalues ihrest => exact .node hnode ihvalues ihrest

theorem append (h : Faithful nodes room entries met) (h' : Faithful nodes room more after) :
    Faithful nodes room (entries ++ more) (met ++ after) := by
  induction h with
  | nil => exact h'
  | plain hplain _ ih => exact .plain hplain (ih h')
  | stub _ ih => exact .stub (ih h')
  | array hitems _ _ ih =>
    rw [List.append_assoc]
    exact .array hitems (ih h')
  | node hnode hlegible hvalues _ _ ih =>
    rw [List.cons_append, List.cons_append, List.append_assoc]
    exact .node hnode hlegible hvalues (ih h')

/-- Part of the walk goes through each entry alone. -/
theorem mem (h : Faithful nodes room entries met) {e : Entry} (he : e ∈ entries) :
    ∃ met', Faithful nodes room [e] met' := by
  induction h with
  | nil => cases he
  | plain hplain _ ih =>
    rcases List.mem_cons.1 he with rfl | he
    · exact ⟨_, .plain hplain .nil⟩
    · exact ih he
  | stub _ ih =>
    rcases List.mem_cons.1 he with rfl | he
    · exact ⟨_, .stub .nil⟩
    · exact ih he
  | array hitems _ _ ih =>
    rcases List.mem_cons.1 he with rfl | he
    · exact ⟨_, .array hitems .nil⟩
    · exact ih he
  | node hnode hlegible hvalues _ _ ih =>
    rcases List.mem_cons.1 he with rfl | he
    · exact ⟨_, .node hnode hlegible hvalues .nil⟩
    · exact ih he

theorem room_pos {e : Entry} (h : Faithful nodes room [e] met) (he : e.isContainer = true) :
    0 < room := by
  cases h with
  | plain hplain => cases e <;> cases he <;> cases hplain
  | _ => exact Nat.succ_pos _

/-- Texts show the entries as they are, and the entries of the nodes that are met. -/
theorem legible (h : Faithful nodes room entries met) :
    entries.map Entry.legible = entries ∧
      ∀ i ∈ met, ∃ node, nodes[i]? = some node ∧ node.Legible ∧ node.legible = node := by
  induction h with
  | nil => simp
  | plain hplain _ ih =>
    refine ⟨?_, ih.2⟩
    rw [List.map_cons, Entry.legible_of_isPlain hplain, ih.1]
  | stub _ ih =>
    refine ⟨?_, ih.2⟩
    rw [List.map_cons, ih.1]
    rfl
  | array _ _ ihitems ihrest =>
    refine ⟨?_, fun i hi => ?_⟩
    · rw [List.map_cons, Entry.legible, Entry.legibleItems_eq_map, ihitems.1, ihrest.1]
    · exact (List.mem_append.1 hi).elim (ihitems.2 i) (ihrest.2 i)
  | @node room index node entries inside after hnode hlegible _ _ ihvalues ihrest =>
    refine ⟨?_, fun i hi => ?_⟩
    · rw [List.map_cons, ihrest.1]
      rfl
    · rcases List.mem_cons.1 hi with rfl | hi
      · exact ⟨node, hnode, hlegible, Node.legible_of_values ihvalues.1⟩
      · exact (List.mem_append.1 hi).elim (ihvalues.2 i) (ihrest.2 i)

end

variable {s : Snapshot} {room n : Nat} {e e₁ e₂ : Entry} {met : List Nat}

theorem inside (h : Faithful s.nodes room [e] met) (hinside : s.Inside e e₁) :
    ∃ less met', room = less + 1 ∧ Faithful s.nodes less [e₁] met' := by
  cases hinside with
  | item hmem =>
    cases h with
    | plain hplain => cases hplain
    | array hitems =>
      obtain ⟨met', h'⟩ := hitems.mem hmem
      exact ⟨_, met', rfl, h'⟩
  | entry hnode hmem =>
    cases h with
    | plain hplain => cases hplain
    | node hfound _ hvalues =>
      obtain rfl := Option.some.inj (hnode.symm.trans hfound)
      obtain ⟨met', h'⟩ := hvalues.mem (List.mem_map.2 ⟨_, hmem, rfl⟩)
      exact ⟨_, met', rfl, h'⟩

/-- The walk goes through whatever lies in an entry, with the room that is left there. -/
theorem nested (h : Faithful s.nodes room [e] met) (hnested : s.Nested n e e₂) :
    ∃ less met', room = less + n ∧ Faithful s.nodes less [e₂] met' := by
  induction hnested generalizing room met with
  | here => exact ⟨room, met, rfl, h⟩
  | inside hinside _ ih =>
    obtain ⟨less, met₁, rfl, h₁⟩ := h.inside hinside
    obtain ⟨less, met₂, rfl, h₂⟩ := ih h₁
    exact ⟨less, met₂, by omega, h₂⟩

/-- There is room left for whatever is written as a container. -/
theorem nested_lt (h : Faithful s.nodes room [e] met) (hnested : s.Nested n e e₂)
    (hcontainer : e₂.isContainer = true) : n < room := by
  obtain ⟨less, met', rfl, h'⟩ := h.nested hnested
  have hpos := h'.room_pos hcontainer
  omega

theorem unfolds (h : Faithful s.nodes room [s.root] met) (hroom : room ≤ Json.maxTextNesting) :
    s.Unfolds := by
  constructor
  · intro n index hnested
    obtain ⟨less, met', -, h'⟩ := h.nested hnested
    cases h' with
    | plain hplain => cases hplain
    | node hnode => exact (Array.getElem?_eq_some_iff.1 hnode).1
  · exact fun n m index => not_nested_self fun n index hnested => h.nested_lt hnested rfl
  · intro n k hnested
    obtain ⟨less, met', -, h'⟩ := h.nested hnested
    cases h' with
    | plain hplain => cases hplain
  · intro n e₂ hnested hleaf
    have hcontainer : e₂.isContainer = true := by
      cases e₂ with
      | array items => rfl
      | node index => rfl
      | _ => cases hleaf
    exact Nat.lt_of_lt_of_le (h.nested_lt hnested hcontainer) hroom

/-- There is a text, which nests no more containers than there is room for. -/
theorem exists_toJson (h : Faithful s.nodes room [s.root] met) (hroom : room ≤ Json.maxTextNesting) :
    ∃ json, s.toJson = .ok json ∧ json.nesting ≤ room := by
  cases hjson : s.toJson with
  | error error => exact absurd (obstacle_of_toJson hjson) (h.unfolds hroom).not_obstacle
  | ok json =>
    refine ⟨json, rfl, Nat.le_of_not_lt fun hlt => ?_⟩
    obtain ⟨e₂, hnested, hcontainer⟩ := (lt_nesting_iff hjson).1 hlt
    exact absurd (h.nested_lt hnested hcontainer) (Nat.lt_irrefl room)

end Faithful

/-! ## What Reading Adds -/

/-- Nodes stand one after the other from a position on. -/
def Includes (nodes : Array Node) (start : Nat) (added : List Node) : Prop :=
  ∀ i node, added[i]? = some node → nodes[start + i]? = some node

/-- The nodes that have been added tell of entries: wherever they stand, a walk goes through the
entries and meets one of them after the other. -/
def Tells (before after : Array Node) (room : Nat) (entries : List Entry) : Prop :=
  ∃ added : List Node, after = before ++ added.toArray ∧
    ∀ nodes more, Includes nodes before.size added → room ≤ more →
      Faithful nodes more entries (List.range' before.size added.length)

section

variable {nodes before between after : Array Node} {room room' start : Nat}
  {added more : List Node} {entries entries' : List Entry}

theorem includes_cons_iff {node : Node} :
    Includes nodes start (node :: added) ↔ nodes[start]? = some node ∧ Includes nodes (start + 1) added := by
  constructor
  · intro h
    refine ⟨h 0 node rfl, fun i other hother => ?_⟩
    rw [Nat.add_right_comm]
    exact h (i + 1) other hother
  · rintro ⟨hnode, h⟩ (_ | i) other hother
    · obtain rfl := Option.some.inj hother
      exact hnode
    · have hnext := h i other hother
      rwa [Nat.add_right_comm] at hnext

theorem includes_append_iff :
    Includes nodes start (added ++ more) ↔
      Includes nodes start added ∧ Includes nodes (start + added.length) more := by
  induction added generalizing start with
  | nil => simp [Includes]
  | cons node added ih =>
    rw [List.cons_append, includes_cons_iff, includes_cons_iff, ih, and_assoc, List.length_cons,
      Nat.add_assoc, Nat.add_comm 1]

theorem includes_self (before : Array Node) (added : List Node) :
    Includes (before ++ added.toArray) before.size added := by
  intro i node hnode
  rw [Array.getElem?_append_right (Nat.le_add_right _ _), Nat.add_sub_cancel_left]
  simpa using hnode

namespace Tells

theorem nil (before : Array Node) : Tells before before 0 [] :=
  ⟨[], by simp, fun _ _ _ _ => .nil⟩

theorem plain {entry : Entry} (h : entry.isPlain = true) (before : Array Node) :
    Tells before before 0 [entry] :=
  ⟨[], by simp, fun _ _ _ _ => .plain h .nil⟩

theorem stub (id : String) (before : Array Node) (room : Nat) :
    Tells before before (room + 1) [.stub id] := by
  refine ⟨[], by simp, fun nodes more _ hroom => ?_⟩
  obtain ⟨less, rfl⟩ : ∃ less, more = less + 1 := ⟨more - 1, by omega⟩
  exact .stub .nil

theorem mono (h : Tells before after room entries) (hle : room ≤ room') :
    Tells before after room' entries := by
  obtain ⟨added, hafter, hwalk⟩ := h
  exact ⟨added, hafter, fun nodes more hincludes hroom => hwalk nodes more hincludes (hle.trans hroom)⟩

theorem append (h : Tells before between room entries) (h' : Tells between after room entries') :
    Tells before after room (entries ++ entries') := by
  obtain ⟨added, rfl, hwalk⟩ := h
  obtain ⟨added', rfl, hwalk'⟩ := h'
  refine ⟨added ++ added', by simp, fun nodes more hincludes hroom => ?_⟩
  obtain ⟨hfirst, hsecond⟩ := includes_append_iff.1 hincludes
  rw [Array.size_append, List.size_toArray] at hwalk'
  rw [List.length_append, ← List.range'_append_1]
  exact (hwalk nodes more hfirst hroom).append (hwalk' nodes more hsecond hroom)

theorem array (h : Tells before after room entries) :
    Tells before after (room + 1) [.array entries] := by
  obtain ⟨added, hafter, hwalk⟩ := h
  refine ⟨added, hafter, fun nodes more hincludes hroom => ?_⟩
  obtain ⟨less, rfl⟩ : ∃ less, more = less + 1 := ⟨more - 1, by omega⟩
  have hone := Faithful.array (hwalk nodes less hincludes (Nat.le_of_succ_le_succ hroom)) .nil
  rwa [List.append_nil] at hone

/-- The place that was taken for a node is filled when the nodes inside of it have been added. -/
theorem node {node : Node} (h : Tells (before.push .empty) after room node.entries.values)
    (hnode : node.Legible) :
    Tells before (after.setIfInBounds before.size node) (room + 1) [.node before.size] := by
  obtain ⟨added, rfl, hwalk⟩ := h
  -- the node comes first among those that have been added: its place was taken before theirs
  refine ⟨node :: added, ?_, fun nodes more hincludes hroom => ?_⟩
  · apply Array.ext'
    simp
  · obtain ⟨hfound, hinside⟩ := includes_cons_iff.1 hincludes
    obtain ⟨less, rfl⟩ : ∃ less, more = less + 1 := ⟨more - 1, by omega⟩
    rw [Array.size_push] at hwalk
    have hone := Faithful.node hfound hnode
      (hwalk nodes less hinside (Nat.le_of_succ_le_succ hroom)) .nil
    rwa [List.append_nil, ← List.range'_succ] at hone

end Tells

end

/-! ## Reading -/

theorem isPlain_intEntry {n : Int} (hlow : Int64.minValue.toInt ≤ n) (hhigh : n < UInt64.size) :
    (intEntry n).isPlain = true := by
  rw [intEntry]
  split
  · rfl
  · next hlarge =>
    -- beyond the signed integers a number has more bits than the mantissa of a double
    have hmany : 2 ^ 53 ≤ n := by
      have hmax : Int64.maxValue.toInt = 2 ^ 63 - 1 := by decide
      simp only [Bool.and_eq_true, decide_eq_true_eq, not_and, Int.not_le] at hlarge
      have hbeyond := hlarge hlow
      omega
    exact Number.isFinite_doubleOfInt hmany hhigh

section

variable {before after : Array Node} {entries : List Entry}

/-- What has been read tells of the entries that stand for values, with as much room as these need. -/
def ReadsTrue (json : Json) : Prop :=
  ∀ before entry after, (decode json).run before = .ok (entry, after) →
    Tells before after json.nesting [entry]

theorem tells_decodeItems {items : List Json} (hitems : ∀ item ∈ items, ReadsTrue item)
    (h : (decodeItems items).run before = .ok (entries, after)) :
    Tells before after (Json.nestingItems items) entries := by
  induction items generalizing before entries with
  | nil =>
    have hout := Except.ok.inj h
    rw [Prod.mk.injEq] at hout
    obtain ⟨rfl, rfl⟩ := hout
    exact .nil _
  | cons item items ih =>
    obtain ⟨entry, rest, between, hentry, hrest, rfl⟩ := run_decodeItems_cons h
    have hone := hitems item List.mem_cons_self before entry between hentry
    have hmore := ih (fun other hother => hitems other (List.mem_cons_of_mem _ hother)) hrest
    rw [Json.nestingItems]
    exact (hone.mono (Nat.le_max_left _ _)).append (hmore.mono (Nat.le_max_right _ _))

/-- The first of several members is passed over, or read and followed by the others. -/
theorem run_decodeMembers_cons {found table : Table Entry} {key : String} {value : Json}
    {members : List (String × Json)}
    (h : (decodeMembers found ((key, value) :: members)).run before = .ok (table, after)) :
    ((key = classKey ∨ key = idKey) ∧
      (decodeMembers found members).run before = .ok (table, after)) ∨
    (key ≠ classKey ∧ key ≠ idKey ∧ ∃ entry between, (decode value).run before = .ok (entry, between) ∧
      (decodeMembers (found.insert key entry) members).run between = .ok (table, after)) := by
  rw [decodeMembers] at h
  split at h
  · next hkey =>
    rw [Bool.or_eq_true, beq_iff_eq, beq_iff_eq] at hkey
    exact Or.inl ⟨hkey, h⟩
  · next hkey =>
    rw [Bool.or_eq_true, beq_iff_eq, beq_iff_eq, not_or] at hkey
    rw [StateT.run_bind] at h
    obtain ⟨⟨entry, between⟩, hentry, h⟩ := Registry.except_bind_eq_ok h
    exact Or.inr ⟨hkey.1, hkey.2, entry, between, hentry, h⟩

theorem tells_decodeMembers {members : List (String × Json)} {found table : Table Entry}
    (hmembers : ∀ member ∈ members, ReadsTrue member.2)
    (hnodup : (found.keys ++ members.map Prod.fst).Nodup)
    (h : (decodeMembers found members).run before = .ok (table, after)) :
    ∃ more, table.entries = found.entries ++ more ∧
      (∀ key ∈ more.map Prod.fst, key ∈ members.map Prod.fst ∧ key ≠ classKey ∧ key ≠ idKey) ∧
      Tells before after (Json.nestingMembers members) (more.map Prod.snd) := by
  induction members generalizing found before with
  | nil =>
    have hout := Except.ok.inj h
    rw [Prod.mk.injEq] at hout
    obtain ⟨rfl, rfl⟩ := hout
    exact ⟨[], by simp, by simp, .nil _⟩
  | cons member members ih =>
    obtain ⟨key, value⟩ := member
    have hlater : ∀ member ∈ members, ReadsTrue member.2 := fun member hmember =>
      hmembers member (List.mem_cons_of_mem _ hmember)
    rw [Json.nestingMembers]
    rcases run_decodeMembers_cons h with ⟨-, h⟩ | ⟨hclass, hid, entry, between, hentry, h⟩
    -- the class and the identifier are no entries, and add no nodes
    · have hrest : (found.keys ++ members.map Prod.fst).Nodup :=
        hnodup.sublist ((List.sublist_cons_self _ _).append_left _)
      obtain ⟨more, htable, hkeys, htells⟩ := ih hlater hrest h
      refine ⟨more, htable, fun other hother => ?_, htells.mono (Nat.le_max_right _ _)⟩
      exact ⟨List.mem_cons_of_mem _ (hkeys other hother).1, (hkeys other hother).2⟩
    -- the key is new, so its entry comes after those that have been found
    · have hfresh : key ∉ found.keys := fun hmem =>
        (List.nodup_append.1 hnodup).2.2 key hmem key List.mem_cons_self rfl
      have hinsert := found.entries_insert_of_not_mem entry hfresh
      obtain ⟨more, htable, hkeys, htells⟩ := ih hlater (by
        rw [Table.keys, hinsert, List.map_append, List.append_assoc]
        exact hnodup) h
      have hone := hmembers (key, value) List.mem_cons_self before entry between hentry
      refine ⟨(key, entry) :: more, ?_, fun other hother => ?_, ?_⟩
      · rw [htable, hinsert, List.append_assoc]
        rfl
      · rcases List.mem_cons.1 hother with rfl | hother
        · exact ⟨List.mem_cons_self, hclass, hid⟩
        · exact ⟨List.mem_cons_of_mem _ (hkeys other hother).1, (hkeys other hother).2⟩
      · exact (hone.mono (Nat.le_max_left _ _)).append (htells.mono (Nat.le_max_right _ _))

/-- An object that has been read is a stub, or a node whose place was taken before those inside of it
took theirs. -/
theorem run_decode_object {members : List (String × Json)} {entry : Entry}
    (h : (decode (.object members)).run before = .ok (entry, after)) :
    (∃ id, entry = .stub id ∧ after = before) ∨
    (Json.member? stubKey members = none ∧ ∃ className id table nodes,
      (decodeMembers .empty members).run (before.push .empty) = .ok (table, nodes) ∧
      entry = .node before.size ∧ after = nodes.setIfInBounds before.size ⟨className, id, table⟩) := by
  rw [decode] at h
  split at h
  · next id _ =>
    have hout := Except.ok.inj h
    rw [Prod.mk.injEq] at hout
    exact Or.inl ⟨id, hout.1.symm, hout.2.symm⟩
  · cases h
  · next hstub =>
    refine Or.inr ⟨hstub, ?_⟩
    cases hclass : textMember? classKey members with
    | error error =>
      rw [hclass] at h
      cases h
    | ok className =>
      cases hid : textMember? idKey members with
      | error error =>
        rw [hclass, hid] at h
        cases h
      | ok id =>
        rw [hclass, hid] at h
        change (do
          let found ← (decodeMembers .empty members).run (before.push .empty)
          return (Entry.node before.size,
            found.2.setIfInBounds before.size ⟨className, id, found.1⟩)) =
              Except.ok (entry, after) at h
        obtain ⟨⟨table, nodes⟩, htable, h⟩ := Registry.except_bind_eq_ok h
        have hout := Except.ok.inj h
        rw [Prod.mk.injEq] at hout
        exact ⟨className, id, table, nodes, htable, hout.1.symm, hout.2.symm⟩

/-- A value that stands for an entry without braces. -/
theorem readsTrue_of_plain {json : Json} {entry : Entry} (hplain : entry.isPlain = true)
    (hdecode : decode json = pure entry) : ReadsTrue json := by
  intro before found after h
  rw [hdecode] at h
  have hout := Except.ok.inj h
  rw [Prod.mk.injEq] at hout
  obtain ⟨rfl, rfl⟩ := hout
  exact (Tells.plain hplain before).mono (Nat.zero_le _)

/-- The nodes that have been added tell of the entry that a value has been read as. -/
theorem readsTrue_of_proper {json : Json} (hjson : json.Proper) : ReadsTrue json := by
  -- along the value; the nodes that are there before do not matter
  induction hjson with
  | null => exact readsTrue_of_plain (show Entry.isPlain .null = true from rfl) (by rw [decode])
  | @bool b => exact readsTrue_of_plain (show (Entry.bool b).isPlain = true from rfl) (by rw [decode])
  | integer hlow hhigh => exact readsTrue_of_plain (isPlain_intEntry hlow hhigh) (by rw [decode])
  | @double x hfinite =>
    exact readsTrue_of_plain (show (Entry.double x).isPlain = true from hfinite) (by rw [decode])
  | @string text =>
    exact readsTrue_of_plain (show (Entry.string text).isPlain = true from rfl) (by rw [decode])
  | array _ ih =>
    intro before entry after h
    rw [decode, StateT.run_bind] at h
    obtain ⟨⟨entries, nodes⟩, hitems, h⟩ := Registry.except_bind_eq_ok h
    have hout := Except.ok.inj h
    rw [Prod.mk.injEq] at hout
    obtain ⟨rfl, rfl⟩ := hout
    rw [Json.nesting]
    exact (tells_decodeItems ih hitems).array
  | @object members hnodup _ ih =>
    intro before entry after h
    rw [Json.nesting]
    obtain ⟨id, rfl, rfl⟩ | ⟨hstub, className, id, table, nodes, htable, rfl, rfl⟩ :=
      run_decode_object h
    · exact .stub id _ _
    · obtain ⟨more, hentries, hkeys, htells⟩ := tells_decodeMembers ih (by simpa using hnodup) htable
      obtain rfl : table.entries = more := by simpa [Table.empty] using hentries
      -- the keys of a class and an identifier were passed over, and that of a stub is not there
      refine Tells.node htells ⟨fun h => ?_, fun h => ?_, fun h => ?_⟩
      · exact (hkeys _ h).2.1 rfl
      · exact (hkeys _ h).2.2 rfl
      · obtain ⟨member, hmember, hkey⟩ := List.mem_map.1 (hkeys _ h).1
        have hother := List.lookup_eq_none_iff.1 hstub member hmember
        simp [hkey] at hother

end

/-- The shape of what has been read: the nodes are a tree, and are numbered in the order in which a walk
from the root meets them; no entry has the key of a class, of an identifier or of a stub. -/
structure Normal (s : Snapshot) : Prop where
  /-- Each node stands in one place, and nothing else stands where a node should. -/
  once : ∀ i, (Entry.positionsOf s.allEntries).count i = if i < s.nodes.size then 1 else 0
  /-- A walk from the root meets the nodes one after the other. -/
  preorder : ∃ room, Visits s.nodes room [s.root] (List.range s.nodes.size)
  /-- The keys of the entries have no meaning of their own for a node. -/
  keys : ∀ node ∈ s.nodes, node.Legible

/-- The walk through all of what has been read. -/
theorem faithful_of_ofJson {json : Json} (hjson : json.Proper) {s : Snapshot}
    (h : ofJson json = .ok s) :
    Faithful s.nodes json.nesting [s.root] (List.range s.nodes.size) := by
  obtain ⟨⟨root, nodes⟩, hroot, hs⟩ := Registry.except_bind_eq_ok h
  obtain rfl := Except.ok.inj hs
  obtain ⟨added, rfl, hwalk⟩ := readsTrue_of_proper hjson #[] root nodes hroot
  have hwhole := hwalk _ _ (includes_self #[] added) (Nat.le_refl _)
  simpa [List.range_eq_range'] using hwhole

/-- Every node of what has been read is shown as it is. -/
theorem legible_of_faithful {s : Snapshot} {room : Nat}
    (h : Faithful s.nodes room [s.root] (List.range s.nodes.size)) :
    (∀ (i : Nat) (node : Node), s.nodes[i]? = some node → node.Legible) ∧ s.legible = s := by
  obtain ⟨hroot, hnodes⟩ := h.legible
  have hfound : ∀ (i : Nat) (node : Node), s.nodes[i]? = some node →
      node.Legible ∧ node.legible = node := by
    intro i node hnode
    obtain ⟨hlt, -⟩ := Array.getElem?_eq_some_iff.1 hnode
    obtain ⟨found, hfound, hlegible⟩ := hnodes i (List.mem_range.2 hlt)
    obtain rfl := Option.some.inj (hnode.symm.trans hfound)
    exact hlegible
  refine ⟨fun i node hnode => (hfound i node hnode).1, ?_⟩
  obtain ⟨nodes, root⟩ := s
  refine (Snapshot.mk.injEq _ _ _ _).mpr ⟨?_, List.head_eq_of_cons_eq hroot⟩
  apply Array.ext
  · simp
  · intro i hi hi'
    simpa using (hfound i nodes[i] (Array.getElem?_eq_getElem hi')).2

/-- **Writing what has been read.** A JSON value that nests no more containers than are read back, and
that stands for a snapshot, need not be the text of this snapshot; but the snapshot has a text, which
nests no more containers than are read back, and from which just this snapshot is read. Its nodes are a
tree that is numbered as a walk from the root meets them, and their keys leave room for what stands in
front of the entries. -/
theorem toJson_ofJson {json : Json} (hjson : json.Proper) (hnesting : json.nesting ≤ Json.maxTextNesting)
    {s : Snapshot} (h : ofJson json = .ok s) :
    (∃ text, s.toJson = .ok text ∧ text.nesting ≤ Json.maxTextNesting ∧ ofJson text = .ok s) ∧
      s.Normal := by
  have hwalk := faithful_of_ofJson hjson h
  obtain ⟨hnodes, hlegible⟩ := legible_of_faithful hwalk
  obtain ⟨text, htext, hfits⟩ := hwalk.exists_toJson hnesting
  have hback := ofJson_of_visits hnodes hwalk.visits htext
  rw [hlegible] at hback
  refine ⟨⟨text, htext, hfits.trans hnesting, hback⟩, once_of_visits hwalk.visits, ⟨_, hwalk.visits⟩, ?_⟩
  intro node hnode
  obtain ⟨i, hi⟩ := Array.mem_iff_getElem?.1 hnode
  exact hnodes i node hi

/-- A stub with an object beside its key, and an object that tells of its class after an integer of 64
bits without sign. -/
def jsonBeside : Json :=
  .array [.object [("x", .object []), ("__stub__", .string "1")],
    .object [("b", .integer 9223372036854775808), ("__id__", .string "1"), ("__class__", .string "W")]]

/-- The object beside the stub is dropped, the class moves to the front, and the integer becomes a
double; then nothing changes any more. -/
theorem toJson_ofJson_beside :
    jsonBeside.Proper ∧ jsonBeside.nesting ≤ Json.maxTextNesting ∧
    ∃ s, ofJson jsonBeside = .ok s ∧
      s = ⟨#[⟨some "W", some "1", ⟨[("b", .double (.ofBits 0x43e0000000000000))], by decide⟩⟩],
        .array [.stub "1", .node 0]⟩ ∧
      (∃ text, s.toJson = .ok text ∧ text.nesting ≤ Json.maxTextNesting ∧ ofJson text = .ok s) ∧
      s.Normal := by
  have hproper : jsonBeside.Proper := by
    refine .array fun item hitem => ?_
    fin_cases hitem
    · refine .object (by decide) fun member hmember => ?_
      fin_cases hmember
      · exact .object (by decide) (by simp)
      · exact .string
    · refine .object (by decide) fun member hmember => ?_
      fin_cases hmember
      · exact .integer (by decide) (by decide)
      · exact .string
      · exact .string
  have hnesting : jsonBeside.nesting ≤ Json.maxTextNesting := by decide
  have hread : ofJson jsonBeside = .ok ⟨#[⟨some "W", some "1",
      ⟨[("b", .double (.ofBits 0x43e0000000000000))], by decide⟩⟩], .array [.stub "1", .node 0]⟩ := rfl
  exact ⟨hproper, hnesting, _, hread, rfl, toJson_ofJson hproper hnesting hread⟩

end Snapshot

end ScriptBridge
