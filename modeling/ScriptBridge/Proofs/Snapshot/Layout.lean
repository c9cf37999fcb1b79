import ScriptBridge.Snapshot.Basic
import Mathlib.Data.List.Perm.Basic
import Mathlib.Data.List.Count
import Mathlib.Data.List.Nodup

/-!
# The Layout of Snapshots

The nodes of a snapshot are numbered as one meets them on a walk from the root that looks at the
entries of a node before it goes on behind it. `Visits` describes such a walk, by the positions of
the nodes in the order in which they are met, with the number of nested containers that it needs.

Main statements: `Visits.count_positions` (a walk that meets each node once has seen every place
where a node stands), `Visits.perm` (what another order of the entries does to a walk),
`Visits.mem_iff_reached` and `Visits.nodup` (a walk from the root meets what one comes to, and in a
tree it meets it once).
-/

namespace ScriptBridge.Snapshot

/-! ## What Stands in an Entry -/

namespace Entry

/-- Whether nothing lies inside of an entry. -/
def isLeaf : Entry → Bool
  | array _ => false
  | node _ => false
  | _ => true

mutual

/-- The positions of the nodes that stand in an entry, from left to right. -/
def positions : Entry → List Nat
  | node index => [index]
  | array items => positionsOf items
  | _ => []

/-- The positions of the nodes that stand in a list of entries. -/
def positionsOf : List Entry → List Nat
  | [] => []
  | entry :: entries => positions entry ++ positionsOf entries

end

mutual

/-- The identifiers of the stubs that stand in an entry, from left to right. -/
def stubs : Entry → List String
  | stub id => [id]
  | array items => stubsOf items
  | _ => []

/-- The identifiers of the stubs that stand in a list of entries. -/
def stubsOf : List Entry → List String
  | [] => []
  | entry :: entries => stubs entry ++ stubsOf entries

end

theorem positions_of_isLeaf {entry : Entry} (hleaf : entry.isLeaf = true) :
    entry.positions = [] := by
  cases entry with
  | array => simp [isLeaf] at hleaf
  | node => simp [isLeaf] at hleaf
  | _ => simp [positions]

@[simp] theorem positionsOf_append (entries more : List Entry) :
    positionsOf (entries ++ more) = positionsOf entries ++ positionsOf more := by
  induction entries with
  | nil => simp [positionsOf]
  | cons entry entries ih => simp [positionsOf, ih]

@[simp] theorem stubsOf_append (entries more : List Entry) :
    stubsOf (entries ++ more) = stubsOf entries ++ stubsOf more := by
  induction entries with
  | nil => simp [stubsOf]
  | cons entry entries ih => simp [stubsOf, ih]

theorem mem_positionsOf_iff {entries : List Entry} {i : Nat} :
    i ∈ positionsOf entries ↔ ∃ entry ∈ entries, i ∈ positions entry := by
  induction entries with
  | nil => simp [positionsOf]
  | cons entry entries ih => simp [positionsOf, ih]

theorem mem_stubsOf_iff {entries : List Entry} {id : String} :
    id ∈ stubsOf entries ↔ ∃ entry ∈ entries, id ∈ stubs entry := by
  induction entries with
  | nil => simp [stubsOf]
  | cons entry entries ih => simp [stubsOf, ih]

end Entry

/-! ## Walks -/

/-- A walk through entries and through the nodes that stand in them, with room for so many nested
containers, that meets the nodes at the given positions one after the other. -/
inductive Visits (nodes : Array Node) : Nat → List Entry → List Nat → Prop
  | nil {room : Nat} : Visits nodes room [] []
  | leaf {room : Nat} {entry : Entry} {entries : List Entry} {after : List Nat} :
      entry.isLeaf = true → Visits nodes room entries after →
      Visits nodes room (entry :: entries) after
  | array {room : Nat} {items entries : List Entry} {inside after : List Nat} :
      Visits nodes room items inside → Visits nodes (room + 1) entries after →
      Visits nodes (room + 1) (.array items :: entries) (inside ++ after)
  | node {room index : Nat} {node : Node} {entries : List Entry} {inside after : List Nat} :
      nodes[index]? = some node → Visits nodes room node.entries.values inside →
      Visits nodes (room + 1) entries after →
      Visits nodes (room + 1) (.node index :: entries) (index :: (inside ++ after))

/-- The positions of the nodes that stand in the entries of a node. -/
def positionsIn (nodes : Array Node) (index : Nat) : List Nat :=
  nodes[index]?.elim [] fun node => Entry.positionsOf node.entries.values

namespace Visits

variable {nodes : Array Node} {room : Nat}

theorem append {entries more : List Entry} {before after : List Nat}
    (h : Visits nodes room entries before) (h' : Visits nodes room more after) :
    Visits nodes room (entries ++ more) (before ++ after) := by
  induction h with
  | nil => exact h'
  | leaf hleaf _ ih => exact .leaf hleaf (ih h')
  | array hitems _ _ ih =>
    rw [List.append_assoc]
    exact .array hitems (ih h')
  | node hnode hvalues _ _ ih =>
    rw [List.cons_append, List.cons_append, List.append_assoc]
    exact .node hnode hvalues (ih h')

theorem cons_inv {entry : Entry} {entries : List Entry} {positions : List Nat}
    (h : Visits nodes room (entry :: entries) positions) :
    ∃ inside after, positions = inside ++ after ∧ Visits nodes room [entry] inside ∧
      Visits nodes room entries after := by
  cases h with
  | leaf hleaf hrest => exact ⟨[], _, rfl, .leaf hleaf .nil, hrest⟩
  | @array room _ _ inside after hitems hrest =>
    have hone : Visits nodes (room + 1) [.array _] (inside ++ []) := .array hitems .nil
    rw [List.append_nil] at hone
    exact ⟨inside, after, rfl, hone, hrest⟩
  | @node room index _ _ inside after hnode hvalues hrest =>
    have hone : Visits nodes (room + 1) [.node index] (index :: (inside ++ [])) :=
      .node hnode hvalues .nil
    rw [List.append_nil] at hone
    exact ⟨index :: inside, after, rfl, hone, hrest⟩

/-- A walk depends on the entries of the nodes that it meets only. -/
theorem congr {nodes' : Array Node} {entries : List Entry} {positions : List Nat}
    (h : Visits nodes room entries positions)
    (hsame : ∀ i ∈ positions, ∀ node, nodes[i]? = some node →
      ∃ node', nodes'[i]? = some node' ∧ node'.entries = node.entries) :
    Visits nodes' room entries positions := by
  induction h with
  | nil => exact .nil
  | leaf hleaf _ ih => exact .leaf hleaf (ih hsame)
  | array _ _ ihitems ihrest =>
    refine .array (ihitems fun i hi => hsame i ?_) (ihrest fun i hi => hsame i ?_)
    · exact List.mem_append_left _ hi
    · exact List.mem_append_right _ hi
  | @node room index node entries inside after hnode _ _ ihvalues ihrest =>
    obtain ⟨node', hnode', hentries⟩ := hsame index List.mem_cons_self node hnode
    have hvalues := ihvalues fun i hi =>
      hsame i (List.mem_cons_of_mem _ (List.mem_append_left _ hi))
    have hrest := ihrest fun i hi => hsame i (List.mem_cons_of_mem _ (List.mem_append_right _ hi))
    rw [← hentries] at hvalues
    exact .node hnode' hvalues hrest

/-- In another order the same entries lead to the same nodes. -/
theorem perm {entries entries' : List Entry} (hperm : entries.Perm entries')
    {positions : List Nat} (h : Visits nodes room entries positions) :
    ∃ positions', positions'.Perm positions ∧ Visits nodes room entries' positions' := by
  induction hperm generalizing positions with
  | nil => exact ⟨positions, List.Perm.refl _, h⟩
  | cons entry _ ih =>
    obtain ⟨inside, after, rfl, hone, hrest⟩ := h.cons_inv
    obtain ⟨after', hafter, hrest'⟩ := ih hrest
    exact ⟨inside ++ after', hafter.append_left inside, hone.append hrest'⟩
  | swap first second rest =>
    obtain ⟨inside, after, rfl, hone, hmore⟩ := h.cons_inv
    obtain ⟨inside', after', rfl, htwo, hrest⟩ := hmore.cons_inv
    refine ⟨inside' ++ (inside ++ after'), ?_, htwo.append (hone.append hrest)⟩
    rw [← List.append_assoc, ← List.append_assoc]
    exact List.perm_append_comm.append_right after'
  | trans _ _ ih ih' =>
    obtain ⟨middle, hmiddle, h'⟩ := ih h
    obtain ⟨last, hlast, h''⟩ := ih' h'
    exact ⟨last, hlast.trans hmiddle, h''⟩

/-- Every place where a node stands has been seen by a walk when it is over: at its start, or in the
entries of a node that was met. -/
theorem count_positions {entries : List Entry} {met : List Nat}
    (h : Visits nodes room entries met) (i : Nat) :
    met.count i = (Entry.positionsOf entries).count i +
      (met.flatMap (positionsIn nodes)).count i := by
  induction h with
  | nil => rfl
  | leaf hleaf _ ih => rw [Entry.positionsOf, Entry.positions_of_isLeaf hleaf, List.nil_append, ih]
  | array _ _ ihitems ihrest =>
    rw [Entry.positionsOf, Entry.positions, List.flatMap_append]
    simp only [List.count_append]
    omega
  | @node room index node entries inside after hnode _ _ ihvalues ihrest =>
    have hin : positionsIn nodes index = Entry.positionsOf node.entries.values := by
      rw [positionsIn, hnode, Option.elim_some]
    rw [Entry.positionsOf, Entry.positions, List.flatMap_cons, List.flatMap_append, hin]
    simp only [List.count_append, List.count_cons, List.count_nil]
    omega

end Visits

/-- The root and the entries of all nodes. -/
def allEntries (s : Snapshot) : List Entry :=
  s.root :: s.nodes.toList.flatMap fun node => node.entries.values

/-! ## What One Comes To -/

/-- The nodes that one comes to from the root. -/
inductive Reached (s : Snapshot) : Nat → Prop
  | root {i : Nat} : i ∈ s.root.positions → Reached s i
  | inside {i j : Nat} {node : Node} : Reached s j → s.nodes[j]? = some node →
      i ∈ Entry.positionsOf node.entries.values → Reached s i

/-- A stub with the identifier stands where one comes to from the root. -/
def Names (s : Snapshot) (id : String) : Prop :=
  id ∈ s.root.stubs ∨
    ∃ i node, s.Reached i ∧ s.nodes[i]? = some node ∧ id ∈ Entry.stubsOf node.entries.values

theorem Visits.reached {s : Snapshot} {room : Nat} {entries : List Entry} {met : List Nat}
    (h : Visits s.nodes room entries met)
    (hentries : ∀ i ∈ Entry.positionsOf entries, s.Reached i) : ∀ i ∈ met, s.Reached i := by
  induction h with
  | nil => simp
  | leaf _ _ ih => exact ih fun i hi => hentries i (List.mem_append_right _ hi)
  | array _ _ ihitems ihrest =>
    intro i hi
    rcases List.mem_append.1 hi with hi | hi
    · exact ihitems (fun k hk => hentries k (List.mem_append_left _ hk)) i hi
    · exact ihrest (fun k hk => hentries k (List.mem_append_right _ hk)) i hi
  | @node room index node entries inside after hnode _ _ ihvalues ihrest =>
    have hindex : s.Reached index := hentries index (List.mem_append_left _ List.mem_cons_self)
    intro i hi
    rcases List.mem_cons.1 hi with rfl | hi
    · exact hindex
    · rcases List.mem_append.1 hi with hi | hi
      · exact ihvalues (fun k hk => .inside hindex hnode hk) i hi
      · exact ihrest (fun k hk => hentries k (List.mem_append_right _ hk)) i hi

/-- A walk from the root meets the nodes that one comes to. -/
theorem Visits.mem_iff_reached {s : Snapshot} {room : Nat} {met : List Nat}
    (h : Visits s.nodes room [s.root] met) (i : Nat) : i ∈ met ↔ s.Reached i := by
  have hroot : Entry.positionsOf [s.root] = s.root.positions := by simp [Entry.positionsOf]
  constructor
  · exact h.reached (by rw [hroot]; exact fun k hk => .root hk) i
  · intro hi
    have hcount := h.count_positions i
    rw [← List.count_pos_iff, hcount]
    induction hi with
    | @root i hi =>
      rw [hroot]
      exact Nat.lt_of_lt_of_le (List.count_pos_iff.2 hi) (Nat.le_add_right _ _)
    | @inside i j node _ hnode hi ih =>
      have hj : j ∈ met := List.count_pos_iff.1 (h.count_positions j ▸ ih (h.count_positions j))
      have hin : i ∈ positionsIn s.nodes j := by rwa [positionsIn, hnode, Option.elim_some]
      have hflat : i ∈ met.flatMap (positionsIn s.nodes) := List.mem_flatMap.2 ⟨j, hj, hin⟩
      exact Nat.lt_of_lt_of_le (List.count_pos_iff.2 hflat) (Nat.le_add_left _ _)

theorem Names.mem_stubsOf {s : Snapshot} {id : String} (h : s.Names id) :
    id ∈ Entry.stubsOf s.allEntries := by
  rcases h with hroot | ⟨i, node, -, hnode, hid⟩
  · exact List.mem_append_left _ hroot
  · obtain ⟨entry, hentry, hid⟩ := Entry.mem_stubsOf_iff.1 hid
    refine Entry.mem_stubsOf_iff.2 ⟨entry, List.mem_cons_of_mem _ ?_, hid⟩
    exact List.mem_flatMap.2 ⟨node, Array.mem_toList_iff.2 (Array.mem_of_getElem? hnode), hentry⟩

/-! ## Keys -/

theorem functionName?_functionKey (name : String) : functionName? (functionKey name) = some name := by
  have hlist : (functionKey name).toList.reverse = ')' :: '(' :: name.toList.reverse := by
    rw [functionKey, functionMark, String.toList_append, List.reverse_append]
    rfl
  simp only [functionName?, hlist, List.reverse_reverse, String.ofList_toList]

theorem functionKey_injective {name other : String} (h : functionKey name = functionKey other) :
    name = other := by
  have hname := functionName?_functionKey name
  rw [h, functionName?_functionKey] at hname
  exact (Option.some.inj hname).symm

/-- A key without a meaning of its own. -/
theorem isReserved_eq_false_iff {key : String} :
    isReserved key = false ↔
      key ≠ classKey ∧ key ≠ idKey ∧ key ≠ stubKey ∧ functionName? key = none := by
  simp [isReserved, and_assoc]

theorem isReserved_functionKey (name : String) : isReserved (functionKey name) = true := by
  simp [isReserved, functionName?_functionKey]

theorem functionKey_ne {key : String} (hkey : functionName? key = none) (name : String) :
    functionKey name ≠ key := by
  intro h
  rw [← h, functionName?_functionKey] at hkey
  simp at hkey

/-! ## Orderly Snapshots -/

/-- The identifier that the node at a position carries. -/
def idAt? (nodes : Array Node) (index : Nat) : Option String := nodes[index]?.bind Node.id

/-- The shape of a snapshot that has been made from a graph, with room for so many nested
containers. -/
structure Orderly (s : Snapshot) (room : Nat) : Prop where
  /-- Each node stands in one place, and nothing else stands where a node should. -/
  once : ∀ i, (Entry.positionsOf s.allEntries).count i = if i < s.nodes.size then 1 else 0
  /-- The nodes are numbered in the order in which a walk from the root meets them. -/
  preorder : Visits s.nodes room [s.root] (List.range s.nodes.size)
  /-- No two nodes carry the same identifier. -/
  distinct : ∀ i j id, idAt? s.nodes i = some id → idAt? s.nodes j = some id → i = j
  /-- The identifiers that nodes carry are the ones that stubs name. -/
  named : ∀ id, id ∈ Entry.stubsOf s.allEntries ↔ ∃ i, idAt? s.nodes i = some id
  /-- No key has a meaning of its own, except that the source of a function may be kept. -/
  keys : ∀ node ∈ s.nodes, ∀ key entry, (key, entry) ∈ node.entries.entries →
    key ≠ classKey ∧ key ≠ idKey ∧ key ≠ stubKey ∧
      ∀ name, key = functionKey name → ∃ text, entry = .string text

/-- The nodes of a row stand where the walks below its positions find them. -/
theorem flatMap_positionsIn (nodes : Array Node) :
    (List.range nodes.size).flatMap (positionsIn nodes) =
      Entry.positionsOf (nodes.toList.flatMap fun node => node.entries.values) := by
  have hflat : ∀ rest : List Node, Entry.positionsOf (rest.flatMap fun node => node.entries.values) =
      rest.flatMap fun node => Entry.positionsOf node.entries.values := by
    intro rest
    induction rest with
    | nil => rfl
    | cons node rest ih => rw [List.flatMap_cons, Entry.positionsOf_append, ih, List.flatMap_cons]
  have hmap : (List.range nodes.size).map (positionsIn nodes) =
      nodes.toList.map fun node => Entry.positionsOf node.entries.values := by
    apply List.ext_getElem
    · simp
    · intro i hi hi'
      simp only [List.length_map, List.length_range] at hi
      simp [positionsIn, Array.getElem?_eq_getElem hi]
  rw [hflat, List.flatMap_def, List.flatMap_def, hmap]

/-- The walk from the root sees every place where a node stands. -/
theorem once_of_visits {s : Snapshot} {room : Nat}
    (h : Visits s.nodes room [s.root] (List.range s.nodes.size)) (i : Nat) :
    (Entry.positionsOf s.allEntries).count i = if i < s.nodes.size then 1 else 0 := by
  have hcount := h.count_positions i
  rw [flatMap_positionsIn, ← List.count_append, ← Entry.positionsOf_append] at hcount
  rw [allEntries, ← List.singleton_append, ← hcount]
  by_cases hi : i < s.nodes.size
  · rw [if_pos hi, List.count_eq_one_of_mem List.nodup_range (List.mem_range.2 hi)]
  · rw [if_neg hi, List.count_eq_zero_of_not_mem (fun hm => hi (List.mem_range.1 hm))]

/-! ## Trees -/

/-- Each node stands in one place at most. -/
def Once (s : Snapshot) : Prop := ∀ i, (Entry.positionsOf s.allEntries).count i ≤ 1

/-- The places where a node stands are in the root or in the entries of a node. -/
theorem count_positionsOf_allEntries (s : Snapshot) (i : Nat) :
    (Entry.positionsOf s.allEntries).count i = s.root.positions.count i +
      ((List.range s.nodes.size).flatMap (positionsIn s.nodes)).count i := by
  rw [flatMap_positionsIn, ← List.count_append]
  rfl

/-- What occurs once in all, occurs in one part only. -/
theorem count_of_count_flatMap_le_one {f : Nat → List Nat} {l : List Nat} (hl : l.Nodup) {i j : Nat}
    (hone : (l.flatMap f).count i ≤ 1) (hj : j ∈ l) (hi : i ∈ f j) :
    ∀ k ∈ l, (f k).count i = if k = j then 1 else 0 := by
  induction l with
  | nil => simp at hj
  | cons a l ih =>
    rw [List.nodup_cons] at hl
    rw [List.flatMap_cons, List.count_append] at hone
    have hrest : ∀ k ∈ l, i ∈ f k → 0 < (l.flatMap f).count i := fun k hk hik =>
      List.count_pos_iff.2 (List.mem_flatMap.2 ⟨k, hk, hik⟩)
    have hhere := List.count_pos_iff.2 hi
    intro k hk
    rcases List.mem_cons.1 hj with rfl | hlater
    -- the part comes first, and the others are empty of it
    · rcases List.mem_cons.1 hk with rfl | hk
      · rw [if_pos rfl]
        omega
      · rw [if_neg fun e : k = j => hl.1 (e ▸ hk), List.count_eq_zero]
        intro hik
        have hmore := hrest k hk hik
        omega
    · have hmore := hrest j hlater hi
      rcases List.mem_cons.1 hk with rfl | hk
      · rw [if_neg fun e : k = j => hl.1 (e ▸ hlater)]
        omega
      · exact ih hl.2 (by omega) hlater k hk

theorem positionsIn_eq_nil {nodes : Array Node} {k : Nat} (hk : k ∉ List.range nodes.size) :
    positionsIn nodes k = [] := by
  rw [List.mem_range] at hk
  rw [positionsIn, Array.getElem?_eq_none (Nat.le_of_not_lt hk), Option.elim_none]

theorem mem_range_of_mem_positionsIn {nodes : Array Node} {i k : Nat}
    (hi : i ∈ positionsIn nodes k) : k ∈ List.range nodes.size := by
  by_contra hk
  rw [positionsIn_eq_nil hk] at hi
  simp at hi

/-- A node that stands in the entries of a node stands in those of no other one. -/
theorem count_flatMap_positionsIn {s : Snapshot} (hs : s.Once) {i j : Nat}
    (hi : i ∈ positionsIn s.nodes j) (met : List Nat) :
    (met.flatMap (positionsIn s.nodes)).count i = met.count j := by
  have hone : ((List.range s.nodes.size).flatMap (positionsIn s.nodes)).count i ≤ 1 := by
    have hcount := hs i
    rw [count_positionsOf_allEntries] at hcount
    omega
  have hj := mem_range_of_mem_positionsIn hi
  have hparts : ∀ k, (positionsIn s.nodes k).count i = if k = j then 1 else 0 := by
    intro k
    by_cases hk : k ∈ List.range s.nodes.size
    · exact count_of_count_flatMap_le_one List.nodup_range hone hj hi k hk
    · rw [positionsIn_eq_nil hk, if_neg fun e : k = j => hk (e ▸ hj), List.count_nil]
  induction met with
  | nil => rfl
  | cons k met ih =>
    rw [List.flatMap_cons, List.count_append, hparts, ih, List.count_cons]
    by_cases hk : k = j
    · simp [hk, Nat.add_comm]
    · simp [hk]

/-- A walk from the root through a tree meets each node once. -/
theorem Visits.nodup {s : Snapshot} {room : Nat} {met : List Nat}
    (h : Visits s.nodes room [s.root] met) (hs : s.Once) : met.Nodup := by
  have hroot : Entry.positionsOf [s.root] = s.root.positions := by simp [Entry.positionsOf]
  have hreached : ∀ i, s.Reached i → met.count i ≤ 1 := by
    intro i hi
    induction hi with
    | @root i hi =>
      have hplaces := hs i
      rw [count_positionsOf_allEntries] at hplaces
      have hpos := List.count_pos_iff.2 hi
      -- it stands in the root, so it stands in no node
      have hnone : (met.flatMap (positionsIn s.nodes)).count i = 0 := by
        rw [List.count_eq_zero, List.mem_flatMap]
        rintro ⟨k, -, hik⟩
        have hmore := List.count_pos_iff.2
          (List.mem_flatMap.2 ⟨k, mem_range_of_mem_positionsIn hik, hik⟩)
        omega
      rw [h.count_positions, hroot]
      omega
    | @inside i j node _ hnode hi ih =>
      have hplaces := hs i
      rw [count_positionsOf_allEntries] at hplaces
      have hin : i ∈ positionsIn s.nodes j := by rwa [positionsIn, hnode, Option.elim_some]
      have hmore := List.count_pos_iff.2
        (List.mem_flatMap.2 ⟨j, mem_range_of_mem_positionsIn hin, hin⟩)
      -- it stands in one node only, so it is met as often as that node
      rw [h.count_positions, hroot, count_flatMap_positionsIn hs hin]
      omega
  rw [List.nodup_iff_count_le_one]
  intro i
  by_cases hi : i ∈ met
  · exact hreached i ((h.mem_iff_reached i).1 hi)
  · rw [List.count_eq_zero_of_not_mem hi]
    exact Nat.zero_le 1

end ScriptBridge.Snapshot
