import ScriptBridge.Proofs.Snapshot.ReadBack

/-!
# How Deep Texts Nest

The writer gives up on an array or a node for which there is no room, so the containers of a text
are counted on the way down. A stub is a container, too, but it is written wherever it is met:
where the room has run out, the text nests one container more than is read back.

Main statement: `toJson_nesting`.
-/

namespace ScriptBridge

namespace Json

theorem lt_nestingItems {n : Nat} {items : List Json} :
    n < nestingItems items ↔ ∃ item ∈ items, n < item.nesting := by
  induction items with
  | nil => simp [nestingItems]
  | cons item items ih => rw [nestingItems, lt_max_iff, ih, List.exists_mem_cons_iff]

theorem le_nestingItems {items : List Json} {item : Json} (h : item ∈ items) :
    item.nesting ≤ nestingItems items :=
  Nat.le_of_not_lt fun hlt => Nat.lt_irrefl _ (lt_nestingItems.2 ⟨item, h, hlt⟩)

theorem lt_nestingMembers {n : Nat} {members : List (String × Json)} :
    n < nestingMembers members ↔ ∃ member ∈ members, n < member.2.nesting := by
  induction members with
  | nil => simp [nestingMembers]
  | cons member members ih => rw [nestingMembers, lt_max_iff, ih, List.exists_mem_cons_iff]

theorem le_nestingMembers {members : List (String × Json)} {member : String × Json}
    (h : member ∈ members) : member.2.nesting ≤ nestingMembers members :=
  Nat.le_of_not_lt fun hlt => Nat.lt_irrefl _ (lt_nestingMembers.2 ⟨member, h, hlt⟩)

end Json

namespace Snapshot

/-! ## Entries inside of Entries -/

/-- Whether an entry is written as a container. -/
def Entry.isContainer : Entry → Bool
  | .array _ | .node _ | .stub _ => true
  | _ => false

/-- An entry stands in another one, as an item or in the node that this refers to. -/
inductive Inside (s : Snapshot) : Entry → Entry → Prop
  | item {items : List Entry} {e : Entry} : e ∈ items → Inside s (.array items) e
  | entry {index : Nat} {node : Node} {key : String} {e : Entry} :
      s.nodes[index]? = some node → (key, e) ∈ node.entries.entries → Inside s (.node index) e

/-- An entry lies in another one, behind a number of arrays and nodes. -/
inductive Nested (s : Snapshot) : Nat → Entry → Entry → Prop
  | here {e : Entry} : Nested s 0 e e
  | inside {n : Nat} {e e₁ e₂ : Entry} : Inside s e e₁ → Nested s n e₁ e₂ → Nested s (n + 1) e e₂

/-! ## What has been written -/

theorem exists_of_mapM_eq_ok {ε α β : Type} {f : α → Except ε β} {xs : List α} {ys : List β}
    (h : xs.mapM f = .ok ys) :
    (∀ x ∈ xs, ∃ y ∈ ys, f x = .ok y) ∧ ∀ y ∈ ys, ∃ x ∈ xs, f x = .ok y := by
  induction xs generalizing ys with
  | nil =>
    obtain rfl := Except.ok.inj h
    simp
  | cons x xs ih =>
    obtain ⟨y, ys, hy, hys, rfl⟩ := mapM_cons_eq_ok h
    obtain ⟨hleft, hright⟩ := ih hys
    constructor
    · intro a ha
      rcases List.mem_cons.1 ha with rfl | ha
      · exact ⟨y, List.mem_cons_self, hy⟩
      · obtain ⟨b, hb, hab⟩ := hleft a ha
        exact ⟨b, List.mem_cons_of_mem _ hb, hab⟩
    · intro b hb
      rcases List.mem_cons.1 hb with rfl | hb
      · exact ⟨x, List.mem_cons_self, hy⟩
      · obtain ⟨a, ha, hab⟩ := hright b hb
        exact ⟨a, List.mem_cons_of_mem _ ha, hab⟩

section

variable {ε : Type} {inner : Entry → Except ε Json} {entries : List (String × Entry)}
  {members out : List (String × Json)}

/-- The first of several entries, and the others. -/
theorem foldlM_cons_eq_ok {key : String} {e : Entry}
    (h : ((key, e) :: entries).foldlM (fun members (key, entry) =>
      return insertEntry key (← inner entry) members) members = .ok out) :
    ∃ value, inner e = .ok value ∧
      entries.foldlM (fun members (key, entry) =>
        return insertEntry key (← inner entry) members) (insertEntry key value members) =
          .ok out := by
  rw [List.foldlM_cons] at h
  obtain ⟨more, hmore, h⟩ := Registry.except_bind_eq_ok h
  obtain ⟨value, hvalue, hmore⟩ := Registry.except_bind_eq_ok hmore
  obtain rfl := Except.ok.inj hmore
  exact ⟨value, hvalue, h⟩

/-- Each member was there, or is what has been written for an entry. -/
theorem mem_foldlM (h : entries.foldlM (fun members (key, entry) =>
      return insertEntry key (← inner entry) members) members = .ok out) :
    ∀ member ∈ out, member ∈ members ∨ ∃ entry ∈ entries, inner entry.2 = .ok member.2 := by
  induction entries generalizing members with
  | nil =>
    obtain rfl := Except.ok.inj h
    exact fun member hmember => Or.inl hmember
  | cons head entries ih =>
    obtain ⟨value, hvalue, h⟩ := foldlM_cons_eq_ok h
    intro member hmember
    rcases ih h member hmember with hmember | ⟨entry, hentry, hmember⟩
    · rcases mem_of_mem_insertEntry hmember with rfl | hmember
      · exact Or.inr ⟨head, List.mem_cons_self, hvalue⟩
      · exact Or.inl hmember
    · exact Or.inr ⟨entry, List.mem_cons_of_mem _ hentry, hmember⟩

/-- A member stays if no entry is written under its key. -/
theorem mem_foldlM_of_mem (h : entries.foldlM (fun members (key, entry) =>
      return insertEntry key (← inner entry) members) members = .ok out)
    {member : String × Json} (hmember : member ∈ members)
    (hkey : member.1 ∉ entries.map Prod.fst) : member ∈ out := by
  induction entries generalizing members with
  | nil =>
    obtain rfl := Except.ok.inj h
    exact hmember
  | cons head entries ih =>
    rw [List.map_cons, List.mem_cons, not_or] at hkey
    obtain ⟨value, -, h⟩ := foldlM_cons_eq_ok h
    exact ih h (mem_insertEntry_of_ne value hmember hkey.1) hkey.2

/-- What has been written for an entry is a member in the end, as no other entry has its key. -/
theorem foldlM_writes (hnodup : (entries.map Prod.fst).Nodup)
    (h : entries.foldlM (fun members (key, entry) =>
      return insertEntry key (← inner entry) members) members = .ok out) :
    ∀ entry ∈ entries, ∃ value, inner entry.2 = .ok value ∧ (entry.1, value) ∈ out := by
  induction entries generalizing members with
  | nil => simp
  | cons head entries ih =>
    rw [List.map_cons, List.nodup_cons] at hnodup
    obtain ⟨value, hvalue, h⟩ := foldlM_cons_eq_ok h
    intro entry hentry
    rcases List.mem_cons.1 hentry with rfl | hentry
    · exact ⟨value, hvalue, mem_foldlM_of_mem h (mem_insertEntry_self _ _ _) hnodup.1⟩
    · exact ih hnodup.2 h entry hentry

end

section

variable {s : Snapshot} {room n : Nat} {path : List Nat} {e e₁ e₂ : Entry} {json : Json}

/-- A text has containers if the entry is written as one. -/
theorem nesting_pos_iff (h : s.encode room path e = .ok json) :
    0 < json.nesting ↔ e.isContainer = true := by
  obtain ⟨inner?, h'⟩ : ∃ inner?, encodeWith s inner? path e = .ok json := by
    cases room <;> exact ⟨_, h⟩
  cases e with
  | array items =>
    obtain ⟨-, values, -, -, rfl⟩ := encode_array_eq_ok h
    simp [Json.nesting, Entry.isContainer]
  | node index =>
    obtain ⟨-, -, members, -, -, -, rfl⟩ := encode_node_cases h
    simp [Json.nesting, Entry.isContainer]
  | stub id =>
    obtain rfl := Except.ok.inj h'
    simp [stubJson, Json.nesting, Entry.isContainer]
  | double x =>
    obtain rfl := Except.ok.inj h'
    split <;> simp [Json.nesting, Entry.isContainer]
  | reference k => cases h'
  | _ =>
    obtain rfl := Except.ok.inj h'
    simp [Json.nesting, Entry.isContainer]

theorem nesting_header {node : Node} {member : String × Json} (h : member ∈ node.header) :
    member.2.nesting = 0 := by
  rcases List.mem_append.1 h with h | h <;>
  · obtain ⟨text, -, rfl⟩ := List.mem_map.1 h
    rfl

/-- What stands in an entry has been written with room for one container less, and lies deeper. -/
theorem encode_inside (h : s.encode room path e = .ok json) (hinside : s.Inside e e₁) :
    ∃ less path₁ json₁, room = less + 1 ∧ s.encode less path₁ e₁ = .ok json₁ ∧
      json₁.nesting < json.nesting := by
  cases hinside with
  | item hmem =>
    obtain ⟨less, values, rfl, hvalues, rfl⟩ := encode_array_eq_ok h
    obtain ⟨json₁, hjson₁, h₁⟩ := (exists_of_mapM_eq_ok hvalues).1 _ hmem
    exact ⟨less, path, json₁, rfl, h₁, Nat.lt_succ_of_le (Json.le_nestingItems hjson₁)⟩
  | @entry index node key _ hnode hmem =>
    obtain ⟨found, less, members, hfound, rfl, hmembers, rfl⟩ := encode_node_cases h
    obtain rfl := Option.some.inj (hnode.symm.trans hfound)
    obtain ⟨json₁, h₁, hjson₁⟩ := foldlM_writes node.entries.nodup hmembers (key, e₁) hmem
    exact ⟨less, index :: path, json₁, rfl, h₁, Nat.lt_succ_of_le (Json.le_nestingMembers hjson₁)⟩

/-- What lies deep in a text lies deep in the text of what stands in the entry. -/
theorem encode_deeper (h : s.encode room path e = .ok json) (hn : n + 1 < json.nesting) :
    ∃ e₁ less path₁ json₁, s.Inside e e₁ ∧ s.encode less path₁ e₁ = .ok json₁ ∧
      n < json₁.nesting := by
  cases e with
  | array items =>
    obtain ⟨less, values, -, hvalues, rfl⟩ := encode_array_eq_ok h
    obtain ⟨json₁, hjson₁, hlt⟩ := Json.lt_nestingItems.1 (Nat.succ_lt_succ_iff.1 hn)
    obtain ⟨e₁, hmem, h₁⟩ := (exists_of_mapM_eq_ok hvalues).2 json₁ hjson₁
    exact ⟨e₁, less, path, json₁, .item hmem, h₁, hlt⟩
  | node index =>
    obtain ⟨node, less, members, hnode, -, hmembers, rfl⟩ := encode_node_cases h
    obtain ⟨member, hmember, hlt⟩ := Json.lt_nestingMembers.1 (Nat.succ_lt_succ_iff.1 hn)
    rcases mem_foldlM hmembers member hmember with hmember | ⟨entry, hentry, h₁⟩
    -- what stands in front of the entries is text
    · rw [nesting_header hmember] at hlt
      exact absurd hlt (Nat.not_lt_zero n)
    · exact ⟨entry.2, less, index :: path, member.2, .entry hnode hentry, h₁, hlt⟩
  | stub id =>
    obtain rfl : stubJson id = json := by
      cases room <;> exact Except.ok.inj h
    simp [stubJson, Json.nesting, Json.nestingMembers] at hn
  | _ =>
    have hcontainer := (nesting_pos_iff h).1 (Nat.zero_lt_of_lt hn)
    cases hcontainer

/-! ## Nesting -/

/-- A text nests more than some containers if a further one lies behind that many of them. -/
theorem lt_nesting_iff (h : s.encode room path e = .ok json) :
    n < json.nesting ↔ ∃ e₂, s.Nested n e e₂ ∧ e₂.isContainer = true := by
  constructor
  · intro hn
    induction n generalizing room path e json with
    | zero => exact ⟨e, .here, (nesting_pos_iff h).1 hn⟩
    | succ n ih =>
      obtain ⟨e₁, less, path₁, json₁, hinside, h₁, hn₁⟩ := encode_deeper h hn
      obtain ⟨e₂, hnested, hcontainer⟩ := ih h₁ hn₁
      exact ⟨e₂, .inside hinside hnested, hcontainer⟩
  · rintro ⟨e₂, hnested, hcontainer⟩
    induction hnested generalizing room path json with
    | here => exact (nesting_pos_iff h).2 hcontainer
    | inside hinside _ ih =>
      obtain ⟨less, path₁, json₁, -, h₁, hlt⟩ := encode_inside h hinside
      exact Nat.lt_of_le_of_lt (ih h₁ hcontainer) hlt

end

end Snapshot

end ScriptBridge
