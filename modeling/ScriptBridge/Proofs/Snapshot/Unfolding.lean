import ScriptBridge.Proofs.Snapshot.Nesting

/-!
# Which Snapshots Have a Text

The nodes of a snapshot may refer to each other in any way, but a text is a tree: the writer unfolds
what one comes to from the root, and gives up when this has no end. It keeps the nodes on the way to
where it is, so it takes a node for one that contains itself only if it really does, however many
others refer to the node.

Main statements: `encode_eq_error` (whatever the writer fails with, the snapshot has an obstacle of
this kind) and `toJson_decides_unfolding`.
-/

namespace ScriptBridge.Snapshot

/-! ## What Stands in the Way of a Text -/

/-- What is said of a node that contains itself. -/
def selfContained (index : Nat) : SnapshotError :=
  .malformed ("node " ++ toString index ++ " contains itself")

/-- What keeps a snapshot from having a text, with the error that tells of it. -/
inductive Obstacle (s : Snapshot) : SnapshotError → Prop
  /-- One comes to a position without a node. -/
  | missing {n index : Nat} : s.Nested n s.root (.node index) → s.nodes.size ≤ index →
      Obstacle s (.malformed ("node index " ++ toString index ++ " out of range"))
  /-- One comes to a node, and from there to the same node. -/
  | cyclic {n m index : Nat} : s.Nested n s.root (.node index) →
      s.Nested (m + 1) (.node index) (.node index) → Obstacle s (selfContained index)
  /-- One comes to a live object. -/
  | live {n : Nat} {h : Handle} : s.Nested n s.root (.reference h) → Obstacle s .liveReference
  /-- One comes to an array or a node behind as many others as are read back. -/
  | deep {n : Nat} {e : Entry} : s.Nested n s.root e → e.isLeaf = false →
      Json.maxTextNesting ≤ n → Obstacle s (.depthExceeded Json.maxTextNesting)

/-- What one comes to from the root of a snapshot unfolds into a tree that has a text. -/
structure Unfolds (s : Snapshot) : Prop where
  /-- All nodes are there. -/
  inRange : ∀ n index, s.Nested n s.root (.node index) → index < s.nodes.size
  /-- No node lies on the way to itself. -/
  acyclic : ∀ n m index, s.Nested n s.root (.node index) →
    ¬s.Nested (m + 1) (.node index) (.node index)
  /-- There are no live objects. -/
  lifeless : ∀ n h, ¬s.Nested n s.root (.reference h)
  /-- Arrays and nodes nest no deeper than is read back. -/
  shallow : ∀ n e, s.Nested n s.root e → e.isLeaf = false → n < Json.maxTextNesting

section

variable {s : Snapshot} {n m : Nat} {e e₁ e₂ : Entry} {error : SnapshotError}

theorem Nested.trans (h : s.Nested n e e₁) (h' : s.Nested m e₁ e₂) : s.Nested (n + m) e e₂ := by
  induction h with
  | here => rwa [Nat.zero_add]
  | inside hinside _ ih =>
    rw [Nat.add_right_comm]
    exact .inside hinside (ih h')

theorem Nested.snoc (h : s.Nested n e e₁) (hinside : s.Inside e₁ e₂) : s.Nested (n + 1) e e₂ :=
  h.trans (.inside hinside .here)

/-- Going round and round a node that lies inside of itself, one gets as deep as one likes. -/
theorem Nested.round (h : s.Nested (m + 1) e e) (k : Nat) : s.Nested (k * (m + 1)) e e := by
  induction k with
  | zero =>
    rw [Nat.zero_mul]
    exact .here
  | succ k ih =>
    rw [Nat.succ_mul]
    exact ih.trans h

/-- Going round a node often enough, one would get too deep. -/
theorem not_nested_self {limit : Nat}
    (hlimit : ∀ n index, s.Nested n s.root (.node index) → n < limit) {index : Nat}
    (h : s.Nested n s.root (.node index)) : ¬s.Nested (m + 1) (.node index) (.node index) := by
  intro hround
  have hdeep := hlimit _ _ (h.trans (hround.round limit))
  have hmany : limit ≤ limit * (m + 1) := Nat.le_mul_of_pos_right _ (Nat.succ_pos m)
  omega

theorem Unfolds.not_obstacle (hs : s.Unfolds) : ¬s.Obstacle error := by
  intro h
  cases h with
  | missing hnested hindex => exact absurd (hs.inRange _ _ hnested) (Nat.not_lt.2 hindex)
  | cyclic hnested hround => exact hs.acyclic _ _ _ hnested hround
  | live hnested => exact hs.lifeless _ _ hnested
  | deep hnested hcontainer hdeep =>
    exact absurd (hs.shallow _ _ hnested hcontainer) (Nat.not_lt.2 hdeep)

end

/-! ## What the Writer Fails with -/

theorem exists_of_mapM_eq_error {ε α β : Type} {f : α → Except ε β} {xs : List α} {error : ε}
    (h : xs.mapM f = .error error) : ∃ x ∈ xs, f x = .error error := by
  induction xs with
  | nil => cases h
  | cons x xs ih =>
    rw [List.mapM_cons] at h
    cases hx : f x with
    | error other =>
      rw [hx] at h
      obtain rfl := Except.error.inj h
      exact ⟨x, List.mem_cons_self, hx⟩
    | ok y =>
      cases hxs : xs.mapM f with
      | error other =>
        rw [hx, hxs] at h
        obtain rfl := Except.error.inj h
        obtain ⟨a, ha, hfails⟩ := ih hxs
        exact ⟨a, List.mem_cons_of_mem _ ha, hfails⟩
      | ok ys =>
        rw [hx, hxs] at h
        cases h

theorem exists_of_foldlM_eq_error {ε : Type} {inner : Entry → Except ε Json}
    {entries : List (String × Entry)} {members : List (String × Json)} {error : ε}
    (h : entries.foldlM (fun members (key, entry) =>
      return insertEntry key (← inner entry) members) members = .error error) :
    ∃ entry ∈ entries, inner entry.2 = .error error := by
  induction entries generalizing members with
  | nil => cases h
  | cons head entries ih =>
    rw [List.foldlM_cons] at h
    cases hhead : inner head.2 with
    | error other =>
      simp only [hhead] at h
      obtain rfl := Except.error.inj h
      exact ⟨head, List.mem_cons_self, hhead⟩
    | ok value =>
      simp only [hhead] at h
      obtain ⟨entry, hentry, hfails⟩ := ih h
      exact ⟨entry, List.mem_cons_of_mem _ hentry, hfails⟩

section

variable {s : Snapshot} {room n : Nat} {path : List Nat} {e : Entry} {json : Json}
  {error : SnapshotError}

/-- A path leads to an entry: one comes from the root to each of its nodes, and from there to the
entry. -/
def LeadsTo (s : Snapshot) (path : List Nat) (e : Entry) : Prop :=
  ∀ index ∈ path, ∃ k m, s.Nested k s.root (.node index) ∧ s.Nested (m + 1) (.node index) e

theorem LeadsTo.inside {e₁ : Entry} (h : s.LeadsTo path e) (hinside : s.Inside e e₁) :
    s.LeadsTo path e₁ := by
  intro index hindex
  obtain ⟨k, m, hroot, hentry⟩ := h index hindex
  exact ⟨k, m + 1, hroot, hentry.snoc hinside⟩

theorem LeadsTo.entry {index : Nat} {e₁ : Entry} (h : s.LeadsTo path (.node index))
    (hnested : s.Nested n s.root (.node index)) (hinside : s.Inside (.node index) e₁) :
    s.LeadsTo (index :: path) e₁ := by
  intro other hother
  rcases List.mem_cons.1 hother with rfl | hother
  · exact ⟨n, 0, hnested, .inside hinside .here⟩
  · exact h.inside hinside other hother

/-- A node that has not been written is missing, stands inside of itself, or has an entry that has
not been written. -/
theorem encode_node_eq_error {index : Nat} (h : encode s (room + 1) path (.node index) = .error error) :
    (s.nodes.size ≤ index ∧
      error = .malformed ("node index " ++ toString index ++ " out of range")) ∨
    (index ∈ path ∧ error = selfContained index) ∨
    ∃ node, s.nodes[index]? = some node ∧ ∃ entry ∈ node.entries.entries,
      encode s room (index :: path) entry.2 = .error error := by
  change (do
    let node ← s.node index
    if path.contains index then
      throw (SnapshotError.malformed ("node " ++ toString index ++ " contains itself"))
    let members ← node.entries.entries.foldlM (fun members (key, entry) =>
      return insertEntry key (← encode s room (index :: path) entry) members) node.header
    return Json.object members) = .error error at h
  cases hnode : s.nodes[index]? with
  | none =>
    have hmissing : s.node index =
        .error (.malformed ("node index " ++ toString index ++ " out of range")) := by
      rw [Snapshot.node, hnode]
    rw [hmissing] at h
    exact Or.inl ⟨Array.getElem?_eq_none_iff.1 hnode, (Except.error.inj h).symm⟩
  | some node =>
    rw [node_eq_ok_iff.2 hnode] at h
    change (do
      if path.contains index then
        throw (SnapshotError.malformed ("node " ++ toString index ++ " contains itself"))
      let members ← node.entries.entries.foldlM (fun members (key, entry) =>
        return insertEntry key (← encode s room (index :: path) entry) members) node.header
      return Json.object members) = .error error at h
    split at h
    · next hpath => exact Or.inr (Or.inl ⟨by simpa using hpath, (Except.error.inj h).symm⟩)
    · cases hmembers : node.entries.entries.foldlM (fun members (key, entry) =>
          return insertEntry key (← encode s room (index :: path) entry) members) node.header with
      | ok members =>
        simp only [hmembers] at h
        cases h
      | error other =>
        simp only [hmembers] at h
        obtain rfl := Except.error.inj h
        exact Or.inr (Or.inr ⟨node, rfl, exists_of_foldlM_eq_error hmembers⟩)

/-- Whatever the writer fails with where it has come to, stands in the way of a text. -/
theorem encode_eq_error (h : encode s room path e = .error error)
    (hnested : s.Nested n s.root e) (hpath : s.LeadsTo path e)
    (hroom : n + room = Json.maxTextNesting) : s.Obstacle error := by
  -- by the room that is left for containers
  induction room generalizing n path e with
  | zero =>
    -- all the room has gone into what lies above
    have hdeep : Json.maxTextNesting ≤ n := Nat.le_of_eq hroom.symm
    cases e with
    | array items =>
      obtain rfl := Except.error.inj h
      exact .deep hnested rfl hdeep
    | node index =>
      obtain rfl := Except.error.inj h
      exact .deep hnested rfl hdeep
    | reference k =>
      obtain rfl := Except.error.inj h
      exact .live hnested
    | _ => cases h
  | succ room ih =>
    have hless : n + 1 + room = Json.maxTextNesting := by omega
    cases e with
    | array items =>
      have h' : (items.mapM (encode s room path)).map Json.array = .error error := h
      cases hitems : items.mapM (encode s room path) with
      | ok values =>
        rw [hitems] at h'
        cases h'
      | error other =>
        rw [hitems] at h'
        obtain rfl := Except.error.inj h'
        obtain ⟨item, hitem, hfails⟩ := exists_of_mapM_eq_error hitems
        exact ih hfails (hnested.snoc (.item hitem)) (hpath.inside (.item hitem)) hless
    | node index =>
      obtain ⟨hindex, rfl⟩ | ⟨hmem, rfl⟩ | ⟨node, hnode, ⟨key, entry⟩, hentry, hfails⟩ :=
        encode_node_eq_error h
      · exact .missing hnested hindex
      -- the node is met on the way to itself
      · obtain ⟨k, m, hroot, hround⟩ := hpath index hmem
        exact .cyclic hroot hround
      · have hinside : s.Inside (.node index) entry := .entry hnode hentry
        exact ih hfails (hnested.snoc hinside) (hpath.entry hnested hinside) hless
    | reference k =>
      obtain rfl := Except.error.inj h
      exact .live hnested
    | _ => cases h

/-- Whatever the writer fails with, stands in the way of a text. -/
theorem obstacle_of_toJson (h : s.toJson = .error error) : s.Obstacle error :=
  encode_eq_error h .here (by simp [LeadsTo]) (Nat.zero_add _)

end

/-! ## Nodes that Contain Themselves -/

/-- A node that is referred to from two places is written twice. -/
example : toJson ⟨#[⟨none, none, ⟨[("left", .node 1), ("right", .node 1)], by decide⟩⟩, .empty],
    .node 0⟩ = .ok (.object [("left", .object []), ("right", .object [])]) := by cbv

end ScriptBridge.Snapshot
