import ScriptBridge.Proofs.Snapshot.Picture
import ScriptBridge.Proofs.Realm.Reachable
import ScriptBridge.Scenario.Script
import Mathlib

/-!
# How Graphs Are Saved

What a step of saving does is said by `Emits`: the nodes that were there keep their class and their
entries, the new ones are met by a walk through the entries that the step has made, identifiers and
stubs belong to each other, and each new node shows its object. Steps of this kind can be put one
behind the other, inside an array and inside a node.

Main statements: `saves_save` (whatever is saved, is saved in such a step) and
`Realm.Reachable.save_orderly`.
-/

namespace ScriptBridge.Saving

open Snapshot (Entry Visits idAt?)

variable {P : Platform}

/-! ## Steps that may fail -/

/-- A step fails for lack of room or because of a getter, or its outcome is as described. -/
def Ensures (r : Realm P) {α : Type} (step : SavingM α) (s : Saving) (Q : α → Saving → Prop) :
    Prop :=
  match step.run s with
  | .error error => error = .depthExceeded r.options.depthLimit ∨ ∃ cause, error = .script cause
  | .ok (answer, s') => Q answer s'

section

variable {r : Realm P} {α β : Type} {s : Saving}

theorem ensures_pure {answer : α} {Q : α → Saving → Prop} (h : Q answer s) :
    Ensures r (pure answer) s Q := h

theorem ensures_bind {step : SavingM α} {next : α → SavingM β} {Q : β → Saving → Prop}
    (h : Ensures r step s fun answer s' => Ensures r (next answer) s' Q) :
    Ensures r (step >>= next) s Q := by
  unfold Ensures at h ⊢
  rw [StateT.run_bind]
  cases hstep : step.run s with
  | error error =>
    rw [hstep] at h
    exact h
  | ok outcome =>
    rw [hstep] at h
    exact h

theorem Ensures.imp {step : SavingM α} {Q Q' : α → Saving → Prop} (h : Ensures r step s Q)
    (himp : ∀ answer s', Q answer s' → Q' answer s') : Ensures r step s Q' := by
  unfold Ensures at h ⊢
  cases hstep : step.run s with
  | error error =>
    rw [hstep] at h
    exact h
  | ok outcome =>
    rw [hstep] at h
    exact himp _ _ h

theorem ensures_get {Q : Saving → Saving → Prop} (h : Q s s) :
    Ensures r (get : SavingM Saving) s Q := h

theorem ensures_set {s' : Saving} {Q : PUnit → Saving → Prop} (h : Q ⟨⟩ s') :
    Ensures r (set s' : SavingM PUnit) s Q := h

theorem ensures_modify {f : Saving → Saving} {Q : PUnit → Saving → Prop} (h : Q ⟨⟩ (f s)) :
    Ensures r (modify f : SavingM PUnit) s Q := h

theorem ensures_throw_depth {Q : α → Saving → Prop} :
    Ensures r (throw (.depthExceeded r.options.depthLimit) : SavingM α) s Q := Or.inl rfl

theorem ensures_throw_script {error : ScriptError} {Q : α → Saving → Prop} :
    Ensures r (throw (.script error) : SavingM α) s Q := Or.inr ⟨error, rfl⟩

end

/-! ## Lawful states -/

/-- The objects with a node are listed with the positions of their nodes, each of them once, and
the identifiers are those that have been given out. -/
structure Lawful (s : Saving) (sites : List Site) : Prop where
  /-- Each node has a site. -/
  size : sites.length = s.nodes.size
  /-- The objects are listed in the order of their nodes, the newest first. -/
  saved : s.saved = (sites.map Site.owner).zipIdx.reverse
  /-- No object has two nodes. -/
  nodup : (sites.map Site.owner).Nodup
  /-- An identifier is one of the numbers that have been given out. -/
  ids : ∀ i id, idAt? s.nodes i = some id → ∃ k ≤ s.identifiers, id = toString k
  /-- No two nodes carry the same identifier. -/
  distinct : ∀ i j id, idAt? s.nodes i = some id → idAt? s.nodes j = some id → i = j

theorem toString_injective {m n : Nat} (h : toString m = toString n) : m = n := by
  have hdigits : (Nat.repr m).toList = (Nat.repr n).toList := congrArg String.toList h
  rw [Nat.toList_repr, Nat.toList_repr] at hdigits
  rw [← Nat.ofDigitChars_toDigits (b := 10) (n := m) (by decide) (by decide), hdigits,
    Nat.ofDigitChars_toDigits (by decide) (by decide)]

theorem lawful_start : Lawful ⟨#[], [], 0⟩ [] where
  size := rfl
  saved := rfl
  nodup := List.nodup_nil
  ids i id h := by simp [idAt?] at h
  distinct i j id h := by simp [idAt?] at h

section

variable {s : Saving} {sites : List Site}

theorem Lawful.site_of_lookup (hs : Lawful s sites) {h : Handle} {index : Nat}
    (hlookup : s.saved.lookup h = some index) :
    ∃ site, sites[index]? = some site ∧ site.owner = h := by
  obtain ⟨before, after, hsplit, -⟩ := List.lookup_eq_some_iff.1 hlookup
  have hmem : (h, index) ∈ s.saved := by
    rw [hsplit]
    exact List.mem_append_right _ List.mem_cons_self
  rw [hs.saved, List.mem_reverse, List.mem_zipIdx_iff_getElem?, List.getElem?_map,
    Option.map_eq_some_iff] at hmem
  exact hmem

theorem Lawful.not_mem_of_lookup (hs : Lawful s sites) {h : Handle}
    (hlookup : s.saved.lookup h = none) : h ∉ sites.map Site.owner := by
  intro hmem
  obtain ⟨i, hi⟩ := List.mem_iff_getElem?.1 hmem
  have hsaved : (h, i) ∈ s.saved := by
    rw [hs.saved, List.mem_reverse, List.mem_zipIdx_iff_getElem?]
    exact hi
  exact absurd (List.lookup_eq_none_iff.1 hlookup _ hsaved) (by simp)

end

/-! ## Steps that make entries -/

/-- A stub with an identifier stands in some entries, or in a node from a position on. -/
def NamedFrom (nodes : Array Snapshot.Node) (start : Nat) (entries : List Entry) (id : String) :
    Prop :=
  id ∈ Entry.stubsOf entries ∨
    ∃ (j : Nat) (node : Snapshot.Node),
      start ≤ j ∧ nodes[j]? = some node ∧ id ∈ Entry.stubsOf node.entries.values

/-- The nodes of a row are still there, with the same class and the same entries. -/
def Kept (nodes nodes' : Array Snapshot.Node) : Prop :=
  ∀ (i : Nat) (node : Snapshot.Node), nodes[i]? = some node →
    ∃ node' : Snapshot.Node, nodes'[i]? = some node' ∧ node'.className = node.className ∧
      node'.entries = node.entries ∧ ∀ id, node.id = some id → node'.id = some id

section

variable {nodes nodes' nodes'' : Array Snapshot.Node}

theorem Kept.refl : Kept nodes nodes := fun _ node hnode => ⟨node, hnode, rfl, rfl, fun _ h => h⟩

theorem Kept.trans (h : Kept nodes nodes') (h' : Kept nodes' nodes'') : Kept nodes nodes'' := by
  intro i node hnode
  obtain ⟨node', hnode', hclass, hentries, hid⟩ := h i node hnode
  obtain ⟨node'', hnode'', hclass', hentries', hid'⟩ := h' i node' hnode'
  exact ⟨node'', hnode'', hclass'.trans hclass, hentries'.trans hentries,
    fun id hn => hid' id (hid id hn)⟩

theorem Kept.size_le (h : Kept nodes nodes') : nodes.size ≤ nodes'.size := by
  by_contra hlt
  have hpos : nodes.size - 1 < nodes.size := by omega
  have hlast := Array.getElem?_eq_getElem hpos
  obtain ⟨node', hnode', -⟩ := h _ _ hlast
  have hin := (Array.getElem?_eq_some_iff.1 hnode').1
  omega

theorem Kept.idAt (h : Kept nodes nodes') {i : Nat} {id : String}
    (hid : idAt? nodes i = some id) : idAt? nodes' i = some id := by
  obtain ⟨node, hnode, hn⟩ := Option.bind_eq_some_iff.1 hid
  obtain ⟨node', hnode', -, -, hkept⟩ := h i node hnode
  exact Option.bind_eq_some_iff.2 ⟨node', hnode', hkept id hn⟩

theorem Kept.before (h : Kept nodes nodes') {i : Nat} {node' : Snapshot.Node}
    (hi : i < nodes.size) (hnode' : nodes'[i]? = some node') :
    ∃ node, nodes[i]? = some node ∧ node'.className = node.className ∧
      node'.entries = node.entries := by
  have hnode := Array.getElem?_eq_getElem hi
  obtain ⟨node'', hnode'', hclass, hentries, -⟩ := h i _ hnode
  rw [hnode'] at hnode''
  rw [Option.some.inj hnode'']
  exact ⟨_, hnode, hclass, hentries⟩

theorem NamedFrom.kept {start : Nat} {entries : List Entry} {id : String}
    (h : NamedFrom nodes start entries id) (hkept : Kept nodes nodes') :
    NamedFrom nodes' start entries id := by
  rcases h with h | ⟨j, node, hj, hnode, hid⟩
  · exact Or.inl h
  · obtain ⟨node', hnode', -, hentries, -⟩ := hkept j node hnode
    rw [← hentries] at hid
    exact Or.inr ⟨j, node', hj, hnode', hid⟩

end

/-- A step has made entries: it has added the nodes that a walk through them meets. -/
structure Emits (r : Realm P) (mask? : Option (List String)) (room : Nat) (s : Saving)
    (sites : List Site) (entries : List Entry) (s' : Saving) (sites' : List Site) : Prop where
  /-- The new state is lawful. -/
  lawful : Lawful s' sites'
  /-- The old sites are the first ones. -/
  sites_prefix : sites <+: sites'
  /-- The old nodes are the first ones. -/
  kept : Kept s.nodes s'.nodes
  /-- A walk through the entries meets the new nodes in their order. -/
  visits : Visits s'.nodes room entries
    (List.range' s.nodes.size (s'.nodes.size - s.nodes.size))
  /-- Each new stub names a node. -/
  named : ∀ id, NamedFrom s'.nodes s.nodes.size entries id → ∃ i, idAt? s'.nodes i = some id
  /-- A node has not received an identifier without a new stub that names it. -/
  used : ∀ i id, idAt? s'.nodes i = some id →
    idAt? s.nodes i = some id ∨ NamedFrom s'.nodes s.nodes.size entries id
  /-- The new nodes show their objects. -/
  content : ∀ i node site, s.nodes.size ≤ i → s'.nodes[i]? = some node →
    sites'[i]? = some site → ∃ object, Content r mask? s'.nodes sites' site node object

section

variable {r : Realm P} {mask? : Option (List String)} {room : Nat} {s s' s'' : Saving}
  {sites sites' sites'' : List Site} {entries more : List Entry}

theorem Emits.refl (hs : Lawful s sites) : Emits r mask? room s sites [] s sites where
  lawful := hs
  sites_prefix := List.prefix_refl _
  kept := Kept.refl
  visits := by
    rw [Nat.sub_self]
    exact .nil
  named id hid := by
    rcases hid with hid | ⟨j, node, hj, hnode, -⟩
    · simp [Entry.stubsOf] at hid
    · have hlt := (Array.getElem?_eq_some_iff.1 hnode).1
      omega
  used i id hid := Or.inl hid
  content i node site hi hnode _ := by
    have hlt := (Array.getElem?_eq_some_iff.1 hnode).1
    omega

theorem Emits.append (h : Emits r mask? room s sites entries s' sites')
    (h' : Emits r mask? room s' sites' more s'' sites'') :
    Emits r mask? room s sites (entries ++ more) s'' sites'' := by
  have hle := h.kept.size_le
  have hle' := h'.kept.size_le
  constructor
  case lawful => exact h'.lawful
  case sites_prefix => exact h.sites_prefix.trans h'.sites_prefix
  case kept => exact h.kept.trans h'.kept
  case visits =>
    -- the nodes of the first step are kept, so the walk through them is
    have hfirst : Visits s''.nodes room entries
        (List.range' s.nodes.size (s'.nodes.size - s.nodes.size)) :=
      h.visits.congr fun i _ node hnode => by
        obtain ⟨node', hnode', -, hentries, -⟩ := h'.kept i node hnode
        exact ⟨node', hnode', hentries⟩
    have hwalk := hfirst.append h'.visits
    have hrange : List.range' s.nodes.size (s'.nodes.size - s.nodes.size) ++
        List.range' s'.nodes.size (s''.nodes.size - s'.nodes.size) =
          List.range' s.nodes.size (s''.nodes.size - s.nodes.size) := by
      have hstart : s'.nodes.size = s.nodes.size + (s'.nodes.size - s.nodes.size) := by omega
      have hlength : s''.nodes.size - s.nodes.size =
          (s'.nodes.size - s.nodes.size) + (s''.nodes.size - s'.nodes.size) := by omega
      rw [hlength, ← List.range'_append_1, ← hstart]
    rwa [hrange] at hwalk
  case named =>
    intro id hid
    rcases hid with hid | ⟨j, node, hj, hnode, hid⟩
    · rw [Entry.mem_stubsOf_iff] at hid
      obtain ⟨entry, hentry, hid⟩ := hid
      rcases List.mem_append.1 hentry with hentry | hentry
      · obtain ⟨i, hi⟩ := h.named id (Or.inl (Entry.mem_stubsOf_iff.2 ⟨entry, hentry, hid⟩))
        exact ⟨i, h'.kept.idAt hi⟩
      · exact h'.named id (Or.inl (Entry.mem_stubsOf_iff.2 ⟨entry, hentry, hid⟩))
    · by_cases hnew : s'.nodes.size ≤ j
      · exact h'.named id (Or.inr ⟨j, node, hnew, hnode, hid⟩)
      -- a node of the first step
      · obtain ⟨node', hnode', -, hentries⟩ := h'.kept.before (by omega) hnode
        rw [hentries] at hid
        obtain ⟨i, hi⟩ := h.named id (Or.inr ⟨j, node', hj, hnode', hid⟩)
        exact ⟨i, h'.kept.idAt hi⟩
  case used =>
    intro i id hid
    rcases h'.used i id hid with hid | hid | ⟨j, node, hj, hnode, hid⟩
    · rcases h.used i id hid with hid | hid
      · exact Or.inl hid
      · rcases hid.kept h'.kept with hid | hbelow
        · exact Or.inr (Or.inl (by simp [Entry.stubsOf_append, hid]))
        · exact Or.inr (Or.inr hbelow)
    · exact Or.inr (Or.inl (by simp [Entry.stubsOf_append, hid]))
    · exact Or.inr (Or.inr ⟨j, node, by omega, hnode, hid⟩)
  case content =>
    intro i node site hi hnode hsite
    by_cases hnew : s'.nodes.size ≤ i
    · exact h'.content i node site hnew hnode hsite
    · obtain ⟨node', hnode', hclass, hentries⟩ := h'.kept.before (by omega) hnode
      have hold : i < sites'.length := by
        rw [h.lawful.size]
        omega
      obtain ⟨more, rfl⟩ := h'.sites_prefix
      rw [List.getElem?_append_left hold] at hsite
      obtain ⟨object, hcontent⟩ := h.content i node' site hi hnode' hsite
      exact ⟨object, (hcontent.congr hclass hentries).mono (List.prefix_append _ _)
        fun _ _ => h'.kept.idAt⟩

/-- An entry that nothing lies inside of may be put in the place of what was left out. -/
theorem Emits.leaf {entry : Entry} (h : Emits r mask? room s sites [] s' sites')
    (hleaf : entry.isLeaf = true) (hstubs : entry.stubs = []) :
    Emits r mask? room s sites [entry] s' sites' := by
  have hsame : ∀ id, NamedFrom s'.nodes s.nodes.size [entry] id ↔
      NamedFrom s'.nodes s.nodes.size [] id := by
    intro id
    simp [NamedFrom, Entry.stubsOf, hstubs]
  refine ⟨h.lawful, h.sites_prefix, h.kept, .leaf hleaf h.visits, ?_, ?_, h.content⟩
  · exact fun id hid => h.named id ((hsame id).1 hid)
  · exact fun i id hid => (h.used i id hid).imp_right (hsame id).2

theorem Emits.array (h : Emits r mask? room s sites entries s' sites') :
    Emits r mask? (room + 1) s sites [.array entries] s' sites' := by
  have hsame : ∀ id, NamedFrom s'.nodes s.nodes.size [.array entries] id ↔
      NamedFrom s'.nodes s.nodes.size entries id := by
    intro id
    simp [NamedFrom, Entry.stubsOf, Entry.stubs]
  have hwalk := Visits.array h.visits .nil
  rw [List.append_nil] at hwalk
  refine ⟨h.lawful, h.sites_prefix, h.kept, hwalk, ?_, ?_, h.content⟩
  · exact fun id hid => h.named id ((hsame id).1 hid)
  · exact fun i id hid => (h.used i id hid).imp_right (hsame id).2

/-! ## Stubs -/

theorem idAt?_modify_id (nodes : Array Snapshot.Node) (index : Nat) (id : String) (i : Nat)
    (hindex : index < nodes.size) :
    idAt? (nodes.modify index fun node => { node with id := some id }) i =
      if i = index then some id else idAt? nodes i := by
  unfold Snapshot.idAt?
  rw [Array.getElem?_modify]
  by_cases hi : i = index
  · subst hi
    rw [if_pos rfl, if_pos rfl, Array.getElem?_eq_getElem hindex]
    rfl
  · rw [if_neg (fun h => hi h.symm), if_neg hi]

theorem kept_modify_id {nodes : Array Snapshot.Node} {index : Nat} (hnone : idAt? nodes index = none)
    (id : String) : Kept nodes (nodes.modify index fun node => { node with id := some id }) := by
  intro i node hnode
  rw [Array.getElem?_modify]
  by_cases hi : index = i
  · subst hi
    rw [if_pos rfl, hnode]
    refine ⟨_, rfl, rfl, rfl, fun id' hid' => ?_⟩
    rw [Snapshot.idAt?, hnode, Option.bind_some, hid'] at hnone
    simp at hnone
  · rw [if_neg hi]
    exact ⟨node, hnode, rfl, rfl, fun _ h => h⟩

theorem Emits.stub {index : Nat} {id : String} (hlawful : Lawful s' sites)
    (hkept : Kept s.nodes s'.nodes) (hsize : s'.nodes.size = s.nodes.size)
    (hid : idAt? s'.nodes index = some id)
    (hused : ∀ i id', idAt? s'.nodes i = some id' → idAt? s.nodes i = some id' ∨ id' = id) :
    Emits r mask? room s sites [.stub id] s' sites := by
  have hstubs : Entry.stubsOf [.stub id] = [id] := by simp [Entry.stubsOf, Entry.stubs]
  constructor
  case lawful => exact hlawful
  case sites_prefix => exact List.prefix_refl _
  case kept => exact hkept
  case visits =>
    rw [hsize, Nat.sub_self]
    exact .leaf rfl .nil
  case named =>
    rintro id' (hid' | ⟨j, node, hj, hnode, -⟩)
    · rw [hstubs, List.mem_singleton] at hid'
      rw [hid']
      exact ⟨index, hid⟩
    · have hlt := (Array.getElem?_eq_some_iff.1 hnode).1
      omega
  case used =>
    intro i id' hid'
    rcases hused i id' hid' with hold | rfl
    · exact Or.inl hold
    · exact Or.inr (Or.inl (by rw [hstubs]; exact List.mem_singleton_self _))
  case content =>
    intro i node site hi hnode _
    have hlt := (Array.getElem?_eq_some_iff.1 hnode).1
    omega

/-- The node of an object that is met again has an identifier from then on. -/
theorem ensures_identifier (mask? : Option (List String)) (room : Nat) (hs : Lawful s sites)
    {index : Nat} (hindex : index < s.nodes.size) :
    Ensures r (identifier index) s fun id s' =>
      Emits r mask? room s sites [.stub id] s' sites ∧ idAt? s'.nodes index = some id := by
  refine ensures_bind (ensures_get ?_)
  cases hid : idAt? s.nodes index with
  | some id =>
    have hmatch : s.nodes[index]?.bind Snapshot.Node.id = some id := hid
    rw [hmatch]
    exact ensures_pure ⟨.stub hs Kept.refl rfl hid fun _ _ h => Or.inl h, hid⟩
  | none =>
    have hmatch : s.nodes[index]?.bind Snapshot.Node.id = none := hid
    rw [hmatch]
    refine ensures_bind (ensures_set (ensures_pure ?_))
    have hids := fun i =>
      idAt?_modify_id s.nodes index (toString (s.identifiers + 1)) i hindex
    have hnew : idAt? (s.nodes.modify index fun node =>
        { node with id := some (toString (s.identifiers + 1)) }) index =
          some (toString (s.identifiers + 1)) := by
      rw [hids, if_pos rfl]
    -- the number has not been given out before
    have hfresh : ∀ i, idAt? s.nodes i ≠ some (toString (s.identifiers + 1)) := by
      intro i hi
      obtain ⟨k, hk, heq⟩ := hs.ids i _ hi
      have hkeq := toString_injective heq
      omega
    refine ⟨.stub ⟨?_, hs.saved, hs.nodup, ?_, ?_⟩ (kept_modify_id hid _) (by simp) hnew ?_, hnew⟩
    · simp [hs.size]
    · intro i id hi
      rw [hids] at hi
      split at hi
      · exact ⟨_, le_refl _, (Option.some.inj hi).symm⟩
      · obtain ⟨k, hk, heq⟩ := hs.ids i id hi
        exact ⟨k, Nat.le_succ_of_le hk, heq⟩
    · intro i j id hi hj
      rw [hids] at hi hj
      split at hi
      · next hieq =>
        split at hj
        · next hjeq => rw [hieq, hjeq]
        · rw [← Option.some.inj hi] at hj
          exact absurd hj (hfresh j)
      · split at hj
        · rw [← Option.some.inj hj] at hi
          exact absurd hi (hfresh i)
        · exact hs.distinct i j id hi hj
    · intro i id hi
      rw [hids] at hi
      split at hi
      · exact Or.inr (Option.some.inj hi).symm
      · exact Or.inl hi

/-! ## Nodes -/

/-- A state with the node of a further object. -/
def withNode (s : Saving) (owner : Handle) (className : Option String) : Saving :=
  { s with
    nodes := s.nodes.push { Snapshot.Node.empty with className }
    saved := (owner, s.nodes.size) :: s.saved }

/-- A state with the entries of a node. -/
def withEntries (s : Saving) (index : Nat) (entries : Table Entry) : Saving :=
  { s with nodes := s.nodes.modify index fun node => { node with entries } }

theorem idAt?_withNode (owner : Handle) (className : Option String) (i : Nat) :
    idAt? (s.withNode owner className).nodes i = idAt? s.nodes i := by
  unfold Snapshot.idAt? withNode
  rw [Array.getElem?_push]
  by_cases hi : i = s.nodes.size
  · subst hi
    rw [if_pos rfl, Array.getElem?_eq_none (le_refl _)]
    rfl
  · rw [if_neg hi]

theorem idAt?_withEntries (index : Nat) (table : Table Entry) (i : Nat) :
    idAt? (s.withEntries index table).nodes i = idAt? s.nodes i := by
  unfold Snapshot.idAt? withEntries
  rw [Array.getElem?_modify]
  by_cases hi : index = i
  · subst hi
    rw [if_pos rfl]
    cases s.nodes[index]? <;> rfl
  · rw [if_neg hi]

theorem getElem?_withEntries_of_ne {index i : Nat} (table : Table Entry) (hi : i ≠ index) :
    (s.withEntries index table).nodes[i]? = s.nodes[i]? := by
  rw [withEntries, Array.getElem?_modify, if_neg (fun h => hi h.symm)]

theorem kept_withNode (owner : Handle) (className : Option String) :
    Kept s.nodes (s.withNode owner className).nodes := by
  intro i node hnode
  have hi := (Array.getElem?_eq_some_iff.1 hnode).1
  refine ⟨node, ?_, rfl, rfl, fun _ h => h⟩
  rw [withNode, Array.getElem?_push_lt hi, ← hnode, Array.getElem?_eq_getElem hi]

theorem Lawful.withNode (hs : Lawful s sites) {site : Site} (className : Option String)
    (hnew : site.owner ∉ sites.map Site.owner) :
    Lawful (s.withNode site.owner className) (sites ++ [site]) := by
  constructor
  case size => simp [Saving.withNode, hs.size]
  case saved => simp [Saving.withNode, hs.saved, hs.size, List.zipIdx_append]
  case nodup =>
    rw [List.map_append, List.nodup_append]
    refine ⟨hs.nodup, by simp, ?_⟩
    intro a ha b hb hab
    rw [List.map_singleton, List.mem_singleton] at hb
    rw [hab, hb] at ha
    exact hnew ha
  case ids =>
    intro i id hid
    rw [idAt?_withNode] at hid
    exact hs.ids i id hid
  case distinct =>
    intro i j id hi hj
    rw [idAt?_withNode] at hi hj
    exact hs.distinct i j id hi hj

theorem Lawful.withEntries (hs : Lawful s sites) (index : Nat) (table : Table Entry) :
    Lawful (s.withEntries index table) sites := by
  constructor
  case size => simp [Saving.withEntries, hs.size]
  case saved => exact hs.saved
  case nodup => exact hs.nodup
  case ids =>
    intro i id hid
    rw [idAt?_withEntries] at hid
    exact hs.ids i id hid
  case distinct =>
    intro i j id hi hj
    rw [idAt?_withEntries] at hi hj
    exact hs.distinct i j id hi hj

/-- The step that saves an object: its node is made, its entries are, and then they are put into the
node. -/
theorem Emits.node {site : Site} {className : Option String} {table : Table Entry}
    {object : ScriptObject P}
    (h : Emits r mask? room (s.withNode site.owner className) (sites ++ [site]) table.values
      s' sites')
    (hsize : sites.length = s.nodes.size)
    (hcontent : ∀ node : Snapshot.Node, node.className = className → node.entries = table →
      Content r mask? s'.nodes sites' site node object) :
    Emits r mask? (room + 1) s sites [.node s.nodes.size] (s'.withEntries s.nodes.size table)
      sites' := by
  have hgrown : (s.withNode site.owner className).nodes.size = s.nodes.size + 1 := by
    simp [Saving.withNode]
  have hle := h.kept.size_le
  rw [hgrown] at hle
  -- the new node, as it is when its entries have been made, and afterwards
  obtain ⟨node, hnode, hclass, -, -⟩ := h.kept s.nodes.size
    { Snapshot.Node.empty with className } (by simp [Saving.withNode])
  have hnode' : (s'.withEntries s.nodes.size table).nodes[s.nodes.size]? =
      some { node with entries := table } := by
    rw [Saving.withEntries, Array.getElem?_modify, if_pos rfl, hnode]
    rfl
  have hsite : sites'[s.nodes.size]? = some site := by
    obtain ⟨more, rfl⟩ := h.sites_prefix
    rw [List.append_assoc, ← hsize, List.getElem?_append_right (le_refl _), Nat.sub_self]
    rfl
  have hids : ∀ i, idAt? (s'.withEntries s.nodes.size table).nodes i = idAt? s'.nodes i :=
    idAt?_withEntries _ _
  have hsize' : (s'.withEntries s.nodes.size table).nodes.size = s'.nodes.size := by
    simp [Saving.withEntries]
  constructor
  case lawful => exact h.lawful.withEntries _ _
  case sites_prefix => exact (List.prefix_append _ _).trans h.sites_prefix
  case kept =>
    intro i old hold
    have hi := (Array.getElem?_eq_some_iff.1 hold).1
    obtain ⟨old', hold', hkept⟩ := ((kept_withNode _ _).trans h.kept) i old hold
    exact ⟨old', by rw [getElem?_withEntries_of_ne _ (by omega), hold'], hkept⟩
  case visits =>
    rw [hsize']
    -- giving the node its entries changes no other node that the walk meets
    have hinside : Visits (s'.withEntries s.nodes.size table).nodes room table.values
        (List.range' (s.nodes.size + 1) (s'.nodes.size - (s.nodes.size + 1))) := by
      rw [← hgrown]
      refine h.visits.congr fun i hi old hold => ⟨old, ?_, rfl⟩
      have hlow := (List.mem_range'_1.1 hi).1
      rw [getElem?_withEntries_of_ne _ (by omega), hold]
    have hwalk := Visits.node hnode' hinside .nil
    have hrange : s'.nodes.size - s.nodes.size =
        (s'.nodes.size - (s.nodes.size + 1)) + 1 := by omega
    rwa [List.append_nil, ← List.range'_succ, ← hrange] at hwalk
  case named =>
    rintro id (hid | ⟨j, old, hj, hold, hid⟩)
    · simp [Entry.stubsOf, Entry.stubs] at hid
    · obtain ⟨i, hi⟩ : ∃ i, idAt? s'.nodes i = some id := by
        by_cases hji : j = s.nodes.size
        · rw [hji, hnode'] at hold
          rw [← Option.some.inj hold] at hid
          exact h.named id (Or.inl hid)
        · rw [getElem?_withEntries_of_ne _ hji] at hold
          exact h.named id (Or.inr ⟨j, old, by omega, hold, hid⟩)
      exact ⟨i, (hids i).trans hi⟩
  case used =>
    intro i id hid
    rw [hids] at hid
    -- an identifier has been there, is used by an entry of the node, or inside of it
    rcases h.used i id hid with hid | hid | ⟨j, old, hj, hold, hid⟩
    · rw [idAt?_withNode] at hid
      exact Or.inl hid
    · exact Or.inr (Or.inr ⟨s.nodes.size, _, le_refl _, hnode', hid⟩)
    · refine Or.inr (Or.inr ⟨j, old, by omega, ?_, hid⟩)
      rw [getElem?_withEntries_of_ne _ (by omega), hold]
  case content =>
    intro i old place hi hold hplace
    by_cases hii : i = s.nodes.size
    · rw [hii] at hold hplace
      rw [hnode'] at hold
      rw [hsite] at hplace
      rw [← Option.some.inj hold, ← Option.some.inj hplace]
      refine ⟨object, (hcontent { node with entries := table } hclass rfl).mono
        (List.prefix_refl _) fun j id hid => ?_⟩
      exact (hids j).trans hid
    · rw [getElem?_withEntries_of_ne _ hii] at hold
      obtain ⟨other, hother⟩ := h.content i old place (by omega) hold hplace
      refine ⟨other, hother.mono (List.prefix_refl _) fun j id hid => ?_⟩
      exact (hids j).trans hid

end

/-! ## What the functions of saving do -/

/-- A way to save values that are met inside the arrays of `path`. -/
def Saves (r : Realm P) (mask? : Option (List String)) (room : Nat) (path : List Handle)
    (inner : Value → SavingM (Option Entry)) : Prop :=
  ∀ value s sites, Lawful s sites → Ensures r (inner value) s fun image? s' =>
    ∃ sites', Emits r mask? room s sites image?.toList s' sites' ∧
      Images r s'.nodes sites' path [value] [image?]

section

variable {r : Realm P} {mask? : Option (List String)} {room : Nat} {s : Saving}
  {sites : List Site} {path : List Handle} {inner : Value → SavingM (Option Entry)}

theorem ensures_addEntry (hinner : Saves r mask? room path inner) (hs : Lawful s sites)
    {table : Table Entry} {name : String} (value : Value) (hnew : name ∉ table.keys) :
    Ensures r (addEntry mask? inner table name value) s fun table' s' =>
      ∃ sites' image?, table'.entries = table.entries ++ ( image?.map (name, ·)).toList ∧
        Emits r mask? room s sites image?.toList s' sites' ∧
        Member r mask? s'.nodes sites' path name value image? := by
  unfold addEntry
  cases hshared : shared? mask? name value with
  | some h =>
    refine ensures_pure ⟨sites, some (.reference h), ?_, ?_, .shared hshared⟩
    · exact table.entries_insert_of_not_mem _ hnew
    · exact (Emits.refl hs).leaf rfl (by simp [Entry.stubs])
  | none =>
    refine ensures_bind ((hinner value s sites hs).imp ?_)
    rintro image? s' ⟨sites', hemits, himages⟩
    cases image? with
    | none => exact ensures_pure ⟨sites', none, by simp, hemits, .own hshared himages⟩
    | some entry =>
      refine ensures_pure ⟨sites', some entry, ?_, hemits, .own hshared himages⟩
      exact table.entries_insert_of_not_mem _ hnew

/-- Adding members to a table one after the other. -/
theorem ensures_foldlM (mask? : Option (List String)) (room : Nat) {ι : Type}
    {add : Table Entry → ι → SavingM (Table Entry)} (Ready : List ι → Table Entry → Prop)
    (Shows : Array Snapshot.Node → List Site → ι → Option (String × Entry) → Prop)
    (hmono : ∀ {nodes nodes' : Array Snapshot.Node} {sites sites' : List Site} {x : ι}
      {out : Option (String × Entry)}, Shows nodes sites x out → sites <+: sites' →
      (∀ i id, idAt? nodes i = some id → idAt? nodes' i = some id) → Shows nodes' sites' x out)
    (hadd : ∀ {x : ι} {xs : List ι} {table : Table Entry} {s : Saving} {sites : List Site},
      Ready (x :: xs) table → Lawful s sites → Ensures r (add table x) s fun table' s' =>
        ∃ sites' out, table'.entries = table.entries ++ out.toList ∧
          Emits r mask? room s sites (out.toList.map Prod.snd) s' sites' ∧
          Shows s'.nodes sites' x out ∧ Ready xs table')
    {xs : List ι} {table : Table Entry} {s : Saving} {sites : List Site} (hready : Ready xs table)
    (hs : Lawful s sites) :
    Ensures r (xs.foldlM add table) s fun table' s' =>
      ∃ sites' outs, table'.entries = table.entries ++ outs.reduceOption ∧
        Emits r mask? room s sites (outs.reduceOption.map Prod.snd) s' sites' ∧
        List.Forall₂ (Shows s'.nodes sites') xs outs := by
  induction xs generalizing table s sites with
  | nil => exact ensures_pure ⟨sites, [], by simp, Emits.refl hs, .nil⟩
  | cons x xs ih =>
    rw [List.foldlM_cons]
    refine ensures_bind ((hadd hready hs).imp ?_)
    rintro table₁ s₁ ⟨sites₁, out, hout, hemits, hshows, hready₁⟩
    refine (ih hready₁ hemits.lawful).imp ?_
    rintro table₂ s₂ ⟨sites₂, outs, houts, hemits', hall⟩
    have hreduce : (out :: outs).reduceOption = out.toList ++ outs.reduceOption := by
      cases out <;> simp
    refine ⟨sites₂, out :: outs, ?_, ?_, .cons ?_ hall⟩
    · rw [houts, hout, hreduce, List.append_assoc]
    · rw [hreduce, List.map_append]
      exact hemits.append hemits'
    · exact hmono hshows hemits'.sites_prefix fun _ _ => hemits'.kept.idAt

theorem ensures_items (hinner : Saves r mask? room path inner) {items : List Value}
    (hs : Lawful s sites) :
    Ensures r (items.mapM fun item => do return (← inner item).getD .null) s fun entries s' =>
      ∃ sites' inside, entries = inside.map (fun image? => image?.getD .null) ∧
        Emits r mask? room s sites entries s' sites' ∧
        Images r s'.nodes sites' path items inside := by
  induction items generalizing s sites with
  | nil => exact ensures_pure ⟨sites, [], rfl, Emits.refl hs, .nil⟩
  | cons item items ih =>
    rw [List.mapM_cons]
    refine ensures_bind (ensures_bind ((hinner item s sites hs).imp ?_))
    rintro image? s₁ ⟨sites₁, hemits, himages⟩
    refine ensures_pure (ensures_bind ((ih hemits.lawful).imp ?_))
    rintro entries s₂ ⟨sites₂, inside, rfl, hemits', himages'⟩
    have hfirst : Emits r mask? room s sites [image?.getD .null] s₁ sites₁ := by
      cases image? with
      | none => exact hemits.leaf rfl (by simp [Entry.stubs])
      | some entry => exact hemits
    refine ensures_pure ⟨sites₂, image? :: inside, rfl, hfirst.append hemits', ?_⟩
    exact (himages.mono hemits'.sites_prefix fun _ _ => hemits'.kept.idAt).append himages'

end

section

variable {r : Realm P} {mask? : Option (List String)} {room : Nat} {s : Saving}
  {sites : List Site} {inner : Value → SavingM (Option Entry)}

theorem map_toList_map {name : String} (image? : Option Entry) :
    ( image?.map (name, ·)).toList.map Prod.snd = image?.toList := by
  cases image? <;> rfl

/-- The properties have distinct names, and none of them has an entry. -/
def PropertiesReady (bindings : List (BoundProperty P)) (table : Table Entry) : Prop :=
  (bindings.map BoundProperty.name).Nodup ∧ ∀ b ∈ bindings, b.name ∉ table.keys

theorem ensures_addProperties (site : Site) (hinner : Saves r mask? room site.path inner)
    (hs : Lawful s sites) (c : ClassNumber)
    (hnames : ((r.registry.visibleProperties c).map BoundProperty.name).Nodup) :
    Ensures r (addProperties r mask? inner site.owner c .empty) s fun table s' =>
      ∃ sites' outs, table.entries = outs.reduceOption ∧
        Emits r mask? room s sites (outs.reduceOption.map Prod.snd) s' sites' ∧
        List.Forall₂ (PropertyImage r mask? s'.nodes sites' site)
          (r.registry.visibleProperties c) outs := by
  unfold addProperties
  have hready : PropertiesReady (r.registry.visibleProperties c) (.empty : Table Entry) :=
    ⟨hnames, by simp⟩
  refine Ensures.imp (ensures_foldlM mask? room PropertiesReady
    (fun nodes sites => PropertyImage r mask? nodes sites site)
    (fun h hsites hids => h.mono hsites hids) ?_ hready hs) ?_
  · intro binding bindings table s sites hready hs
    obtain ⟨hnodup, hnew⟩ := hready
    rw [List.map_cons, List.nodup_cons] at hnodup
    by_cases hsaved : (isSaved mask? binding && !Snapshot.isReserved binding.name) = true
    · rw [if_pos hsaved]
      cases hvalue : r.property site.owner binding.name with
      | error error => exact ensures_throw_script
      | ok value =>
        refine (ensures_addEntry hinner hs value (hnew _ List.mem_cons_self)).imp ?_
        rintro table' s' ⟨sites', image?, htable, hemits, hmember⟩
        refine ⟨sites', _, htable, ?_, .saved hsaved hvalue hmember, hnodup.2, ?_⟩
        · rw [map_toList_map]
          exact hemits
        · intro b hb hmem
          rw [Table.keys, htable, List.map_append, List.mem_append] at hmem
          rcases hmem with hmem | hmem
          · exact hnew b (List.mem_cons_of_mem _ hb) hmem
          -- the name of the next property differs from the one that has been added
          · cases image? with
            | none => simp at hmem
            | some entry =>
              simp only [Option.map_some, Option.toList_some, List.map_cons, List.map_nil,
                List.mem_singleton] at hmem
              exact hnodup.1 (hmem ▸ List.mem_map_of_mem hb)
    · rw [if_neg hsaved]
      refine ensures_pure ⟨sites, none, by simp, Emits.refl hs, .skipped (by simpa using hsaved),
        hnodup.2, fun b hb => hnew b (List.mem_cons_of_mem _ hb)⟩
  · rintro table s' ⟨sites', outs, htable, hemits, hall⟩
    exact ⟨sites', outs, by simpa [Table.empty] using htable, hemits, hall⟩

end

section

variable {r : Realm P} {mask? : Option (List String)} {room : Nat} {s : Saving}
  {sites : List Site} {inner : Value → SavingM (Option Entry)}

/-- The fields have distinct names. Only the keys `present` have entries among them, and none has
an entry with the source of a function. -/
def FieldsReady (present : List String) (fields : List (String × Value)) (table : Table Entry) :
    Prop :=
  (fields.map Prod.fst).Nodup ∧ ∀ field ∈ fields,
    (Snapshot.isReserved field.1 = false → (field.1 ∈ table.keys ↔ field.1 ∈ present)) ∧
      Snapshot.functionKey field.1 ∉ table.keys

/-- A field that has been dealt with leaves the others ready. -/
theorem FieldsReady.next {present : List String} {field : String × Value}
    {fields : List (String × Value)} {table table' : Table Entry}
    (h : FieldsReady present (field :: fields) table) {out : Option (String × Entry)}
    (htable : table'.entries = table.entries ++ out.toList)
    (hout : ∀ key entry, out = some (key, entry) → Snapshot.isReserved field.1 = false ∧
      (key = field.1 ∨ key = Snapshot.functionKey field.1)) :
    FieldsReady present fields table' := by
  obtain ⟨hnodup, hkeys⟩ := h
  rw [List.map_cons, List.nodup_cons] at hnodup
  refine ⟨hnodup.2, fun other hother => ?_⟩
  obtain ⟨hpresent, hfunction⟩ := hkeys other (List.mem_cons_of_mem _ hother)
  have hne : other.1 ≠ field.1 := fun h => hnodup.1 (h ▸ List.mem_map_of_mem hother)
  have hkeys' : table'.keys = table.keys ++ out.toList.map Prod.fst := by
    rw [Table.keys, htable, List.map_append]
    rfl
  cases out with
  | none =>
    rw [hkeys', Option.toList_none, List.map_nil, List.append_nil]
    exact ⟨hpresent, hfunction⟩
  | some pair =>
    obtain ⟨hfree, hkey⟩ := hout pair.1 pair.2 rfl
    have hplain := (Snapshot.isReserved_eq_false_iff.1 hfree).2.2.2
    simp only [hkeys', Option.toList_some, List.map_cons, List.map_nil, List.mem_append,
      List.mem_singleton, not_or]
    refine ⟨fun hother => ?_, hfunction, ?_⟩
    -- a name that is not reserved cannot look like the key of a function
    · have hplain' := (Snapshot.isReserved_eq_false_iff.1 hother).2.2.2
      have hnot : other.1 ≠ pair.1 := by
        rcases hkey with hkey | hkey
        · rw [hkey]
          exact hne
        · rw [hkey]
          exact (Snapshot.functionKey_ne hplain' _).symm
      rw [← hpresent hother, or_iff_left hnot]
    · rcases hkey with hkey | hkey
      · rw [hkey]
        exact Snapshot.functionKey_ne hplain _
      · rw [hkey]
        exact fun h => hne (Snapshot.functionKey_injective h)

/-- Which fields are passed over. -/
theorem FieldsReady.passed_over_iff {present : List String} {key : String} {value : Value}
    {fields : List (String × Value)} {table : Table Entry}
    (h : FieldsReady present ((key, value) :: fields) table) :
    (key == Snapshot.transientField || table.contains key || Snapshot.isReserved key) = true ↔
      key = Snapshot.transientField ∨ key ∈ present ∨ Snapshot.isReserved key = true := by
  rw [Bool.or_eq_true, Bool.or_eq_true, beq_iff_eq, Table.contains_iff, or_assoc]
  cases hreserved : Snapshot.isReserved key with
  | true => simp
  | false => rw [(h.2 _ List.mem_cons_self).1 hreserved]

/-- What is added for a field is added under its name, or under the name with the mark of
functions, so the others are still ready. -/
theorem FieldsReady.imaged {present : List String} {field : String × Value}
    {fields : List (String × Value)} {table table' : Table Entry} {nodes : Array Snapshot.Node}
    {site : Site} {out : Option (String × Entry)} (h : FieldsReady present (field :: fields) table)
    (htable : table'.entries = table.entries ++ out.toList)
    (himage : FieldImage r mask? nodes sites site present field out) :
    FieldsReady present fields table' :=
  h.next htable fun key entry hout => by
    rw [hout] at himage
    exact ⟨himage.key.1, himage.key.2.imp_right And.left⟩

/-- A field has been dealt with, and the others are ready. -/
def FieldAdded (r : Realm P) (mask? : Option (List String)) (room : Nat) (s : Saving)
    (sites : List Site) (table : Table Entry) (site : Site) (present : List String)
    (field : String × Value) (fields : List (String × Value)) (table' : Table Entry)
    (s' : Saving) : Prop :=
  ∃ sites' out, table'.entries = table.entries ++ out.toList ∧
    Emits r mask? room s sites (out.toList.map Prod.snd) s' sites' ∧
    FieldImage r mask? s'.nodes sites' site present field out ∧ FieldsReady present fields table'

section

variable {site : Site} {present : List String} {fields : List (String × Value)}
  {table : Table Entry} {key : String} {value : Value}

/-- A field that has no entry. -/
theorem ensures_noField (hready : FieldsReady present ((key, value) :: fields) table)
    (hs : Lawful s sites)
    (himage : FieldImage r mask? s.nodes sites site present (key, value) none) :
    Ensures r (pure table : SavingM (Table Entry)) s
      (FieldAdded r mask? room s sites table site present (key, value) fields) := by
  have htable : table.entries = table.entries ++ (none : Option (String × Entry)).toList := by simp
  exact ensures_pure ⟨sites, none, htable, Emits.refl hs, himage, hready.imaged htable himage⟩

/-- A function has an entry with its source, if it has one. -/
theorem ensures_addFunction {f : Handle}
    (hready : FieldsReady present ((key, .function f) :: fields) table) (hs : Lawful s sites)
    (himage : FieldImage r mask? s.nodes sites site present (key, .function f)
      ((sourceOf? r f).map fun source => (Snapshot.functionKey key, .string source))) :
    Ensures r (match sourceOf? r f with
        | some source => pure (table.insert (Snapshot.functionKey key) (.string source))
        | none => pure table : SavingM (Table Entry)) s
      (FieldAdded r mask? room s sites table site present (key, .function f) fields) := by
  cases hsource : sourceOf? r f with
  | none =>
    rw [hsource] at himage
    exact ensures_noField hready hs himage
  | some source =>
    rw [hsource] at himage
    have htable : (table.insert (Snapshot.functionKey key) (.string source)).entries =
        table.entries ++ (some (Snapshot.functionKey key, Entry.string source)).toList :=
      table.entries_insert_of_not_mem _ (hready.2 _ List.mem_cons_self).2
    refine ensures_pure ⟨sites, _, htable, ?_, himage, hready.imaged htable himage⟩
    exact (Emits.refl hs).leaf rfl (by simp [Entry.stubs])

/-- Any other value has the entry that it is saved as, if it is saved. -/
theorem ensures_addValue (hinner : Saves r mask? room site.path inner)
    (hready : FieldsReady present ((key, value) :: fields) table) (hs : Lawful s sites)
    (hmem : key ∉ table.keys)
    (himage : ∀ {nodes : Array Snapshot.Node} {sites : List Site} {image? : Option Entry},
      Member r mask? nodes sites site.path key value image? →
      FieldImage r mask? nodes sites site present (key, value) (image?.map (key, ·))) :
    Ensures r (addEntry mask? inner table key value) s
      (FieldAdded r mask? room s sites table site present (key, value) fields) := by
  refine (ensures_addEntry hinner hs value hmem).imp ?_
  rintro table' s' ⟨sites', image?, htable, hemits, hmember⟩
  refine ⟨sites', _, htable, ?_, himage hmember, hready.imaged htable (himage hmember)⟩
  rw [map_toList_map]
  exact hemits

end

theorem ensures_addFields {site : Site} (hinner : Saves r mask? room site.path inner)
    (hs : Lawful s sites) (object : ScriptObject P) {present : List String} {table : Table Entry}
    (hpresent : table.keys = present) (hfree : ∀ key ∈ present, Snapshot.isReserved key = false) :
    Ensures r (addFields r mask? inner object table) s fun table' s' =>
      ∃ sites' outs, table'.entries = table.entries ++ outs.reduceOption ∧
        Emits r mask? room s sites (outs.reduceOption.map Prod.snd) s' sites' ∧
        List.Forall₂ (FieldImage r mask? s'.nodes sites' site present) object.fields.entries outs := by
  unfold addFields
  have hready : FieldsReady present object.fields.entries table := by
    refine ⟨object.fields.nodup, fun field _ => ⟨fun _ => by rw [hpresent], fun hmem => ?_⟩⟩
    rw [hpresent] at hmem
    simpa [Snapshot.isReserved_functionKey] using hfree _ hmem
  refine ensures_foldlM mask? room (FieldsReady present)
    (fun nodes sites => FieldImage r mask? nodes sites site present)
    (fun h hsites hids => h.mono hsites hids) ?_ hready hs
  rintro ⟨key, value⟩ fields table s sites hready hs
  by_cases hcase : (key == Snapshot.transientField || table.contains key ||
      Snapshot.isReserved key) = true
  · simp only [if_pos hcase]
    exact ensures_noField hready hs (.skipped (hready.passed_over_iff.1 hcase))
  · simp only [if_neg hcase]
    rw [hready.passed_over_iff, not_or, not_or, Bool.not_eq_true] at hcase
    obtain ⟨hname, hnew, hfree⟩ := hcase
    cases hvalue : value.function? with
    | some f =>
      obtain rfl : value = .function f := by
        cases value <;> simp_all [Value.function?]
      exact ensures_addFunction hready hs (.function hname hnew hfree)
    | none =>
      -- a field hidden by a property would have been passed over
      have hmem : key ∉ table.keys := fun h =>
        hnew (((hready.2 _ List.mem_cons_self).1 hfree).1 h)
      have hadd := ensures_addValue hinner hready hs hmem fun hmember =>
        FieldImage.value hname hnew hfree hvalue hmember
      cases value with
      | function f => simp [Value.function?] at hvalue
      | _ => exact hadd

end

/-! ## Saving a value -/

/-- Whatever lies inside of a value is saved with room for one container less. -/
def SavesInside (r : Realm P) (mask? : Option (List String)) (room : Nat) (inner? : Option Inner) :
    Prop :=
  ∀ inner, inner? = some inner → ∃ less, room = less + 1 ∧
    ∀ path, Saves r mask? less path (inner path)

section

variable {r : Realm P} {mask? : Option (List String)} {room : Nat} {s : Saving}
  {sites : List Site} {inner? : Option Inner} {path : List Handle}

theorem ensures_saveArray (hinner : SavesInside r mask? room inner?) (hs : Lawful s sites)
    {value : Value} {origin : Option Handle} {items : List Value}
    (harray : arrayOf? r value = some (origin, items)) :
    Ensures r (saveArray r inner? path origin items) s fun entry s' =>
      ∃ sites', Emits r mask? room s sites [entry] s' sites' ∧
        Images r s'.nodes sites' path [value] [some entry] := by
  unfold saveArray
  cases inner? with
  | none => exact ensures_throw_depth
  | some inner =>
    obtain ⟨less, rfl, hsaves⟩ := hinner inner rfl
    by_cases hcut : origin.any path.contains = true
    · simp only [if_pos hcut]
      cases origin with
      | none => simp at hcut
      | some h =>
        have hmem : h ∈ path := by simpa using hcut
        exact ensures_pure ⟨sites, (Emits.refl hs).leaf rfl (by simp [Entry.stubs]),
          .single (.cut harray hmem)⟩
    · simp only [if_neg hcut]
      refine ensures_bind ((ensures_items (hsaves (origin.toList ++ path)) hs).imp ?_)
      rintro entries s' ⟨sites', inside, rfl, hemits, himages⟩
      refine ensures_pure ⟨sites', hemits.array, .array harray ?_ himages .nil⟩
      rintro h rfl hmem
      exact hcut (by simpa using hmem)

/-- What happens to an object when its node has been made and its properties are there. -/
theorem ensures_restOfNode (site : Site) {inner : Value → SavingM (Option Entry)} {less : Nat}
    {object : ScriptObject P}
    {index : Nat} (hindex : index = s.nodes.size) (hsize : sites.length = s.nodes.size)
    (hsaves : Saves r mask? less site.path inner)
    (hget : r.heap.get? site.owner = some object) (hitems : object.items? = none)
    {className : Option String} (hclassName : (registered? r object).map Prod.snd = className)
    {table : Table Entry} {s₁ : Saving} {sites₁ : List Site}
    (properties : List (Option (String × Entry)))
    (htable : table.entries = properties.reduceOption)
    (hemits : Emits r mask? less (s.withNode site.owner className) (sites ++ [site])
      (properties.reduceOption.map Prod.snd) s₁ sites₁)
    (hproperties : List.Forall₂ (PropertyImage r mask? s₁.nodes sites₁ site)
      (propertiesOf r object) properties) :
    Ensures r (do
        let entries ← addFields r mask? inner object table
        modify fun s =>
          { s with nodes := s.nodes.modify index fun node => { node with entries } }
        return some (.node index)) s₁ fun image? s' =>
      ∃ sites', Emits r mask? (less + 1) s sites image?.toList s' sites' ∧
        Images r s'.nodes sites' site.path [.object site.owner] [image?] := by
  have hkeys : table.keys = properties.reduceOption.map Prod.fst := by
    rw [Table.keys, htable]
  have hfree : ∀ key ∈ properties.reduceOption.map Prod.fst, Snapshot.isReserved key = false := by
    intro key hkey
    obtain ⟨⟨k, entry⟩, hmem, rfl⟩ := List.mem_map.1 hkey
    obtain ⟨binding, -, himage⟩ :=
      exists_of_forall₂_right hproperties (List.reduceOption_mem_iff.1 hmem)
    exact himage.key.2
  refine ensures_bind ((ensures_addFields hsaves hemits.lawful object hkeys hfree).imp ?_)
  rintro table' s₂ ⟨sites₂, fields, htable', hemits', hfields⟩
  subst hindex
  have hvalues : table'.values =
      properties.reduceOption.map Prod.snd ++ fields.reduceOption.map Prod.snd := by
    rw [Table.values, htable', htable, List.map_append]
  have hall := hemits.append hemits'
  rw [← hvalues] at hall
  -- what the properties are shown as stays while the fields are added
  have hcontent : ∀ node : Snapshot.Node, node.className = className → node.entries = table' →
      Content r mask? s₂.nodes sites₂ site node object := by
    intro node hclass hentries
    refine ⟨hget, hitems, hclass.trans hclassName.symm, properties, fields, ?_, hfields, ?_⟩
    · exact hproperties.imp fun _ _ himage =>
        himage.mono hemits'.sites_prefix fun _ _ => hemits'.kept.idAt
    · rw [hentries, htable', htable]
  -- the site has been noted together with the node
  have hsite : sites₂[s.nodes.size]? = some site := by
    obtain ⟨more, rfl⟩ := hall.sites_prefix
    rw [List.append_assoc, ← hsize, List.getElem?_append_right (le_refl _), Nat.sub_self]
    rfl
  have hnode := hall.node hsize hcontent
  exact ensures_bind (ensures_modify (ensures_pure ⟨sites₂, hnode, .single (.node hsite)⟩))

theorem ensures_saveObject (hinner : SavesInside r mask? room inner?)
    (hnames : ∀ c, ((r.registry.visibleProperties c).map BoundProperty.name).Nodup)
    (hs : Lawful s sites) {h : Handle}
    (hcontainer : ∀ object, r.heap.get? h = some object → object.items? = none) (force : Bool) :
    Ensures r (saveObject r mask? inner? path h force) s fun image? s' =>
      ∃ sites', Emits r mask? room s sites image?.toList s' sites' ∧
        Images r s'.nodes sites' path [.object h] [image?] := by
  unfold saveObject
  refine ensures_bind (ensures_get ?_)
  cases hlookup : s.saved.lookup h with
  | some index =>
    obtain ⟨site, hsite, rfl⟩ := hs.site_of_lookup hlookup
    have hindex : index < s.nodes.size := by
      rw [← hs.size]
      exact (List.getElem?_eq_some_iff.1 hsite).1
    refine ensures_bind ((ensures_identifier mask? room hs hindex).imp ?_)
    rintro id s' ⟨hemits, hid⟩
    exact ensures_pure ⟨sites, hemits, .single (.stub hsite hid)⟩
  | none =>
    cases inner? with
    | none => exact ensures_throw_depth
    | some inner =>
      obtain ⟨less, rfl, hsaves⟩ := hinner inner rfl
      cases hget : r.heap.get? h with
      | none =>
        exact ensures_pure ⟨sites, (Emits.refl hs).leaf rfl (by simp [Entry.stubs]),
          .single (.dead hget)⟩
      | some object =>
        simp only []
        by_cases htransient : (!force && isTransient object) = true
        · rw [if_pos htransient]
          simp only [Bool.and_eq_true] at htransient
          exact ensures_pure ⟨sites, Emits.refl hs, .single (.transient hget htransient.2)⟩
        rw [if_neg htransient]
        by_cases hsingleton : r.isSingletonInstance h = true
        · rw [if_pos hsingleton]
          exact ensures_pure ⟨sites, (Emits.refl hs).leaf rfl (by simp [Entry.stubs]),
            .single (.singleton hsingleton)⟩
        rw [if_neg hsingleton]
        refine ensures_bind (ensures_bind (ensures_get (ensures_bind (ensures_set (ensures_pure ?_)))))
        -- from here on the object has a node
        have hnew : (⟨h, path⟩ : Site).owner ∉ sites.map Site.owner :=
          hs.not_mem_of_lookup hlookup
        have hmatch : (object.class?.bind fun c => (r.registry.get? c).bind fun d =>
            if d.outline.builtin = true then none else some (c, d.outline.name)) =
              registered? r object := rfl
        rw [hmatch]
        generalize hclassName : (registered? r object).map Prod.snd = className
        have hlawful := hs.withNode className hnew
        have hitems := hcontainer object hget
        cases hregistered : registered? r object with
        | none =>
          have hnothing : propertiesOf r object = [] := by
            rw [propertiesOf, hregistered]
            rfl
          refine ensures_bind (ensures_pure ?_)
          refine ensures_restOfNode ⟨h, path⟩ rfl hs.size (hsaves path) hget hitems hclassName
            [] rfl (Emits.refl hlawful) ?_
          rw [hnothing]
          exact .nil
        | some named =>
          have hvisible : propertiesOf r object = r.registry.visibleProperties named.1 := by
            rw [propertiesOf, hregistered]
            rfl
          have hproperties := ensures_addProperties ⟨h, path⟩ (hsaves path) hlawful named.1
            (hnames named.1)
          refine ensures_bind (hproperties.imp ?_)
          rintro table s₁ ⟨sites₁, outs, htable, hemits, hall⟩
          rw [← hvisible] at hall
          exact ensures_restOfNode ⟨h, path⟩ rfl hs.size (hsaves path) hget hitems hclassName outs
            htable hemits hall

theorem saves_saveWith (hinner : SavesInside r mask? room inner?)
    (hnames : ∀ c, ((r.registry.visibleProperties c).map BoundProperty.name).Nodup)
    (path : List Handle) : Saves r mask? room path (saveWith r mask? inner? path) := by
  intro value s sites hs
  have hscalar : ∀ {entry : Entry}, scalar? value = some entry →
      Ensures r (pure (some entry)) s fun image? s' => ∃ sites',
        Emits r mask? room s sites image?.toList s' sites' ∧
          Images r s'.nodes sites' path [value] [image?] := by
    intro entry hentry
    have hleaf : entry.isLeaf = true ∧ entry.stubs = [] := by
      cases value <;> simp only [scalar?, Option.some.injEq, reduceCtorEq] at hentry <;>
        subst hentry <;> simp [Entry.isLeaf, Entry.stubs]
    exact ensures_pure ⟨sites, (Emits.refl hs).leaf hleaf.1 hleaf.2, .single (.scalar hentry)⟩
  have harray : ∀ {origin : Option Handle} {items : List Value},
      arrayOf? r value = some (origin, items) →
      Ensures r (do return some (← saveArray r inner? path origin items)) s fun image? s' =>
        ∃ sites', Emits r mask? room s sites image?.toList s' sites' ∧
          Images r s'.nodes sites' path [value] [image?] := by
    intro origin items hitems
    refine ensures_bind ((ensures_saveArray hinner hs hitems).imp ?_)
    rintro entry s' ⟨sites', hemits, himages⟩
    exact ensures_pure ⟨sites', hemits, himages⟩
  cases value with
  | undefined => exact ensures_pure ⟨sites, Emits.refl hs, .single .undefined⟩
  | function f => exact ensures_pure ⟨sites, Emits.refl hs, .single .function⟩
  | array origin items => exact harray rfl
  | object h =>
    simp only [saveWith]
    cases hget : r.heap.get? h with
    | none =>
      exact ensures_pure ⟨sites, (Emits.refl hs).leaf rfl (by simp [Entry.stubs]),
        .single (.dead hget)⟩
    | some object =>
      cases hitems : object.items? with
      | none =>
        simp only [hitems]
        refine ensures_saveObject hinner hnames hs ?_ false
        rintro object' hget'
        rw [hget] at hget'
        rw [← Option.some.inj hget', hitems]
      | some items =>
        simp only [hitems]
        have hvalue : arrayOf? r (.object h) = some (some h, items.toList) := by
          simp [arrayOf?, hget, hitems]
        exact harray hvalue
  | _ => exact hscalar rfl

/-- Whatever is saved, is saved in a step that makes the nodes that a walk meets. -/
theorem saves_save
    (hnames : ∀ c, ((r.registry.visibleProperties c).map BoundProperty.name).Nodup) (room : Nat)
    (path : List Handle) : Saves r mask? room path (save r mask? room path) := by
  induction room generalizing path with
  | zero =>
    refine saves_saveWith ?_ hnames path
    intro inner hinner
    simp at hinner
  | succ room ih =>
    refine saves_saveWith ?_ hnames path
    intro inner hinner
    rw [← Option.some.inj hinner]
    exact ⟨room, rfl, ih⟩

theorem savesInside_inner?
    (hnames : ∀ c, ((r.registry.visibleProperties c).map BoundProperty.name).Nodup) (room : Nat) :
    SavesInside r mask? room (Saving.inner? r mask? room) := by
  cases room with
  | zero =>
    intro inner hinner
    simp [Saving.inner?] at hinner
  | succ room =>
    intro inner hinner
    rw [← Option.some.inj hinner]
    exact ⟨room, rfl, saves_save hnames room⟩

theorem ensures_saveRoot (mask? : Option (List String))
    (hnames : ∀ c, ((r.registry.visibleProperties c).map BoundProperty.name).Nodup)
    (force : Bool) (value : Value) (hs : Lawful s sites) :
    Ensures r (saveRoot r mask? force value) s fun image? s' => ∃ sites',
      Emits r mask? r.options.depthLimit s sites image?.toList s' sites' ∧
        Images r s'.nodes sites' [] [value] [image?] := by
  unfold saveRoot
  cases hroot : value.object?.filter fun h => ((r.heap.get? h).bind ScriptObject.items?).isNone with
  | none => exact saves_save hnames _ [] value s sites hs
  | some h =>
    obtain ⟨hobject, hnone⟩ := Option.filter_eq_some_iff.1 hroot
    obtain rfl : value = .object h := by
      cases value <;> simp_all [Value.object?]
    refine ensures_saveObject (savesInside_inner? hnames _) hnames hs ?_ force
    intro object hget
    simpa [hget] using hnone

end

/-- The stubs of a whole snapshot. -/
theorem namedFrom_zero {s : Snapshot} {id : String} :
    NamedFrom s.nodes 0 [s.root] id ↔ id ∈ Entry.stubsOf s.allEntries := by
  have hsplit : Entry.stubsOf s.allEntries = Entry.stubsOf [s.root] ++
      Entry.stubsOf (s.nodes.toList.flatMap fun node => node.entries.values) := by
    rw [← Entry.stubsOf_append]
    rfl
  rw [hsplit, List.mem_append]
  refine or_congr Iff.rfl ?_
  rw [Entry.mem_stubsOf_iff]
  constructor
  · rintro ⟨j, node, -, hnode, hid⟩
    obtain ⟨entry, hentry, hid⟩ := Entry.mem_stubsOf_iff.1 hid
    rw [Array.getElem?_toList.symm] at hnode
    exact ⟨entry, List.mem_flatMap.2 ⟨node, List.mem_of_getElem? hnode, hentry⟩, hid⟩
  · rintro ⟨entry, hentry, hid⟩
    obtain ⟨node, hnode, hentry⟩ := List.mem_flatMap.1 hentry
    obtain ⟨j, hj⟩ := List.mem_iff_getElem?.1 hnode
    rw [Array.getElem?_toList] at hj
    exact ⟨j, node, Nat.zero_le _, hj, Entry.mem_stubsOf_iff.2 ⟨entry, hentry, hid⟩⟩

/-- What has been saved from the start on is an orderly snapshot. -/
theorem Emits.orderly {r : Realm P} {mask? : Option (List String)} {room : Nat} {root : Entry}
    {s : Saving} {sites : List Site}
    (h : Emits r mask? room ⟨#[], [], 0⟩ [] [root] s sites) :
    (⟨s.nodes, root⟩ : Snapshot).Orderly room := by
  have hvisits : Visits s.nodes room [root] (List.range s.nodes.size) := by
    rw [List.range_eq_range']
    exact h.visits
  refine ⟨Snapshot.once_of_visits hvisits, hvisits, h.lawful.distinct, fun id => ?_, ?_⟩
  · rw [← namedFrom_zero]
    refine ⟨h.named id, ?_⟩
    rintro ⟨i, hi⟩
    rcases h.used i id hi with hnone | hnamed
    · simp [Snapshot.idAt?] at hnone
    · exact hnamed
  · intro node hnode key entry hmem
    obtain ⟨i, hi, rfl⟩ := Array.mem_iff_getElem.1 hnode
    have hsite : i < sites.length := by
      rw [h.lawful.size]
      exact hi
    obtain ⟨object, hcontent⟩ := h.content i _ _ (Nat.zero_le _) (Array.getElem?_eq_getElem hi)
      (List.getElem?_eq_getElem hsite)
    rcases hcontent.keys hmem with hfree | ⟨name, text, rfl, rfl⟩
    · obtain ⟨hclass, hid, hstub, hplain⟩ := Snapshot.isReserved_eq_false_iff.1 hfree
      exact ⟨hclass, hid, hstub, fun name hname =>
        absurd hname.symm (Snapshot.functionKey_ne hplain name)⟩
    · exact ⟨Snapshot.functionKey_ne (by decide) _, Snapshot.functionKey_ne (by decide) _,
        Snapshot.functionKey_ne (by decide) _, fun _ _ => ⟨text, rfl⟩⟩

/-- What a run of saving leaves behind is orderly, and shows the graph. -/
theorem shows_of_run {r : Realm P}
    (hnames : ∀ c, ((r.registry.visibleProperties c).map BoundProperty.name).Nodup)
    {mask? : Option (List String)} {force : Bool} {value : Value} {image? : Option Entry} {s : Saving}
    (hrun : (saveRoot r mask? force value).run ⟨#[], [], 0⟩ = .ok (image?, s)) :
    (⟨s.nodes, image?.getD .null⟩ : Snapshot).Orderly r.options.depthLimit ∧
    ∃ sites, Lawful s sites ∧ Shows r mask? value ⟨s.nodes, image?.getD .null⟩ sites := by
  have h := ensures_saveRoot mask? hnames force value lawful_start
  unfold Ensures at h
  rw [hrun] at h
  obtain ⟨sites, hemits, himages⟩ := h
  have hroot : Emits r mask? r.options.depthLimit ⟨#[], [], 0⟩ [] [image?.getD .null] s sites := by
    cases image? with
    | none => exact hemits.leaf rfl (by simp [Entry.stubs])
    | some entry => exact hemits
  have hcontent := fun i node site => hemits.content i node site (Nat.zero_le _)
  exact ⟨hroot.orderly, sites, hemits.lawful,
    hemits.lawful.size, hemits.lawful.nodup, hcontent, image?, rfl, himages⟩

end ScriptBridge.Saving

namespace ScriptBridge.Realm

open Snapshot (Entry idAt?)
open Saving (Shows)

variable {P : Platform}

/-- Saving a graph fails for lack of room or because of a getter, or it makes an orderly snapshot
that shows the graph. -/
theorem save_shows {r : Realm P}
    (hnames : ∀ c, ((r.registry.visibleProperties c).map BoundProperty.name).Nodup)
    (value : Value) (force : Bool) (mask? : Option (List String)) :
    (r.save value force mask? = .error (.depthExceeded r.options.depthLimit)) ∨
    (∃ cause, r.save value force mask? = .error (.script cause)) ∨
    ∃ s, r.save value force mask? = .ok s ∧ s.Orderly r.options.depthLimit ∧
      ∃ sites, Shows r mask? value s sites := by
  have h := Saving.ensures_saveRoot mask? hnames force value Saving.lawful_start
  unfold Saving.Ensures at h
  unfold save
  cases hrun : (Saving.saveRoot r mask? force value).run ⟨#[], [], 0⟩ with
  | error error =>
    rw [hrun] at h
    rcases h with rfl | ⟨cause, rfl⟩
    · exact Or.inl rfl
    · exact Or.inr (Or.inl ⟨cause, rfl⟩)
  | ok outcome =>
    obtain ⟨horderly, sites, -, hshows⟩ := Saving.shows_of_run hnames hrun
    exact Or.inr (Or.inr ⟨_, rfl, horderly, sites, hshows⟩)

/-- What has been saved is orderly, and shows the graph. -/
theorem shows_of_save {r : Realm P}
    (hnames : ∀ c, ((r.registry.visibleProperties c).map BoundProperty.name).Nodup)
    {value : Value} {force : Bool} {mask? : Option (List String)} {s : Snapshot}
    (h : r.save value force mask? = .ok s) :
    s.Orderly r.options.depthLimit ∧ ∃ sites, Shows r mask? value s sites := by
  rcases save_shows hnames value force mask? with h' | ⟨cause, h'⟩ | ⟨s', h', hs⟩
  · cases h.symm.trans h'
  · cases h.symm.trans h'
  · obtain rfl := Except.ok.inj (h.symm.trans h')
    exact hs

/-- Saving from a realm that can come about fails for lack of room or because of a getter, or it makes
an orderly snapshot that shows the graph. -/
theorem Reachable.save_orderly {r : Realm P} (hr : r.Reachable) (value : Value) (force : Bool)
    (mask? : Option (List String)) :
    (r.save value force mask? = .error (.depthExceeded r.options.depthLimit)) ∨
    (∃ cause, r.save value force mask? = .error (.script cause)) ∨
    ∃ s, r.save value force mask? = .ok s ∧ s.Orderly r.options.depthLimit ∧
      ∃ sites, Shows r mask? value s sites :=
  save_shows hr.sound.registry.nodup_visibleProperties value force mask?

/-- A realm in which an object refers to itself. -/
def ofLoop : Realm Scenario.platform :=
  after (putProperty ⟨1, 0⟩ "self" (.object ⟨1, 0⟩) false)
    (ofRegistry .builtins .standard Scenario.Stage.empty).newObject.2

theorem reachable_ofLoop : ofLoop.Reachable := by
  have hsteps : Steps (ofRegistry .builtins .standard Scenario.Stage.empty) ofLoop :=
    .tail (.single (.newObject _)) (.putProperty ⟨1, 0⟩ "self" (.object ⟨1, 0⟩) false _)
  have hcapacity : ofLoop.heap.capacity = 2 := by cbv
  exact ⟨.builtins, .standard, Scenario.Stage.empty, .builtins, hsteps, by rw [hcapacity]; decide⟩

/-- An object that refers to itself has one node, whose identifier the stub in it names. -/
theorem save_orderly_loop :
    ofLoop.Reachable ∧
    ∃ s, ofLoop.save (.object ⟨1, 0⟩) false none = .ok s ∧ s.Orderly 100 ∧
      s.nodes.map Snapshot.Node.id = #[some "1"] ∧ Entry.stubsOf s.allEntries = ["1"] := by
  have hsave : ofLoop.save (.object ⟨1, 0⟩) false none =
      .ok ⟨#[⟨none, some "1", ⟨[("self", .stub "1")], by decide⟩⟩], .node 0⟩ := by cbv
  have hlimit : ofLoop.options.depthLimit = 100 := by cbv
  refine ⟨reachable_ofLoop, _, hsave, ?_, by cbv, by cbv⟩
  rcases reachable_ofLoop.save_orderly (.object ⟨1, 0⟩) false none with h | ⟨cause, h⟩ | ⟨s, h, hs, -⟩
  · rw [hsave] at h
    cases h
  · rw [hsave] at h
    cases h
  · rw [hsave] at h
    rw [hlimit, ← Except.ok.inj h] at hs
    exact hs

end ScriptBridge.Realm
