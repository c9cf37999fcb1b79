import ScriptBridge.Proofs.Realm.Changes
import ScriptBridge.Proofs.Heap.Collection

/-!
# Protection

A protected object is there until its last protection is taken down: other operations leave it what
it is, and a collection does not free it. A run of operations is careful when it drops no protection
that it has not added itself, so what was protected at its start is there all along.

Main statements: `Step.cases` (what an operation can do), `Reachable.positive` and `Careful.nature?`.
-/

namespace ScriptBridge

variable {P : Platform}

/-! ## Counts -/

namespace Roots

/-- Every handle that is listed is protected at least once. -/
def Positive (roots : Roots) : Prop := ∀ h ∈ roots.handles, 0 < roots.count h

theorem positive_empty : Roots.empty.Positive := fun h hh => by simp [handles, empty] at hh

theorem mem_handles_of_count_pos {roots : Roots} {h : Handle} (hcount : 0 < roots.count h) :
    h ∈ roots.handles := by
  unfold count at hcount
  cases hlookup : roots.counts.lookup h with
  | none => simp [hlookup] at hcount
  | some n =>
    have hmem : (h, n) ∈ roots.counts := by
      generalize roots.counts = counts at hlookup
      induction counts with
      | nil => simp at hlookup
      | cons head rest ih =>
        obtain ⟨k, m⟩ := head
        rw [List.lookup_cons] at hlookup
        split at hlookup
        · next heq =>
          rw [eq_of_beq heq, Option.some.inj hlookup]
          exact List.mem_cons_self
        · exact List.mem_cons_of_mem _ (ih hlookup)
    exact List.mem_map.2 ⟨_, hmem, rfl⟩

theorem Positive.mem_handles_iff {roots : Roots} (hroots : roots.Positive) {h : Handle} :
    h ∈ roots.handles ↔ 0 < roots.count h :=
  ⟨hroots h, mem_handles_of_count_pos⟩

theorem Positive.protect {roots : Roots} (hroots : roots.Positive) (h : Handle) :
    (roots.protect h).Positive := by
  intro k hk
  rw [count_protect]
  have hhandles : (roots.protect h).handles =
      if h ∈ roots.handles then roots.handles else roots.handles ++ [h] := map_fst_addTo h _
  rw [hhandles] at hk
  by_cases hkh : k = h
  · rw [if_pos hkh]
    exact Nat.succ_pos _
  -- any other handle was listed before
  · have hbefore : k ∈ roots.handles := by
      split at hk
      · exact hk
      · rcases List.mem_append.1 hk with hk | hk
        · exact hk
        · exact absurd (List.mem_singleton.1 hk) hkh
    have hcount := hroots k hbefore
    omega

theorem Positive.unprotect {roots : Roots} (hroots : roots.Positive) (h : Handle) :
    (roots.unprotect h).2.Positive := by
  intro k hk
  rw [count_unprotect]
  have hbefore : k ∈ roots.handles := (map_fst_takeFrom_sublist h roots.counts).subset hk
  have hcount := hroots k hbefore
  by_cases hkh : k = h
  -- the handle itself is listed still only if it was protected more than once
  · subst hkh
    have hmore : 1 < roots.count k := by
      obtain ⟨counts, nodup⟩ := roots
      change k ∈ (takeFrom k counts).map Prod.fst at hk
      show 1 < (counts.lookup k).getD 0
      clear hroots hbefore hcount
      induction counts with
      | nil => simp [takeFrom] at hk
      | cons head rest ih =>
        obtain ⟨a, n⟩ := head
        rw [List.map_cons, List.nodup_cons] at nodup
        by_cases ha : a = k
        · subst ha
          by_cases hn : 1 < n
          · simpa using hn
          · simp only [takeFrom, if_true, if_neg hn] at hk
            exact absurd hk nodup.1
        · have hne : ¬ k = a := fun e => ha e.symm
          simp only [takeFrom, if_neg ha, List.map_cons, List.mem_cons, hne, false_or] at hk
          rw [List.lookup_cons, beq_false_of_ne hne]
          exact ih nodup.2 hk
    rw [if_pos rfl]
    omega
  · rw [if_neg hkh]
    exact hcount

end Roots

namespace Realm

/-- The number of protections of a handle. -/
def protections (r : Realm P) (h : Handle) : Nat := r.collector.roots.count h

theorem protections_protect (r : Realm P) (h k : Handle) :
    (r.protect h).protections k = r.protections k + if k = h then 1 else 0 :=
  r.collector.roots.count_protect h k

theorem protections_unprotect (r : Realm P) (h k : Handle) :
    (r.unprotect h).2.protections k = r.protections k - if k = h then 1 else 0 :=
  r.collector.roots.count_unprotect h k

theorem Alters.protections {edits : Handle → Prop} {makes : ScriptObject P → Prop} {r r' : Realm P}
    (h : Alters edits makes r r') (k : Handle) : r'.protections k = r.protections k := by
  unfold Realm.protections
  rw [h.roots]

theorem count_cons (h : Handle) (handles : List Handle) (k : Handle) :
    (h :: handles).count k = handles.count k + if k = h then 1 else 0 := by
  rw [List.count_cons]
  by_cases hk : k = h
  · simp [hk]
  · simp [hk, Ne.symm hk]

/-- Takes down one protection for each handle of a list. -/
def unprotectAll (handles : List Handle) (r : Realm P) : Realm P :=
  handles.foldl (fun r h => (r.unprotect h).2) r

@[simp] theorem heap_unprotectAll (handles : List Handle) (r : Realm P) :
    (unprotectAll handles r).heap = r.heap := by
  induction handles generalizing r with
  | nil => rfl
  | cons h handles ih => exact ih (r.unprotect h).2

@[simp] theorem singletons_unprotectAll (handles : List Handle) (r : Realm P) :
    (unprotectAll handles r).singletons = r.singletons := by
  induction handles generalizing r with
  | nil => rfl
  | cons h handles ih => exact ih (r.unprotect h).2

theorem protections_unprotectAll (handles : List Handle) (r : Realm P) (k : Handle) :
    (unprotectAll handles r).protections k = r.protections k - handles.count k := by
  induction handles generalizing r with
  | nil => rfl
  | cons h handles ih =>
    have hrest : (unprotectAll (h :: handles) r).protections k =
        (unprotectAll handles (r.unprotect h).2).protections k := rfl
    rw [hrest, ih, protections_unprotect, count_cons, Nat.sub_sub, Nat.add_comm]

/-! ## Operations -/

theorem steps_unprotectAll (handles : List Handle) (r : Realm P) :
    r.Steps (unprotectAll handles r) := by
  induction handles generalizing r with
  | nil => exact .refl
  | cons h handles ih => exact .head (.unprotect h r) (ih _)

/-- At the end of a frame a collection takes place or not. -/
theorem finishFrame_cases (r : Realm P) :
    r.finishFrame.2 = { r with pending := [] } ∨
      r.finishFrame.2 = ({ r with pending := [] } : Realm P).collect.2 := by
  show (if r.collector.isDue then _ else _) = _ ∨ (if r.collector.isDue then _ else _) = _
  by_cases hdue : r.collector.isDue = true
  · exact Or.inr (if_pos hdue)
  · exact Or.inl (if_neg hdue)

/-- What an operation can do: edit objects, make some that have native state where it belongs, and
perhaps protect an object; or take down a protection; or collect. -/
theorem Step.cases {r r' : Realm P} (h : Step r r') :
    (r.heap.Revisions (fun _ => True) r.registry.Furnishes r'.heap ∧
      (r'.collector.roots = r.collector.roots ∨
        ∃ k, r'.collector.roots = r.collector.roots.protect k)) ∨
    (∃ k, r' = (r.unprotect k).2) ∨
    ∃ r₀ : Realm P, r₀.collector = r.collector ∧ r' = r₀.collect.2 := by
  have hstores : Heap.Stores (fun _ => True) r.registry.Furnishes :=
    ⟨fun _ => trivial, fun _ => Registry.furnishes_of_class? rfl⟩
  have halters : Alters (fun _ => True) r.registry.Furnishes r r' →
      r.heap.Revisions (fun _ => True) r.registry.Furnishes r'.heap ∧
        (r'.collector.roots = r.collector.roots ∨
          ∃ k, r'.collector.roots = r.collector.roots.protect k) :=
    fun h => ⟨h.revisions, Or.inl h.roots⟩
  cases h with
  | newObject => exact Or.inl (halters (alters_allocate (Registry.furnishes_of_class? rfl) r))
  | newArray items => exact Or.inl (halters (alters_newArray items hstores r))
  | newFunction name body =>
    exact Or.inl (halters (alters_allocate (Registry.furnishes_of_class? rfl) r))
  | store value => exact Or.inl (halters (alters_store (Or.inr hstores) r))
  | instantiate c => exact Or.inl (halters (alters_instantiate (r.furnishes_freshForm c)))
  | wrapNative name native =>
    exact Or.inl (halters (alters_wrapNative fun _ _ _ _ _ _ _ _ => rfl))
  | publishSingleton name =>
    left
    -- an instance is made and protected, then the globals note it under its name
    rcases publishSingleton_cases name r with hsame | ⟨c, -, -, hdone⟩
    · rw [hsame]
      exact ⟨.refl, Or.inl rfl⟩
    · rw [hdone]
      have hnoted : Alters (· = r.globals) (fun _ => False) (r.installed c)
          (after (assignProperty r.globals name (.object (r.instantiate c).1)) (r.installed c)) :=
        alters_putProperty (by rfl) name (Or.inl rfl) false _
      have hmade : r.heap.Revisions (fun _ => True) r.registry.Furnishes (r.instantiate c).2.heap :=
        (alters_instantiate (r.furnishes_freshForm c)).revisions
      have hroots : (r.instantiate c).2.collector.roots = r.collector.roots :=
        (freely_instantiate c r).roots
      refine ⟨hmade.trans (hnoted.revisions.imp (fun _ _ => trivial) fun _ hfalse => hfalse.elim),
        Or.inr ⟨(r.instantiate c).1, ?_⟩⟩
      rw [hnoted.roots, ← hroots]
      rfl
  | putProperty h name value deserializing =>
    exact Or.inl (halters (alters_putProperty trivial name (Or.inr hstores) deserializing r))
  | assignElement h index value =>
    exact Or.inl (halters (alters_assignElement trivial index (Or.inr hstores) r))
  | onNative h step => exact Or.inl (halters (alters_onNative trivial false step r))
  | protect k => exact Or.inl ⟨.refl, Or.inr ⟨k, rfl⟩⟩
  | unprotect k => exact Or.inr (Or.inl ⟨k, rfl⟩)
  | collect => exact Or.inr (Or.inr ⟨r, rfl, rfl⟩)
  | report error => exact Or.inl ⟨.refl, Or.inl rfl⟩
  -- a frame that ends may bring a collection that is due
  | finishFrame =>
    rcases finishFrame_cases r with hcleared | hcollected
    · rw [hcleared]
      exact Or.inl ⟨.refl, Or.inl rfl⟩
    · exact Or.inr (Or.inr ⟨{ r with pending := [] }, rfl, hcollected⟩)

theorem Step.positive {r r' : Realm P} (h : Step r r') (hr : r.collector.roots.Positive) :
    r'.collector.roots.Positive := by
  rcases h.cases with ⟨-, hsame | ⟨k, hmore⟩⟩ | ⟨k, rfl⟩ | ⟨r₀, hsame, rfl⟩
  · rw [hsame]
    exact hr
  · rw [hmore]
    exact hr.protect k
  · exact hr.unprotect k
  · show r₀.collector.roots.Positive
    rw [hsame]
    exact hr

/-- In a realm that can come about every handle that is listed as protected is so at least once. -/
theorem Reachable.positive {r : Realm P} (hr : r.Reachable) : r.collector.roots.Positive := by
  obtain ⟨registry, options, world, -, hsteps, -⟩ := hr
  have hstart : (ofRegistry registry options world).collector.roots.Positive :=
    Roots.positive_empty.protect _
  induction hsteps with
  | refl => exact hstart
  | tail _ hstep ih => exact hstep.positive ih

/-! ## Collections -/

/-- What a collection leaves of a heap. -/
theorem get?_collect {r : Realm P} (hwf : r.heap.WellFormed) (h : Handle) :
    (r.heap.Reaches r.collector.roots.handles h → r.collect.2.heap.get? h = r.heap.get? h) ∧
    (¬ r.heap.Reaches r.collector.roots.handles h → r.collect.2.heap.get? h = none) := by
  have hexact := Collector.exact_collectInOrder (c := r.collector) hwf r.world (List.Perm.refl _)
    (List.Perm.refl _)
  rw [← Collector.collect_eq_collectInOrder] at hexact
  exact ⟨hexact.kept h, hexact.gone h⟩

/-- What is there after a collection was there before. -/
theorem get?_of_collect {r : Realm P} (hwf : r.heap.WellFormed) {h : Handle}
    {object : ScriptObject P} (hget : r.collect.2.heap.get? h = some object) :
    r.heap.get? h = some object := by
  by_cases hreach : r.heap.Reaches r.collector.roots.handles h
  · rwa [(get?_collect hwf h).1 hreach] at hget
  · rw [(get?_collect hwf h).2 hreach] at hget
    cases hget

/-- What is protected survives a collection. -/
theorem get?_collect_of_protected {r : Realm P} (hwf : r.heap.WellFormed) {h : Handle}
    {object : ScriptObject P} (hp : 0 < r.protections h) (hget : r.heap.get? h = some object) :
    r.collect.2.heap.get? h = some object := by
  rw [← hget]
  apply (get?_collect hwf h).1
  exact .start (Roots.mem_handles_of_count_pos hp) hget

/-! ## Careful Runs -/

/-- An operation, or a change of what the embedding program keeps outside of the heap. -/
inductive Turn : Realm P → Realm P → Prop
  | step {r r' : Realm P} : Step r r' → Turn r r'
  | world (w : P.World) (r : Realm P) : Turn r { r with world := w }

/-- A run of operations that never drops a protection which it has not added itself. -/
def Careful (r r' : Realm P) : Prop :=
  Relation.ReflTransGen (fun a b => Turn a b ∧ ∀ h, r.protections h ≤ b.protections h) r r'

theorem Turn.evolves {r r' : Realm P} (h : Turn r r') : Evolves r r' := by
  cases h with
  | step hstep => exact hstep.evolves
  | world w => exact ⟨rfl, rfl, Heap.Grows.refl⟩

/-- Whatever an operation does that leaves a protection in place, what is protected stays what it
is. -/
theorem Turn.nature? {r r' : Realm P} (h : Turn r r') (hwf : r.heap.WellFormed)
    (hbound : r'.heap.capacity ≤ UInt32.size) {k : Handle} (hk : 0 < r.protections k)
    {nature : ObjectForm P} (hnature : r.heap.nature? k = some nature) :
    r'.heap.nature? k = some nature := by
  cases h with
  | world w => exact hnature
  | step hstep =>
    rcases hstep.cases with ⟨hchanges, -⟩ | ⟨h, rfl⟩ | ⟨r₀, hsame, rfl⟩
    · exact hchanges.changes.nature? hwf hbound hnature
    · exact hnature
    -- the collection sees the same heap and the same protections
    · have hheap : r₀.heap = r.heap := congrArg Collector.heap hsame
      have hprotected : 0 < r₀.protections k := by
        rw [protections, hsame]
        exact hk
      obtain ⟨object, hget, hobject⟩ := Option.map_eq_some_iff.1 hnature
      rw [← hheap] at hwf hget
      rw [Heap.nature?, get?_collect_of_protected hwf hprotected hget, Option.map_some, hobject]

/-- In a careful run no protection falls below what it was at the start. -/
theorem Careful.protections_le {r r' : Realm P} (h : Careful r r') (k : Handle) :
    r.protections k ≤ r'.protections k := by
  unfold Careful at h
  cases h with
  | refl => exact Nat.le_refl _
  | tail _ hlast => exact hlast.2 k

theorem Careful.refl (r : Realm P) : Careful r r := Relation.ReflTransGen.refl

/-- One careful run after another is careful. -/
theorem Careful.trans {a b c : Realm P} (h : Careful a b) (h' : Careful b c) : Careful a c := by
  refine Relation.ReflTransGen.trans h ?_
  refine Relation.ReflTransGen.mono ?_ b c h'
  rintro x y ⟨hturn, hkeeps⟩
  exact ⟨hturn, fun k => Nat.le_trans (h.protections_le k) (hkeeps k)⟩

theorem Careful.single {r r' : Realm P} (h : Turn r r')
    (hkeeps : ∀ k, r.protections k ≤ r'.protections k) : Careful r r' :=
  Relation.ReflTransGen.single ⟨h, hkeeps⟩

/-- One protection of each handle of a list may be taken down when there is one more than at the
start of the run. -/
theorem Careful.unprotectAll {r r' : Realm P} (h : Careful r r') (handles : List Handle)
    (hmore : ∀ k, r.protections k + handles.count k ≤ r'.protections k) :
    Careful r (unprotectAll handles r') := by
  induction handles generalizing r' with
  | nil => exact h
  | cons head handles ih =>
    have hafter : ∀ k, r.protections k + handles.count k ≤ (r'.unprotect head).2.protections k := by
      intro k
      have hk := hmore k
      rw [count_cons] at hk
      rw [protections_unprotect]
      omega
    refine ih (Relation.ReflTransGen.tail h ⟨.step (.unprotect head r'), fun k => ?_⟩) hafter
    exact Nat.le_trans (Nat.le_add_right _ _) (hafter k)

theorem Careful.evolves {r r' : Realm P} (h : Careful r r') : Evolves r r' := by
  unfold Careful at h
  induction h with
  | refl => exact Evolves.refl r
  | tail _ hlast ih => exact ih.trans hlast.1.evolves

/-- What is protected at the start of a careful run is there at its end, and is what it was. -/
theorem Careful.nature? {r r' : Realm P} (h : Careful r r') (hwf : r.heap.WellFormed)
    (hslotted : r.heap.Slotted) (hbound : r'.heap.capacity ≤ UInt32.size) {k : Handle}
    (hk : 0 < r.protections k) {nature : ObjectForm P} (hnature : r.heap.nature? k = some nature) :
    r'.heap.nature? k = some nature := by
  unfold Careful at h
  induction h with
  | refl => exact hnature
  | @tail a b hrun hlast ih =>
    have hrun : Careful r a := hrun
    have hbefore : a.heap.capacity ≤ UInt32.size :=
      Nat.le_trans hlast.1.evolves.heap.capacity hbound
    have hwf' := (hrun.evolves.heap.sound hwf hslotted hbefore).1
    exact hlast.1.nature? hwf' hbound (Nat.lt_of_lt_of_le hk (hrun.protections_le k)) (ih hbefore)

end Realm

end ScriptBridge
