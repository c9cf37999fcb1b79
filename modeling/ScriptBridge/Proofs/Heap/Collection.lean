import ScriptBridge.Proofs.Heap.WellFormed
import ScriptBridge.Heap.Collector
import ScriptBridge.Scenario.Script
import Mathlib

/-!
# Exactness of Collections

A collection frees the objects that cannot be reached from the protected handles, and no others.
Reachability is a relation on handles; the marking computes it, whatever the graph looks like and
in whatever order the handles are visited.

## Main results

- `Heap.marksFrom_iff`: the marked objects are the reachable ones.
- `Heap.get?_releaseAll`: a sweep removes the objects that it is given, and no others.
- `Collector.collect_exact`: what a collection frees, keeps, counts and tells, for every order in
  which protected handles are visited and dying objects are told and freed.
-/

namespace ScriptBridge

namespace Heap

variable {P : Platform}

/-! ## Reachability -/

/-- An object can be reached from some handles: it is the object of one of them, or an object that
can be reached refers to it. Handles that do not resolve lead nowhere. -/
inductive Reaches (heap : Heap P) (start : List Handle) : Handle → Prop where
  | start {h : Handle} {object : ScriptObject P} :
      h ∈ start → heap.get? h = some object → Reaches heap start h
  | step {h k : Handle} {object target : ScriptObject P} :
      Reaches heap start h → heap.get? h = some object → k ∈ object.handles →
      heap.get? k = some target → Reaches heap start k

theorem Reaches.resolves {heap : Heap P} {start : List Handle} {h : Handle}
    (hr : heap.Reaches start h) : ∃ object, heap.get? h = some object := by
  cases hr with
  | start _ hget => exact ⟨_, hget⟩
  | step _ _ _ hget => exact ⟨_, hget⟩

/-- What can be reached depends on the members of the list only. -/
theorem reaches_congr {heap : Heap P} {start other : List Handle}
    (hmem : ∀ h, h ∈ start ↔ h ∈ other) {h : Handle} :
    heap.Reaches start h ↔ heap.Reaches other h := by
  constructor
  · intro hr
    induction hr with
    | start hstart hget => exact .start ((hmem _).1 hstart) hget
    | step _ hget hk hkget ih => exact .step ih hget hk hkget
  · intro hr
    induction hr with
    | start hstart hget => exact .start ((hmem _).2 hstart) hget
    | step _ hget hk hkget ih => exact .step ih hget hk hkget

/-! ## Marking -/

/-- A handle that does not resolve is passed over. -/
theorem mark_of_dead {heap : Heap P} {marks : Array Bool} {h : Handle} {rest : List Handle}
    (hget : heap.get? h = none) : heap.mark marks (h :: rest) = heap.mark marks rest := by
  rw [mark, hget]

/-- An object without a mark is marked, and what it refers to comes next. -/
theorem mark_of_unmarked {heap : Heap P} {marks : Array Bool} {h : Handle} {rest : List Handle}
    {object : ScriptObject P} (hget : heap.get? h = some object)
    (hm : marks[h.index.toNat]? = some false) :
    heap.mark marks (h :: rest) =
      heap.mark (marks.setIfInBounds h.index.toNat true) (object.handles ++ rest) := by
  rw [mark, hget]
  simp only
  split
  · rfl
  · next hno => exact absurd hm hno

/-- An object with a mark is passed over. -/
theorem mark_of_marked {heap : Heap P} {marks : Array Bool} {h : Handle} {rest : List Handle}
    {object : ScriptObject P} (hget : heap.get? h = some object)
    (hm : marks[h.index.toNat]? ≠ some false) :
    heap.mark marks (h :: rest) = heap.mark marks rest := by
  rw [mark, hget]
  simp only

/-- Marks stay. -/
theorem mark_mono {heap : Heap P} {marks : Array Bool} {work : List Handle} {i : Nat}
    (hi : marks[i]? = some true) : (heap.mark marks work)[i]? = some true := by
  induction marks, work using Heap.mark.induct heap with
  | case1 marks => rwa [mark]
  | case2 marks h rest hget ih =>
    rw [mark_of_dead hget]
    exact ih hi
  | case3 marks h rest object hget hm ih =>
    rw [mark_of_unmarked hget hm]
    apply ih
    obtain ⟨hlt, hv⟩ := Array.getElem?_eq_some_iff.1 hi
    simp only [Array.getElem?_setIfInBounds, hi]
    split
    · next heq => rw [heq, if_pos hlt]
    · rfl
  | case4 marks h rest object hget hm ih =>
    rw [mark_of_marked hget hm]
    exact ih hi

/-- Soundness of marking: if all that is marked and all that is still to be visited can be reached,
then only what can be reached is marked in the end. -/
theorem mark_sound {heap : Heap P} {start : List Handle} {marks : Array Bool} {work : List Handle}
    (hmarks : ∀ i : Nat, marks[i]? = some true →
      ∃ h, heap.Reaches start h ∧ h.index.toNat = i)
    (hwork : ∀ h ∈ work, ∀ object, heap.get? h = some object → heap.Reaches start h) {i : Nat}
    (hi : (heap.mark marks work)[i]? = some true) :
    ∃ h, heap.Reaches start h ∧ h.index.toNat = i := by
  induction marks, work using Heap.mark.induct heap with
  | case1 marks =>
    rw [mark] at hi
    exact hmarks i hi
  | case2 marks h rest hget ih =>
    rw [mark_of_dead hget] at hi
    exact ih hmarks (fun k hk => hwork k (List.mem_cons_of_mem _ hk)) hi
  | case3 marks h rest object hget hm ih =>
    rw [mark_of_unmarked hget hm] at hi
    have hreach := hwork h List.mem_cons_self object hget
    refine ih ?_ ?_ hi
    · intro j hj
      rw [Array.getElem?_setIfInBounds] at hj
      split at hj
      · next heq => exact ⟨h, hreach, heq⟩
      · exact hmarks j hj
    -- what a reachable object refers to can be reached
    · intro k hk target hkget
      rcases List.mem_append.1 hk with hchild | hrest
      · exact hreach.step hget hchild hkget
      · exact hwork k (List.mem_cons_of_mem _ hrest) target hkget
  | case4 marks h rest object hget hm ih =>
    rw [mark_of_marked hget hm] at hi
    exact ih hmarks (fun k hk => hwork k (List.mem_cons_of_mem _ hk)) hi

/-- Whatever a marked object refers to is marked or still to be visited. -/
def Closed (heap : Heap P) (marks : Array Bool) (work : List Handle) : Prop :=
  ∀ h object, heap.get? h = some object → marks[h.index.toNat]? = some true →
    ∀ k ∈ object.handles, ∀ target, heap.get? k = some target →
      marks[k.index.toNat]? = some true ∨ k ∈ work

/-- A handle may be dropped that does not resolve or whose object is marked. -/
theorem Closed.drop {heap : Heap P} {marks : Array Bool} {h : Handle} {rest : List Handle}
    (hc : heap.Closed marks (h :: rest))
    (hdrop : ∀ object, heap.get? h = some object → marks[h.index.toNat]? = some true) :
    heap.Closed marks rest := by
  intro g object hget hm k hk target hkget
  rcases hc g object hget hm k hk target hkget with hmarked | hmem
  · exact Or.inl hmarked
  · rcases List.mem_cons.1 hmem with rfl | hmem
    · exact Or.inl (hdrop target hkget)
    · exact Or.inr hmem

/-- An object may be marked when all that it refers to is visited next. -/
theorem Closed.visit {heap : Heap P} {marks : Array Bool} {h : Handle} {rest : List Handle}
    {object : ScriptObject P} (hc : heap.Closed marks (h :: rest))
    (hget : heap.get? h = some object) (hlt : h.index.toNat < marks.size) :
    heap.Closed (marks.setIfInBounds h.index.toNat true) (object.handles ++ rest) := by
  have hset : ∀ j : Nat, marks[j]? = some true →
      (marks.setIfInBounds h.index.toNat true)[j]? = some true := by
    intro j hj
    simp only [Array.getElem?_setIfInBounds, hj, hlt, if_true, ite_self]
  intro g other hgget hgm k hk target hkget
  by_cases hgh : g.index = h.index
  -- the object that has just been marked: all that it refers to is to be visited
  · have hsame := eq_of_get?_of_index_eq hget hgget hgh
    subst hsame
    rw [hget, Option.some.injEq] at hgget
    subst hgget
    exact Or.inr (List.mem_append_left _ hk)
  · have hne : h.index.toNat ≠ g.index.toNat := fun e => hgh (UInt32.toNat_inj.1 e.symm)
    rw [Array.getElem?_setIfInBounds, if_neg hne] at hgm
    rcases hc g other hgget hgm k hk target hkget with hkm | hmem
    · exact Or.inl (hset _ hkm)
    · rcases List.mem_cons.1 hmem with rfl | hmem
      · exact Or.inl (by simp [hlt])
      · exact Or.inr (List.mem_append_right _ hmem)

/-- Completeness of marking: in the end all that was to be visited is marked, and so is whatever a
marked object refers to. -/
theorem mark_complete {heap : Heap P} {marks : Array Bool} {work : List Handle}
    (hsize : marks.size = heap.capacity) (hc : heap.Closed marks work) :
    (∀ h ∈ work, ∀ object, heap.get? h = some object →
      (heap.mark marks work)[h.index.toNat]? = some true) ∧
    heap.Closed (heap.mark marks work) [] := by
  induction marks, work using Heap.mark.induct heap with
  | case1 marks =>
    rw [mark]
    exact ⟨by simp, hc⟩
  | case2 marks h rest hget ih =>
    rw [mark_of_dead hget]
    obtain ⟨hrest, hclosed⟩ := ih hsize (hc.drop (by simp [hget]))
    refine ⟨fun k hk object hkget => ?_, hclosed⟩
    rcases List.mem_cons.1 hk with rfl | hk
    · rw [hget] at hkget
      simp at hkget
    · exact hrest k hk object hkget
  | case3 marks h rest object hget hm ih =>
    rw [mark_of_unmarked hget hm]
    obtain ⟨hlt, -⟩ := Array.getElem?_eq_some_iff.1 hm
    obtain ⟨hrest, hclosed⟩ :=
      ih (by rw [Array.size_setIfInBounds, hsize]) (hc.visit hget hlt)
    refine ⟨fun k hk other hkget => ?_, hclosed⟩
    rcases List.mem_cons.1 hk with rfl | hk
    · exact mark_mono (by simp [hlt])
    · exact hrest k (List.mem_append_right _ hk) other hkget
  | case4 marks h rest object hget hm ih =>
    rw [mark_of_marked hget hm]
    -- there is a mark for every slot, so the object has been marked before
    have hmarked : marks[h.index.toNat]? = some true := by
      obtain ⟨hlt, -⟩ := Array.getElem?_eq_some_iff.1 (get?_eq_some_iff.1 hget)
      have hlt' : h.index.toNat < marks.size := by
        rw [hsize]
        exact hlt
      rw [Array.getElem?_eq_getElem hlt'] at hm ⊢
      cases hv : marks[h.index.toNat] with
      | true => rfl
      | false => exact absurd (congrArg some hv) hm
    obtain ⟨hrest, hclosed⟩ := ih hsize (hc.drop fun _ _ => hmarked)
    refine ⟨fun k hk other hkget => ?_, hclosed⟩
    rcases List.mem_cons.1 hk with rfl | hk
    · exact mark_mono hmarked
    · exact hrest k hk other hkget

private theorem exists_reaches_of_marked {heap : Heap P} {start : List Handle} {i : Nat}
    (hi : (heap.marksFrom start)[i]? = some true) :
    ∃ h, heap.Reaches start h ∧ h.index.toNat = i := by
  refine mark_sound ?_ (fun h hh object hget => .start hh hget) hi
  intro j hj
  simp [Array.getElem?_replicate] at hj

/-- The marked objects are the ones that can be reached. -/
theorem marksFrom_iff {heap : Heap P} {start : List Handle} {h : Handle}
    {object : ScriptObject P} (hget : heap.get? h = some object) :
    (heap.marksFrom start)[h.index.toNat]? = some true ↔ heap.Reaches start h := by
  constructor
  · intro hm
    obtain ⟨k, hreach, hindex⟩ := exists_reaches_of_marked hm
    -- the slot holds one object only
    obtain ⟨target, hkget⟩ := hreach.resolves
    rwa [eq_of_get?_of_index_eq hget hkget (UInt32.toNat_inj.1 hindex)] at hreach
  · intro hreach
    have hnone : heap.Closed (Array.replicate heap.capacity false) start := by
      intro g other hgget hgm
      simp [Array.getElem?_replicate] at hgm
    obtain ⟨hstart, hclosed⟩ := mark_complete (by simp) hnone
    clear hget
    induction hreach with
    | start hmem hget => exact hstart _ hmem _ hget
    | step _ hget hk hkget ih =>
      rcases hclosed _ _ hget ih _ hk _ hkget with hm | hnil
      · exact hm
      · simp at hnil

/-- The objects that a marking leaves out are the ones that cannot be reached. -/
theorem mem_unmarked_iff {heap : Heap P} (hwf : heap.WellFormed) {start : List Handle}
    {h : Handle} :
    h ∈ heap.unmarked (heap.marksFrom start) ↔
      heap.contains h = true ∧ ¬ heap.Reaches start h := by
  rw [unmarked, List.mem_filter, mem_handles_iff hwf.bounded, contains_iff]
  constructor
  · rintro ⟨⟨object, hget⟩, hm⟩
    refine ⟨⟨object, hget⟩, fun hreach => ?_⟩
    rw [(marksFrom_iff hget).2 hreach] at hm
    simp at hm
  · rintro ⟨⟨object, hget⟩, hnot⟩
    refine ⟨⟨object, hget⟩, ?_⟩
    rw [← marksFrom_iff hget] at hnot
    cases hm : (heap.marksFrom start)[h.index.toNat]? with
    | none => rfl
    | some mark =>
      cases mark with
      | true => exact absurd hm hnot
      | false => rfl

theorem nodup_unmarked {heap : Heap P} (hwf : heap.WellFormed) (marks : Array Bool) :
    (heap.unmarked marks).Nodup := (nodup_handles hwf.bounded).filter _

/-- There are as many marks as objects that can be reached. -/
theorem count_marksFrom {heap : Heap P} (hwf : heap.WellFormed) (start : List Handle) :
    ∃ reached : List Handle, reached.Nodup ∧ (∀ h, h ∈ reached ↔ heap.Reaches start h) ∧
      (heap.marksFrom start).count true = reached.length := by
  let reached := heap.handles.filter fun h => (heap.marksFrom start)[h.index.toNat]? == some true
  have hmem : ∀ h, h ∈ reached ↔ heap.Reaches start h := by
    intro h
    rw [List.mem_filter, mem_handles_iff hwf.bounded, beq_iff_eq]
    constructor
    · rintro ⟨⟨object, hget⟩, hm⟩
      exact (marksFrom_iff hget).1 hm
    · intro hreach
      obtain ⟨object, hget⟩ := hreach.resolves
      exact ⟨⟨object, hget⟩, (marksFrom_iff hget).2 hreach⟩
  have hnodup : reached.Nodup := (nodup_handles hwf.bounded).filter _
  refine ⟨reached, hnodup, hmem, ?_⟩
  -- the marked positions are those of the reached objects
  rw [Array.count_eq_countP, countP_eq_length_positions]
  have hperm : ((List.range (heap.marksFrom start).size).filter fun i =>
      (heap.marksFrom start)[i]?.any fun mark => mark == true).Perm
        (reached.map fun h => h.index.toNat) := by
    rw [List.perm_ext_iff_of_nodup (List.nodup_range.filter _)]
    · intro i
      rw [List.mem_filter, List.mem_map, List.mem_range]
      constructor
      · rintro ⟨hi, hm⟩
        have hmark : (heap.marksFrom start)[i]? = some true := by
          rw [Array.getElem?_eq_getElem hi] at hm ⊢
          simpa using hm
        obtain ⟨h, hreach, hindex⟩ := exists_reaches_of_marked hmark
        exact ⟨h, (hmem h).2 hreach, hindex⟩
      · rintro ⟨h, hh, rfl⟩
        obtain ⟨object, hget⟩ := ((hmem h).1 hh).resolves
        have hmark := (marksFrom_iff hget).2 ((hmem h).1 hh)
        exact ⟨(Array.getElem?_eq_some_iff.1 hmark).1, by simp [hmark]⟩
    · apply List.Nodup.map_on _ hnodup
      intro h hh k hk hindex
      obtain ⟨_, hget⟩ := ((hmem h).1 hh).resolves
      obtain ⟨_, hkget⟩ := ((hmem k).1 hk).resolves
      exact eq_of_get?_of_index_eq hkget hget (UInt32.toNat_inj.1 hindex)
  rw [hperm.length_eq, List.length_map]

/-! ## Sweeping -/

/-- A sweep removes the objects that it is given, and no others. -/
theorem get?_releaseAll (heap : Heap P) (dying : List Handle) (k : Handle) :
    (heap.releaseAll dying).2.get? k = if k ∈ dying then none else heap.get? k := by
  induction dying generalizing heap with
  | nil => simp [releaseAll]
  | cons h dying ih =>
    simp only [releaseAll, ih, get?_release, List.mem_cons]
    by_cases hk : k = h <;> simp [hk]

theorem WellFormed.releaseAll {heap : Heap P} (hwf : heap.WellFormed) (dying : List Handle) :
    (heap.releaseAll dying).2.WellFormed := by
  induction dying generalizing heap with
  | nil => exact hwf
  | cons h dying ih => exact ih (hwf.release h)

/-- A sweep counts the objects that it removes. -/
theorem releaseAll_fst {heap : Heap P} {dying : List Handle} (hnodup : dying.Nodup)
    (hlive : ∀ h ∈ dying, heap.contains h = true) :
    (heap.releaseAll dying).1 = dying.length := by
  induction dying generalizing heap with
  | nil => rfl
  | cons h dying ih =>
    rw [List.nodup_cons] at hnodup
    have hfound : (heap.release h).1 = true := by
      simp [release, hlive h List.mem_cons_self]
    have hrest : ∀ k ∈ dying, (heap.release h).2.contains k = true := by
      intro k hk
      have hne : k ≠ h := fun e => hnodup.1 (e ▸ hk)
      have hkl := hlive k (List.mem_cons_of_mem _ hk)
      rw [contains, get?_release, if_neg hne]
      exact hkl
    simp only [releaseAll, hfound, if_true, ih hnodup.2 hrest, List.length_cons]
    omega

end Heap

namespace Collector

variable {P : Platform}

/-! ## Collections in any order -/

/-- A collection that visits the protected handles in the order `start`, and tells and frees the
dying objects in the order `dying`. -/
def collectInOrder (c : Collector P) (start dying : List Handle) (world : P.World) :
    Nat × Collector P × P.World :=
  let marked := (c.heap.marksFrom start).count true
  let told := { c with finalizing := dying }
  let world := told.finalizePhase world
  let (freed, swept) := told.sweepPhase
  let live := swept.heap.live
  (freed,
    { swept with
      heap := { swept.heap with allocated := 0 }
      threshold := max (live * 2) c.baseThreshold
      stats := ⟨c.stats.collections + 1, c.stats.freed + freed, marked, freed, live⟩ },
    world)

/-- A collection takes the protected handles and the dying objects in the order of their lists. -/
theorem collect_eq_collectInOrder (c : Collector P) (world : P.World) :
    c.collect world = c.collectInOrder c.roots.handles
      (c.heap.unmarked (c.heap.marksFrom c.roots.handles)) world := rfl

/-- A live object is dying when it cannot be reached from the protected handles. -/
def Dying (c : Collector P) (h : Handle) : Prop :=
  c.heap.contains h = true ∧ ¬ c.heap.Reaches c.roots.handles h

/-- The native states that are told, with their handles, in a given order. -/
def told (c : Collector P) (dying : List Handle) : List (Handle × Native P.Layer) :=
  dying.filterMap fun h => ((c.heap.get? h).bind ScriptObject.native?).map fun native => (h, native)

/-- Telling the dying objects is telling their native states one after the other. -/
theorem finalizePhase_eq (c : Collector P) (dying : List Handle) (world : P.World) :
    ({ c with finalizing := dying } : Collector P).finalizePhase world =
      (c.told dying).foldl (fun world call => P.finalizeOf dying.contains call.2 world) world := by
  have hdying : ({ c with finalizing := dying } : Collector P).isDying = dying.contains := rfl
  rw [finalizePhase, hdying, told]
  clear hdying
  -- which objects are dying does not change while they are told
  generalize dying.contains = isDying
  show dying.foldl _ world = _
  induction dying generalizing world with
  | nil => rfl
  | cons h dying ih =>
    rw [List.foldl_cons, ih, List.filterMap_cons]
    cases (c.heap.get? h).bind ScriptObject.native? <;> rfl

theorem map_fst_told_sublist (c : Collector P) (dying : List Handle) :
    ((c.told dying).map Prod.fst).Sublist dying := by
  rw [told, List.map_filterMap]
  induction dying with
  | nil => exact List.Sublist.refl _
  | cons h dying ih =>
    rw [List.filterMap_cons]
    cases (c.heap.get? h).bind ScriptObject.native? with
    | none => exact ih.cons h
    | some native => exact ih.cons_cons h

theorem mem_told_iff {c : Collector P} {dying : List Handle} {h : Handle}
    {native : Native P.Layer} :
    (h, native) ∈ c.told dying ↔
      h ∈ dying ∧ (c.heap.get? h).bind ScriptObject.native? = some native := by
  rw [told, List.mem_filterMap]
  constructor
  · rintro ⟨k, hk, hcall⟩
    obtain ⟨_, hnative, heq⟩ := Option.map_eq_some_iff.1 hcall
    simp only [Prod.mk.injEq] at heq
    obtain ⟨rfl, rfl⟩ := heq
    exact ⟨hk, hnative⟩
  · rintro ⟨hh, hnative⟩
    exact ⟨h, hh, by rw [hnative]; rfl⟩

/-- What a collection does: `freed` is its answer, `after` the collector and `worldAfter` the world
that it leaves. -/
structure Exact (c : Collector P) (world : P.World) (freed : Nat) (after : Collector P)
    (worldAfter : P.World) : Prop where
  /-- What can be reached keeps its handle and its contents. -/
  kept : ∀ h, c.heap.Reaches c.roots.handles h → after.heap.get? h = c.heap.get? h
  /-- Everything else is gone. -/
  gone : ∀ h, ¬ c.heap.Reaches c.roots.handles h → after.heap.get? h = none
  /-- The answer is the number of objects that were dying. -/
  count : ∃ dying : List Handle, dying.Nodup ∧ (∀ h, h ∈ dying ↔ c.Dying h) ∧
    freed = dying.length
  /-- The native state of each dying object is told once, as it was before the collection, and
  nothing else is told. The dying objects are those for which the context answers true. -/
  finalized : ∃ (calls : List (Handle × Native P.Layer)) (isDying : Handle → Bool),
    (calls.map Prod.fst).Nodup ∧
    (∀ h native, (h, native) ∈ calls ↔
      c.Dying h ∧ (c.heap.get? h).bind ScriptObject.native? = some native) ∧
    (∀ h, isDying h = true ↔ c.Dying h) ∧
    worldAfter = calls.foldl (fun world call => P.finalizeOf isDying call.2 world) world
  /-- No object counts as dying any more. -/
  finalizing : after.finalizing = []
  /-- The protections are the same. -/
  roots : after.roots = c.roots
  /-- The statistics count the survivors and the objects that were freed. -/
  stats : ∃ survivors : List Handle, survivors.Nodup ∧
    (∀ h, h ∈ survivors ↔ c.heap.Reaches c.roots.handles h) ∧
    after.heap.live = survivors.length ∧
    after.stats = ⟨c.stats.collections + 1, c.stats.freed + freed, survivors.length, freed,
      survivors.length⟩
  /-- The heap is well formed. -/
  wellFormed : after.heap.WellFormed

/-- A collection is exact, whatever the order in which it visits the protected handles and tells
and frees the dying objects. -/
theorem exact_collectInOrder {c : Collector P} (hwf : c.heap.WellFormed) (world : P.World)
    {start dying : List Handle} (hstart : start.Perm c.roots.handles)
    (hdying : dying.Perm (c.heap.unmarked (c.heap.marksFrom start))) :
    c.Exact world (c.collectInOrder start dying world).1 (c.collectInOrder start dying world).2.1
      (c.collectInOrder start dying world).2.2 := by
  have hreach : ∀ h, c.heap.Reaches start h ↔ c.heap.Reaches c.roots.handles h :=
    fun h => Heap.reaches_congr fun k => hstart.mem_iff
  have hmem : ∀ h, h ∈ dying ↔ c.Dying h := by
    intro h
    rw [hdying.mem_iff, Heap.mem_unmarked_iff hwf, hreach, Dying]
  have hnodup : dying.Nodup := hdying.nodup_iff.2 (Heap.nodup_unmarked hwf _)
  have hget : ∀ h, (c.collectInOrder start dying world).2.1.heap.get? h =
      if h ∈ dying then none else c.heap.get? h :=
    fun h => Heap.get?_releaseAll c.heap dying h
  have hfreed : (c.collectInOrder start dying world).1 = dying.length :=
    Heap.releaseAll_fst hnodup fun h hh => ((hmem h).1 hh).1
  obtain ⟨hbounded, hfree, hmemfree, hlive⟩ := hwf.releaseAll dying
  have hwf' : (c.collectInOrder start dying world).2.1.heap.WellFormed :=
    ⟨hbounded, hfree, hmemfree, hlive⟩
  refine ⟨?_, ?_, ⟨dying, hnodup, hmem, hfreed⟩, ?_, rfl, rfl, ?_, hwf'⟩
  · intro h hr
    rw [hget, if_neg fun hh => ((hmem h).1 hh).2 hr]
  · intro h hr
    rw [hget]
    split
    · rfl
    -- what is not dying and cannot be reached was not there before
    · next hnot =>
      rw [hmem, Dying, not_and_not_right] at hnot
      exact Heap.contains_eq_false_iff.1 (Bool.eq_false_iff.2 fun hlive => hr (hnot hlive))
  · refine ⟨c.told dying, dying.contains, ?_, ?_, ?_, finalizePhase_eq c dying world⟩
    · exact hnodup.sublist (c.map_fst_told_sublist dying)
    · intro h native
      rw [mem_told_iff, hmem]
    · intro h
      rw [List.contains_iff_mem, hmem]
  · obtain ⟨survivors, hsnodup, hsmem, hscount⟩ := Heap.count_marksFrom hwf start
    have hlen : (c.collectInOrder start dying world).2.1.heap.live = survivors.length := by
      rw [hwf'.live_eq, ← Heap.length_handles]
      -- the survivors are the objects that are listed
      apply List.Perm.length_eq
      rw [List.perm_ext_iff_of_nodup (Heap.nodup_handles hwf'.bounded) hsnodup]
      intro h
      rw [Heap.mem_handles_iff hwf'.bounded, hsmem, hget]
      constructor
      · rintro ⟨object, hobject⟩
        split at hobject
        · simp at hobject
        · next hnot =>
          by_contra hr
          exact hnot ((hmem h).2 ⟨Heap.contains_iff.2 ⟨object, hobject⟩, fun hr' => hr ((hreach h).2 hr')⟩)
      · intro hr
        obtain ⟨object, hobject⟩ := hr.resolves
        exact ⟨object, by rw [if_neg fun hh => ((hmem h).1 hh).2 ((hreach h).1 hr), hobject]⟩
    refine ⟨survivors, hsnodup, fun h => (hsmem h).trans (hreach h), hlen, ?_⟩
    have hstats : (c.collectInOrder start dying world).2.1.stats =
        ⟨c.stats.collections + 1, c.stats.freed + (c.collectInOrder start dying world).1,
          (c.heap.marksFrom start).count true, (c.collectInOrder start dying world).1,
          (c.collectInOrder start dying world).2.1.heap.live⟩ := rfl
    rw [hstats, hscount, hlen]

/-- Two lists with the same members, each of them once, are of the same length. -/
private theorem length_eq_of_mem_iff {xs ys : List Handle} (hxs : xs.Nodup) (hys : ys.Nodup)
    (hmem : ∀ h, h ∈ xs ↔ h ∈ ys) : xs.length = ys.length :=
  ((List.perm_ext_iff_of_nodup hxs hys).2 hmem).length_eq

/-- An exact collection has one outcome: the survivors, their contents and the counts. -/
theorem Exact.outcome_unique {c : Collector P} {world worldA worldB : P.World} {m n : Nat}
    {a b : Collector P} (ha : c.Exact world m a worldA) (hb : c.Exact world n b worldB) :
    m = n ∧ (∀ h, a.heap.get? h = b.heap.get? h) ∧ a.heap.live = b.heap.live ∧
      a.stats = b.stats := by
  obtain ⟨dying, hdying, hdmem, rfl⟩ := ha.count
  obtain ⟨dying', hdying', hdmem', rfl⟩ := hb.count
  obtain ⟨survivors, hs, hsmem, hlive, hstats⟩ := ha.stats
  obtain ⟨survivors', hs', hsmem', hlive', hstats'⟩ := hb.stats
  have hfreed := length_eq_of_mem_iff hdying hdying' fun h => (hdmem h).trans (hdmem' h).symm
  have hkept := length_eq_of_mem_iff hs hs' fun h => (hsmem h).trans (hsmem' h).symm
  refine ⟨hfreed, fun h => ?_, by rw [hlive, hlive', hkept],
    by rw [hstats, hstats', hkept, hfreed]⟩
  by_cases hr : c.heap.Reaches c.roots.handles h
  · rw [ha.kept h hr, hb.kept h hr]
  · rw [ha.gone h hr, hb.gone h hr]

/-- **Exactness of collections.** A collection frees the objects that cannot be reached from the
protected handles, and it does so in whatever order it goes about it, with the same outcome. -/
theorem collect_exact {c : Collector P} (hwf : c.heap.WellFormed) (world : P.World) :
    c.Exact world (c.collect world).1 (c.collect world).2.1 (c.collect world).2.2 ∧
    ∀ start dying : List Handle, start.Perm c.roots.handles →
      dying.Perm (c.heap.unmarked (c.heap.marksFrom start)) →
      c.Exact world (c.collectInOrder start dying world).1
        (c.collectInOrder start dying world).2.1 (c.collectInOrder start dying world).2.2 ∧
      (c.collectInOrder start dying world).1 = (c.collect world).1 ∧
      (∀ h, (c.collectInOrder start dying world).2.1.heap.get? h =
        (c.collect world).2.1.heap.get? h) ∧
      (c.collectInOrder start dying world).2.1.heap.live = (c.collect world).2.1.heap.live ∧
      (c.collectInOrder start dying world).2.1.stats = (c.collect world).2.1.stats := by
  have hlist : c.Exact world (c.collect world).1 (c.collect world).2.1 (c.collect world).2.2 := by
    rw [collect_eq_collectInOrder]
    exact exact_collectInOrder hwf world (List.Perm.refl _) (List.Perm.refl _)
  refine ⟨hlist, fun start dying hstart hdying => ?_⟩
  have hexact := exact_collectInOrder hwf world hstart hdying
  exact ⟨hexact, hexact.outcome_unique hlist⟩

/-- An instance that refers to the object of `next`. -/
def linkedTo (next : Handle) : ScriptObject Scenario.platform :=
  (ScriptObject.ofForm (.instanceOf ⟨2⟩ (some (.base
    (Scenario.Bag.ofSlots .alpha "bag" [] [] false))))).setField "next" (.object next)

/-- An array that is kept by its protection, two instances that keep each other only, and a
protected handle without an object. -/
def pairOfGarbage : Collector Scenario.platform :=
  { (Collector.ofThreshold 1024 : Collector Scenario.platform) with
    heap := (((Heap.empty.allocate (.ofForm (.array #[.object ⟨9, 0⟩]))).2.allocate
      (linkedTo ⟨2, 0⟩)).2.allocate (linkedTo ⟨1, 0⟩)).2
    roots := (Roots.empty.protect ⟨0, 0⟩).protect ⟨7, 3⟩ }

private theorem wellFormed_pairOfGarbage : pairOfGarbage.heap.WellFormed := by
  have h₀ : (Heap.empty : Heap Scenario.platform).HasRoom 3 := by
    show 0 + (3 - 0) ≤ UInt32.size
    decide
  have h₁ := h₀.allocate (.ofForm (.array #[.object ⟨9, 0⟩]))
  have h₂ := h₁.allocate (linkedTo ⟨2, 0⟩)
  exact ((Heap.wellFormed_empty.allocate (h₀.mono (by decide)) _).allocate
    (h₁.mono (by decide)) _).allocate h₂ _

/-- Two instances that keep each other only are collected, whichever of them is taken first. -/
theorem collect_exact_pair :
    (pairOfGarbage.collect Scenario.Stage.empty).1 = 2 ∧
    (pairOfGarbage.collectInOrder [⟨7, 3⟩, ⟨0, 0⟩] [⟨2, 0⟩, ⟨1, 0⟩] Scenario.Stage.empty).1 = 2 ∧
    (pairOfGarbage.collect Scenario.Stage.empty).2.1.heap.get? ⟨0, 0⟩ =
      pairOfGarbage.heap.get? ⟨0, 0⟩ := by
  have hcount : (pairOfGarbage.collect Scenario.Stage.empty).1 = 2 := by cbv
  have hstart : pairOfGarbage.roots.handles = [⟨0, 0⟩, ⟨7, 3⟩] := by cbv
  have hdying : pairOfGarbage.heap.unmarked (pairOfGarbage.heap.marksFrom [⟨7, 3⟩, ⟨0, 0⟩]) =
      [⟨1, 0⟩, ⟨2, 0⟩] := by cbv
  have hget : pairOfGarbage.heap.get? ⟨0, 0⟩ = some (.ofForm (.array #[.object ⟨9, 0⟩])) := by cbv
  have hroot : pairOfGarbage.heap.Reaches pairOfGarbage.roots.handles ⟨0, 0⟩ :=
    .start (by rw [hstart]; exact List.mem_cons_self) hget
  obtain ⟨hexact, horder⟩ := collect_exact wellFormed_pairOfGarbage Scenario.Stage.empty
  obtain ⟨-, hsame, -⟩ := horder [⟨7, 3⟩, ⟨0, 0⟩] [⟨2, 0⟩, ⟨1, 0⟩]
    (by rw [hstart]; exact List.Perm.swap _ _ _) (by rw [hdying]; exact List.Perm.swap _ _ _)
  exact ⟨hcount, hsame.trans hcount, hexact.kept ⟨0, 0⟩ hroot⟩

end Collector

end ScriptBridge
