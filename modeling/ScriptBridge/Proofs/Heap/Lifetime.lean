import ScriptBridge.Proofs.Heap.WellFormed
import ScriptBridge.Heap.Collector
import ScriptBridge.Scenario.Script
import Mathlib

/-!
# The Lifetime of Handles

A history is a heap together with everything that has happened to it: which handle was issued for
which object, which objects were edited, which were freed. What a handle resolves to can be told
from the events alone: the object that was stored when the handle was issued, with all later edits,
until the handle is freed.

Slots are reused and their generations wrap around at 32 bits, so this holds as long as there are
fewer than `2 ^ 32` slots and none of them is freed `2 ^ 32` times.

## Main results

- `History.Sound.step`: the invariant that ties the generation of a slot to the number of times
  that it has been freed, and every handle to its events, is kept by every operation.
- `History.safe_run`: after every run, handles are distinct, they resolve from their allocation
  until they are freed, and the heap is well formed.
-/

namespace ScriptBridge.Heap

variable {P : Platform}

/-! ## Operations and events -/

/-- What can be done to a heap. -/
inductive Operation (P : Platform) where
  /-- Stores a new object. -/
  | allocate (object : ScriptObject P)
  /-- Changes an object in place. -/
  | edit (h : Handle) (f : ScriptObject P → ScriptObject P)
  /-- Removes an object. -/
  | free (h : Handle)
  /-- Removes every object that cannot be reached from some handles. -/
  | collect (start : List Handle)

/-- What happens to an object. -/
inductive Event (P : Platform) where
  /-- The object was stored, and the handle was issued for it. -/
  | issued (h : Handle) (object : ScriptObject P)
  /-- The object of the handle was changed, if there was one. -/
  | edited (h : Handle) (f : ScriptObject P → ScriptObject P)
  /-- The object of the handle was removed. -/
  | freed (h : Handle)

namespace Event

/-- The handles that were issued, the last one first. -/
def issuedIn : List (Event P) → List Handle
  | [] => []
  | issued h _ :: past => h :: issuedIn past
  | _ :: past => issuedIn past

/-- The handles that were freed, the last one first. -/
def freedIn : List (Event P) → List Handle
  | [] => []
  | freed h :: past => h :: freedIn past
  | _ :: past => freedIn past

/-- How often the slot at a position was freed. -/
def frees (i : Nat) (events : List (Event P)) : Nat :=
  (freedIn events).countP fun h => h.index.toNat == i

/-- An object with all edits that were made through a handle. -/
def editsOf (h : Handle) (object : ScriptObject P) : List (Event P) → ScriptObject P
  | [] => object
  | edited k f :: past => if k = h then f (editsOf h object past) else editsOf h object past
  | _ :: past => editsOf h object past

/-- What a handle stands for, judging from the events alone. -/
def replay (h : Handle) : List (Event P) → Option (ScriptObject P)
  | [] => none
  | issued k object :: past => if h = k then some object else replay h past
  | edited k f :: past => if h = k then (replay h past).map f else replay h past
  | freed k :: past => if h = k then none else replay h past

/-- Handles are issued for the first time, and freed while they stand for an object. -/
def Coherent : List (Event P) → Prop
  | [] => True
  | issued h _ :: past => h ∉ issuedIn past ∧ Coherent past
  | edited _ _ :: past => Coherent past
  | freed h :: past => (replay h past).isSome = true ∧ Coherent past

@[simp] theorem frees_issued (i : Nat) (h : Handle) (object : ScriptObject P)
    (past : List (Event P)) : frees i (issued h object :: past) = frees i past := rfl

@[simp] theorem frees_edited (i : Nat) (h : Handle) (f : ScriptObject P → ScriptObject P)
    (past : List (Event P)) : frees i (edited h f :: past) = frees i past := rfl

theorem frees_freed (i : Nat) (h : Handle) (past : List (Event P)) :
    frees i (freed h :: past) = frees i past + if h.index.toNat = i then 1 else 0 := by
  simp [frees, freedIn, List.countP_cons]

theorem frees_le_length (i : Nat) (events : List (Event P)) : frees i events ≤ events.length := by
  induction events with
  | nil => exact Nat.le_refl 0
  | cons event past ih =>
    cases event with
    | issued h object =>
      rw [frees_issued, List.length_cons]
      omega
    | edited h f =>
      rw [frees_edited, List.length_cons]
      omega
    | freed h =>
      rw [frees_freed, List.length_cons]
      split <;> omega

/-- In a coherent history no handle is issued twice. -/
theorem Coherent.nodup_issuedIn {events : List (Event P)} (hc : Coherent events) :
    (issuedIn events).Nodup := by
  induction events with
  | nil => exact List.nodup_nil
  | cons event past ih =>
    cases event with
    | issued h object => exact List.nodup_cons.2 ⟨hc.1, ih hc.2⟩
    | edited h f => exact ih hc
    | freed h => exact ih hc.2

/-- What stands for an object was issued. -/
theorem mem_issuedIn_of_replay {events : List (Event P)} {h : Handle}
    (hr : (replay h events).isSome = true) : h ∈ issuedIn events := by
  induction events with
  | nil => simp [replay] at hr
  | cons event past ih =>
    cases event with
    | issued k object =>
      rw [issuedIn, List.mem_cons]
      by_cases hk : h = k
      · exact Or.inl hk
      · rw [replay, if_neg hk] at hr
        exact Or.inr (ih hr)
    | edited k f =>
      rw [replay] at hr
      split at hr
      · rw [Option.isSome_map] at hr
        exact ih hr
      · exact ih hr
    | freed k =>
      rw [replay] at hr
      split at hr
      · simp at hr
      · exact ih hr

/-- What was freed was issued before. -/
theorem Coherent.mem_issuedIn_of_freed {events : List (Event P)} (hc : Coherent events)
    {h : Handle} (hf : h ∈ freedIn events) : h ∈ issuedIn events := by
  induction events with
  | nil => simp [freedIn] at hf
  | cons event past ih =>
    cases event with
    | issued k object => exact List.mem_cons_of_mem _ (ih hc.2 hf)
    | edited k f => exact ih hc hf
    | freed k =>
      show h ∈ issuedIn past
      rcases List.mem_cons.1 hf with rfl | hpast
      · exact mem_issuedIn_of_replay hc.1
      · exact ih hc.2 hpast

/-- A handle stands for an object from the time when it is issued until it is freed. -/
theorem Coherent.replay_isSome_iff {events : List (Event P)} (hc : Coherent events) (h : Handle) :
    (replay h events).isSome = true ↔ h ∈ issuedIn events ∧ h ∉ freedIn events := by
  induction events with
  | nil => simp [replay, issuedIn]
  | cons event past ih =>
    cases event with
    | issued k object =>
      rw [replay, issuedIn, freedIn, List.mem_cons]
      · by_cases hk : h = k
        -- a handle that is issued now cannot have been freed before
        · subst hk
          have hnot : h ∉ freedIn past := fun hf => hc.1 (hc.2.mem_issuedIn_of_freed hf)
          simp [hnot]
        · rw [if_neg hk, ih hc.2]
          simp [hk]
      · simp
    | edited k f =>
      rw [replay, issuedIn, freedIn, ← ih hc]
      · split <;> simp
      · simp
      · simp
    | freed k =>
      rw [replay, issuedIn, freedIn, List.mem_cons]
      · by_cases hk : h = k
        · simp [hk]
        · rw [if_neg hk, ih hc.2]
          simp [hk]
      · simp

/-- A handle that was issued counts as issued whatever happens later. -/
theorem mem_issuedIn_append (h : Handle) (object : ScriptObject P)
    (later earlier : List (Event P)) : h ∈ issuedIn (later ++ issued h object :: earlier) := by
  induction later with
  | nil => simp [issuedIn]
  | cons event later ih =>
    cases event with
    | issued k other => exact List.mem_cons_of_mem _ ih
    | edited k f => exact ih
    | freed k => exact ih

/-- Until a handle is freed it stands for the object that it was issued for, with all edits. -/
theorem Coherent.replay_of_issued {later earlier : List (Event P)} {h : Handle}
    {object : ScriptObject P} (hc : Coherent (later ++ issued h object :: earlier))
    (hf : h ∉ freedIn later) :
    replay h (later ++ issued h object :: earlier) = some (editsOf h object later) := by
  induction later with
  | nil => simp [replay, editsOf]
  | cons event later ih =>
    cases event with
    | issued k other =>
      -- the handle is not issued a second time
      have hk : h ≠ k := by
        rintro rfl
        exact hc.1 (mem_issuedIn_append h object later earlier)
      rw [List.cons_append, replay, if_neg hk, ih hc.2 hf]
      rfl
    | edited k f =>
      rw [List.cons_append, replay, ih hc hf, editsOf]
      by_cases hk : h = k
      · subst hk
        simp
      · simp [hk, Ne.symm hk]
    | freed k =>
      have hk : h ≠ k := fun e => hf (by simp [freedIn, e])
      rw [List.cons_append, replay, if_neg hk, ih hc.2 fun hmem => hf (List.mem_cons_of_mem _ hmem)]
      rfl

end Event

/-! ## Histories -/

/-- A heap with everything that has happened to its objects. -/
structure History (P : Platform) where
  /-- The heap. -/
  heap : Heap P
  /-- The events, the last one first. -/
  events : List (Event P)

namespace History

open Event

/-- Nothing has happened yet. -/
def start : History P := ⟨.empty, []⟩

/-- Removes an object. -/
def free (t : History P) (h : Handle) : History P :=
  let (found, heap) := t.heap.release h
  ⟨heap, if found then .freed h :: t.events else t.events⟩

/-- One operation. -/
def step (t : History P) : Operation P → History P
  | .allocate object =>
    let (h, heap) := t.heap.allocate object
    ⟨heap, .issued h object :: t.events⟩
  | .edit h f => ⟨t.heap.modify h f, .edited h f :: t.events⟩
  | .free h => t.free h
  | .collect start =>
    let swept := (t.heap.unmarked (t.heap.marksFrom start)).foldl free t
    { swept with heap := { swept.heap with allocated := 0 } }

/-- Several operations, one after the other, on a heap that is empty at first. -/
def run (operations : List (Operation P)) : History P := operations.foldl step start

/-- The heap after a removal is the heap that the removal leaves. -/
theorem heap_free (t : History P) (h : Handle) : (t.free h).heap = (t.heap.release h).2 := rfl

/-- The heap after several removals is the heap that they leave. -/
theorem heap_foldl_free (t : History P) (hs : List Handle) :
    (hs.foldl free t).heap = (t.heap.releaseAll hs).2 := by
  induction hs generalizing t with
  | nil => rfl
  | cons h hs ih => rw [List.foldl_cons, ih, heap_free, releaseAll]

/-- A full collection of a collector is the collection from its protected handles. -/
theorem heap_step_collect (t : History P) (c : Collector P) (world : P.World)
    (hheap : c.heap = t.heap) :
    (t.step (.collect c.roots.handles)).heap = (c.collect world).2.1.heap := by
  simp only [step, heap_foldl_free, Collector.collect, Collector.markPhase,
    Collector.sweepPhase, hheap]

/-! ## The invariant of histories -/

/-- The heap of a history agrees with the events. -/
structure Sound (t : History P) : Prop where
  /-- The heap is well formed. -/
  wellFormed : t.heap.WellFormed
  /-- The generation of a slot counts, in 32 bits, how often the slot was freed. -/
  generation : ∀ (i : Nat) slot, t.heap.slots[i]? = some slot →
    slot.generation = UInt32.ofNat (frees i t.events)
  /-- What was never made was never freed. -/
  beyond : ∀ i, t.heap.slots.size ≤ i → frees i t.events = 0
  /-- A handle resolves to what it stands for. -/
  replay : ∀ h, t.heap.get? h = Event.replay h t.events
  /-- An issued handle is of an older generation than its slot, unless its object is there. -/
  issued : ∀ h ∈ issuedIn t.events, ∃ slot, t.heap.slots[h.index.toNat]? = some slot ∧
    (h.generation.toNat < frees h.index.toNat t.events ∨
      h.generation.toNat = frees h.index.toNat t.events ∧ slot.object.isSome = true)
  /-- Handles are issued for the first time, and freed while they stand for an object. -/
  coherent : Coherent t.events

/-- The bounds within which handles are told apart: fewer than `2 ^ 32` slots, none of which was
freed `2 ^ 32` times. -/
structure Bounded (t : History P) : Prop where
  /-- There are fewer than `2 ^ 32` slots. -/
  slots : t.heap.capacity < UInt32.size
  /-- No slot was freed `2 ^ 32` times. -/
  frees : ∀ i, Event.frees i t.events < UInt32.size

/-- Nothing contradicts the events as long as there are none. -/
theorem sound_start : (start : History P).Sound where
  wellFormed := wellFormed_empty
  generation := by simp [start, empty]
  beyond := by simp [start, frees, freedIn]
  replay := by
    intro h
    simp [start, Event.replay, get?, slot?, empty]
  issued := by simp [start, issuedIn]
  coherent := trivial

/-- Within the bounds there is always room for one more object. -/
theorem Bounded.hasRoom {t : History P} (hb : t.Bounded) : t.heap.HasRoom 1 := by
  have hslots := hb.slots
  simp only [HasRoom]
  omega

/-- A handle that is issued within the bounds is of the generation that counts the removals. -/
theorem Sound.generation_allocate {t : History P} (hs : t.Sound) (hb : t.Bounded)
    (object : ScriptObject P) :
    (t.heap.allocate object).1.generation =
      UInt32.ofNat (frees (t.heap.allocate object).1.index.toNat t.events) := by
  rcases hs.wellFormed.slot_before_allocate hb.hasRoom object with hempty | ⟨hsize, hgen⟩
  · exact hs.generation _ _ hempty
  · rw [hgen, hs.beyond _ (Nat.le_of_eq hsize.symm)]
    rfl

/-- A handle that is issued within the bounds is new. -/
theorem Sound.allocate_not_mem_issued {t : History P} (hs : t.Sound) (hb : t.Bounded)
    (object : ScriptObject P) : (t.heap.allocate object).1 ∉ issuedIn t.events := by
  intro hmem
  obtain ⟨slot, hslot, hgen⟩ := hs.issued _ hmem
  rcases hs.wellFormed.slot_before_allocate hb.hasRoom object with hempty | ⟨hsize, -⟩
  -- the generation of the slot has not been given out
  · rw [hempty, Option.some.injEq] at hslot
    rw [hs.generation_allocate hb, UInt32.toNat_ofNat_of_lt' (hb.frees _), ← hslot] at hgen
    simp at hgen
  · rw [hsize] at hslot
    simp at hslot

/-- An allocation within the bounds keeps heap and events in agreement. -/
theorem Sound.allocate {t : History P} (hs : t.Sound) (hb : t.Bounded) (object : ScriptObject P) :
    (t.step (.allocate object)).Sound := by
  have hslots := hs.wellFormed.slots_allocate hb.hasRoom object
  have hcount := hs.generation_allocate hb object
  refine ⟨hs.wellFormed.allocate hb.hasRoom object, ?_, ?_, ?_, ?_,
    hs.allocate_not_mem_issued hb object, hs.coherent⟩
  · intro i slot hslot
    simp only [step, hslots, frees_issued] at hslot ⊢
    split at hslot
    · next hi =>
      rw [Option.some.injEq] at hslot
      rw [← hslot, hi, hcount]
    · exact hs.generation i slot hslot
  · intro i hi
    simp only [step, frees_issued]
    -- there are at least as many slots as before
    apply hs.beyond
    have hnone := Array.getElem?_eq_none hi
    simp only [step, hslots] at hnone
    split at hnone
    · simp at hnone
    · exact Array.getElem?_eq_none_iff.1 hnone
  · intro h
    simp only [step, Event.replay]
    rw [hs.wellFormed.get?_allocate hb.hasRoom, hs.replay]
  · intro h hmem
    simp only [step, issuedIn, List.mem_cons, frees_issued, hslots] at hmem ⊢
    rcases hmem with rfl | hold
    -- the new handle is of the generation of its slot, and its object is there
    · refine ⟨_, if_pos rfl, Or.inr ⟨?_, rfl⟩⟩
      rw [hcount, UInt32.toNat_ofNat_of_lt' (hb.frees _)]
    · obtain ⟨slot, hslot, hgen⟩ := hs.issued h hold
      split
      -- an older handle of a slot that was empty is of an older generation
      · next hi =>
        refine ⟨_, rfl, Or.inl ?_⟩
        rcases hs.wellFormed.slot_before_allocate hb.hasRoom object with hempty | ⟨hsize, -⟩
        · rw [hi, hempty, Option.some.injEq] at hslot
          simpa [← hslot] using hgen
        · rw [hi, hsize] at hslot
          simp at hslot
      · exact ⟨slot, hslot, hgen⟩

/-- An edit keeps heap and events in agreement. -/
theorem Sound.edit {t : History P} (hs : t.Sound) (h : Handle)
    (f : ScriptObject P → ScriptObject P) : (t.step (.edit h f)).Sound := by
  have hslots := t.heap.slots_modify h f
  refine ⟨hs.wellFormed.modify h f, ?_, ?_, ?_, ?_, hs.coherent⟩
  · intro i slot hslot
    simp only [step, hslots] at hslot
    obtain ⟨old, hold, rfl⟩ := Option.map_eq_some_iff.1 hslot
    simp only [step, frees_edited, ← hs.generation i old hold]
    split <;> rfl
  · intro i hi
    apply hs.beyond
    have hnone := Array.getElem?_eq_none hi
    simp only [step, hslots, Option.map_eq_none_iff] at hnone
    exact Array.getElem?_eq_none_iff.1 hnone
  · intro k
    simp only [step, Event.replay]
    rw [get?_modify, ← hs.replay]
    split
    · next hk => rw [hk]
    · rfl
  · intro k hmem
    obtain ⟨slot, hslot, hgen⟩ := hs.issued k hmem
    simp only [step, hslots, hslot, Option.map_some, frees_edited]
    refine ⟨_, rfl, ?_⟩
    split
    · simpa using hgen
    · exact hgen

/-- A removal keeps heap and events in agreement. -/
theorem Sound.free {t : History P} (hs : t.Sound) (h : Handle) : (t.free h).Sound := by
  cases hlive : t.heap.contains h with
  | false =>
    rw [History.free, release_of_not_contains hlive]
    exact hs
  | true =>
    have hslots := slots_release hlive
    have hfound : (t.heap.release h).1 = true := by simp [release, hlive]
    obtain ⟨object, hget⟩ := contains_iff.1 hlive
    have hslot := get?_eq_some_iff.1 hget
    have hfree : t.free h = ⟨(t.heap.release h).2, .freed h :: t.events⟩ := by
      simp only [History.free, hfound, if_true]
    rw [hfree]
    refine ⟨hs.wellFormed.release h, ?_, ?_, ?_, ?_, ?_, hs.coherent⟩
    · intro i slot hi
      simp only [hslots, frees_freed] at hi ⊢
      split at hi
      -- the generation of the slot has moved on, and so has the count
      · next heq =>
        subst heq
        have hgen := hs.generation _ _ hslot
        simp only at hgen
        simp only [Option.some.injEq] at hi
        simp [← hi, hgen]
      · next hne =>
        simpa [Ne.symm hne] using hs.generation i slot hi
    · intro i hi
      have hnone := Array.getElem?_eq_none hi
      simp only [hslots] at hnone
      split at hnone
      · simp at hnone
      · next hne =>
        simpa [frees_freed, Ne.symm hne] using hs.beyond i (Array.getElem?_eq_none_iff.1 hnone)
    · intro k
      simp only [get?_release, Event.replay, hs.replay]
    · intro k hmem
      obtain ⟨slot, hk, hgen⟩ := hs.issued k hmem
      simp only [hslots, frees_freed]
      split
      · next heq =>
        refine ⟨_, rfl, Or.inl ?_⟩
        rw [if_pos heq.symm]
        rcases hgen with hlt | ⟨heq, -⟩ <;> omega
      · next hne =>
        refine ⟨slot, hk, ?_⟩
        simpa [Ne.symm hne] using hgen
    · rw [← hs.replay, hget]
      rfl

/-- Removing several objects keeps heap and events in agreement. -/
theorem Sound.foldl_free {t : History P} (hs : t.Sound) (dying : List Handle) :
    (dying.foldl History.free t).Sound := by
  induction dying generalizing t with
  | nil => exact hs
  | cons h dying ih => exact ih (hs.free h)

/-- A collection keeps heap and events in agreement. -/
theorem Sound.collect {t : History P} (hs : t.Sound) (start : List Handle) :
    (t.step (.collect start)).Sound := by
  -- the counter of allocations plays no part
  obtain ⟨hwf, hgeneration, hbeyond, hreplay, hissued, hcoherent⟩ :=
    hs.foldl_free (t.heap.unmarked (t.heap.marksFrom start))
  exact ⟨⟨hwf.bounded, hwf.nodup_free, hwf.mem_free, hwf.live_eq⟩, hgeneration, hbeyond, hreplay,
    hissued, hcoherent⟩

/-- Every operation within the bounds keeps heap and events in agreement. -/
theorem Sound.step {t : History P} (hs : t.Sound) (hb : t.Bounded) (op : Operation P) :
    (t.step op).Sound := by
  cases op with
  | allocate object => exact hs.allocate hb object
  | edit h f => exact hs.edit h f
  | free h => exact hs.free h
  | collect start => exact hs.collect start

/-! ## The bounds along a run -/

/-- What is within the bounds after a removal was so before. -/
theorem Bounded.of_free {t : History P} {h : Handle} (hb : (t.free h).Bounded) : t.Bounded := by
  cases hlive : t.heap.contains h with
  | false =>
    rw [History.free, release_of_not_contains hlive] at hb
    exact hb
  | true =>
    have hfree : t.free h = ⟨(t.heap.release h).2, .freed h :: t.events⟩ := by
      simp [History.free, release, hlive]
    rw [hfree] at hb
    refine ⟨?_, fun i => ?_⟩
    · simpa [capacity, release, hlive] using hb.slots
    · have hi := hb.frees i
      simp only [frees_freed] at hi
      omega

/-- What is within the bounds after several removals was so before. -/
theorem Bounded.of_foldl_free {t : History P} {dying : List Handle}
    (hb : (dying.foldl History.free t).Bounded) : t.Bounded := by
  induction dying generalizing t with
  | nil => exact hb
  | cons h dying ih => exact (ih hb).of_free

/-- What is within the bounds after an operation was so before. -/
theorem Bounded.of_step {t : History P} {op : Operation P} (hb : (t.step op).Bounded) :
    t.Bounded := by
  cases op with
  | allocate object =>
    refine ⟨?_, hb.frees⟩
    have hslots := hb.slots
    simp only [History.step, capacity, Heap.allocate] at hslots ⊢
    split at hslots
    · simpa using hslots
    · simp only [Array.size_push] at hslots
      omega
  | edit h f =>
    refine ⟨?_, hb.frees⟩
    have hslots := hb.slots
    simp only [History.step, capacity, Heap.modify] at hslots ⊢
    split at hslots
    · simpa using hslots
    · exact hslots
  | free h => exact hb.of_free
  | collect start => exact (Bounded.of_foldl_free ⟨hb.slots, hb.frees⟩)

/-- Heap and events agree after every run within the bounds. -/
theorem sound_run (operations : List (Operation P)) (hb : (run operations).Bounded) :
    (run operations).Sound := by
  induction operations using List.reverseRecOn with
  | nil => exact sound_start
  | append_singleton operations op ih =>
    have hrun : run (operations ++ [op]) = (run operations).step op := by
      simp [run]
    rw [hrun] at hb ⊢
    exact (ih hb.of_step).step hb.of_step op

/-! ## Safety of handles -/

/-- What the handles of a history are good for. -/
structure Safe (t : History P) : Prop where
  /-- All handles that were ever issued are distinct. -/
  distinct : (issuedIn t.events).Nodup
  /-- A handle resolves exactly from the time when it is issued until it is freed. -/
  resolves : ∀ h, t.heap.contains h = true ↔ h ∈ issuedIn t.events ∧ h ∉ freedIn t.events
  /-- A handle resolves to the object that it was issued for, with all later edits. -/
  object : ∀ later h object earlier, t.events = later ++ .issued h object :: earlier →
    h ∉ freedIn later → t.heap.get? h = some (editsOf h object later)
  /-- Freeing or editing through a handle that was freed before or never issued changes nothing. -/
  stale : ∀ h, h ∉ issuedIn t.events ∨ h ∈ freedIn t.events →
    t.heap.release h = (false, t.heap) ∧ ∀ f, t.heap.modify h f = t.heap
  /-- No slot is listed as free twice. -/
  nodup_free : t.heap.free.Nodup
  /-- The slots that are listed as free are the empty ones. -/
  mem_free : ∀ i : UInt32,
    i ∈ t.heap.free ↔ ∃ generation, t.heap.slots[i.toNat]? = some ⟨generation, none⟩
  /-- The counter counts the objects that are listed. -/
  live_eq : t.heap.live = t.heap.handles.length
  /-- The slots are those of the objects and those that are listed as free. -/
  capacity_eq : t.heap.capacity = t.heap.live + t.heap.free.length

/-- A history whose heap agrees with its events has safe handles. -/
theorem Sound.safe {t : History P} (hs : t.Sound) : t.Safe where
  distinct := hs.coherent.nodup_issuedIn
  resolves h := by
    rw [contains, hs.replay]
    exact hs.coherent.replay_isSome_iff h
  object later h object earlier hevents hfree := by
    have hcoherent := hs.coherent
    rw [hevents] at hcoherent
    rw [hs.replay, hevents]
    exact hcoherent.replay_of_issued hfree
  stale h hstale := by
    have hdead : t.heap.contains h = false := by
      rw [← Bool.not_eq_true, contains, hs.replay, hs.coherent.replay_isSome_iff]
      rintro ⟨hissued, hfreed⟩
      rcases hstale with hnot | hmem
      · exact hnot hissued
      · exact hfreed hmem
    exact ⟨release_of_not_contains hdead, fun f => by simp [modify, hdead]⟩
  nodup_free := hs.wellFormed.nodup_free
  mem_free := hs.wellFormed.mem_free
  live_eq := by rw [hs.wellFormed.live_eq, length_handles]
  capacity_eq := hs.wellFormed.capacity_eq

/-- **Safety of handles.** After every run in which fewer than `2 ^ 32` slots are made and no slot
is freed `2 ^ 32` times, the handles are safe. -/
theorem safe_run (operations : List (Operation P))
    (hslots : (run operations).heap.capacity < UInt32.size)
    (hfrees : ∀ i, frees i (run operations).events < UInt32.size) : (run operations).Safe :=
  (sound_run operations ⟨hslots, hfrees⟩).safe

/-- A slot is freed by a collection and reused; then its old handle is freed again, in vain, and
the new object is edited. -/
def reuse : List (Operation Scenario.platform) :=
  [.allocate (.ofForm .plain), .allocate (.ofForm (.array #[.object ⟨0, 0⟩])),
    .collect [⟨0, 0⟩], .allocate (.ofForm .plain), .free ⟨1, 0⟩,
    .edit ⟨1, 1⟩ fun object => object.setField "x" .null]

theorem safe_run_reuse :
    ((run reuse).heap.capacity < UInt32.size ∧ ∀ i, frees i (run reuse).events < UInt32.size) ∧
      (run reuse).Safe := by
  have hcapacity : (run reuse).heap.capacity = 2 := by cbv
  have hlength : (run reuse).events.length = 5 := by cbv
  have hsize : UInt32.size = 4294967296 := rfl
  have hslots : (run reuse).heap.capacity < UInt32.size := by omega
  have hfrees : ∀ i, frees i (run reuse).events < UInt32.size := by
    intro i
    have hle := frees_le_length i (run reuse).events
    omega
  exact ⟨⟨hslots, hfrees⟩, safe_run reuse hslots hfrees⟩

end History

end ScriptBridge.Heap
