import ScriptBridge.Heap.Basic
import ScriptBridge.Heap.Roots

/-!
# The Collector

A collection marks every object that can be reached from the protected handles. The objects that
are left unmarked are dying: first each of them is told, while all of them are still there to be
asked about, and then their slots are freed.
-/

namespace ScriptBridge

/-- What the collector counts. -/
structure CollectionStats where
  /-- Collections so far. -/
  collections : Nat
  /-- Objects freed by all of them. -/
  freed : Nat
  /-- Objects marked by the last one. -/
  lastMarked : Nat
  /-- Objects freed by the last one. -/
  lastFreed : Nat
  /-- Objects left by the last one. -/
  live : Nat
deriving DecidableEq, Repr

/-- The heap with what is needed to collect in it. -/
structure Collector (P : Platform) where
  /-- The objects. -/
  heap : Heap P
  /-- The protected handles. -/
  roots : Roots
  /-- More live objects than this make a collection due. -/
  threshold : Nat
  /-- The threshold never falls below this. -/
  baseThreshold : Nat
  /-- The objects that the collection in progress found unreachable. -/
  finalizing : List Handle
  /-- What has been counted so far. -/
  stats : CollectionStats

namespace Heap

variable {P : Platform}

/-- Setting a mark that was not set leaves fewer slots unmarked. -/
theorem count_unmarked_lt {marks : Array Bool} {i : Nat} (h : marks[i]? = some false) :
    (marks.setIfInBounds i true).count false < marks.count false := by
  obtain ⟨hi, hv⟩ := Array.getElem?_eq_some_iff.1 h
  -- the mark itself is one of those that are counted
  have hpos : 0 < marks.count false := Array.count_pos_iff.2 (hv ▸ Array.getElem_mem hi)
  have hset : marks.setIfInBounds i true = marks.set i true hi := by
    simp [Array.setIfInBounds, hi]
  -- so the count loses it, and gains nothing
  rw [hset, Array.count_set, hv, if_pos (beq_self_eq_true false), if_neg Bool.noConfusion]
  omega

/-- Marks everything that can be reached from the handles in `work` through unmarked objects.
Handles that do not resolve lead nowhere. -/
def mark (heap : Heap P) (marks : Array Bool) (work : List Handle) : Array Bool :=
  match work with
  | [] => marks
  | h :: rest =>
    match heap.get? h with
    | none => mark heap marks rest
    | some object =>
      match _hm : marks[h.index.toNat]? with
      | some false =>
        -- the first way to an object: mark it and go on with what it refers to
        mark heap (marks.setIfInBounds h.index.toNat true) (object.handles ++ rest)
      | _ => mark heap marks rest
termination_by (marks.count false, work.length)
decreasing_by
  -- a handle that leads nowhere leaves the list of work, an object that is marked leaves the
  -- unmarked ones
  · exact Prod.Lex.right _ (by simp)
  · exact Prod.Lex.left _ _ (count_unmarked_lt _hm)
  · exact Prod.Lex.right _ (by simp)

/-- One mark for each slot: whether its object can be reached from `start`. -/
def marksFrom (heap : Heap P) (start : List Handle) : Array Bool :=
  heap.mark (Array.replicate heap.capacity false) start

/-- The objects that are not marked, by slot. -/
def unmarked (heap : Heap P) (marks : Array Bool) : List Handle :=
  heap.handles.filter fun h => !(marks[h.index.toNat]?.getD false)

/-- Frees the objects of several handles, and counts those that there were. -/
def releaseAll (heap : Heap P) : List Handle → Nat × Heap P
  | [] => (0, heap)
  | h :: rest =>
    let (freed, heap) := heap.release h
    let (count, heap) := heap.releaseAll rest
    ((if freed then 1 else 0) + count, heap)

end Heap

namespace Collector

variable {P : Platform}

/-- A collector over an empty heap. -/
def ofThreshold (threshold : Nat) : Collector P :=
  ⟨.empty, .empty, threshold, threshold, [], ⟨0, 0, 0, 0, 0⟩⟩

/-- Sets the number of live objects that make a collection due. -/
def withThreshold (c : Collector P) (threshold : Nat) : Collector P :=
  { c with threshold, baseThreshold := threshold }

/-- Whether a collection is due. -/
def isDue (c : Collector P) : Bool := c.threshold < c.heap.live

/-- Whether the collection in progress found an object unreachable. -/
def isDying (c : Collector P) (h : Handle) : Bool := c.finalizing.contains h

/-- Finds the dying objects, and counts the others. -/
def markPhase (c : Collector P) : Nat × Collector P :=
  let marks := c.heap.marksFrom c.roots.handles
  (marks.count true, { c with finalizing := c.heap.unmarked marks })

/-- Tells each dying object, by slot. -/
def finalizePhase (c : Collector P) (world : P.World) : P.World :=
  c.finalizing.foldl (fun world h =>
    match (c.heap.get? h).bind ScriptObject.native? with
    | some native => P.finalizeOf c.isDying native world
    | none => world) world

/-- Frees the dying objects, and counts them. -/
def sweepPhase (c : Collector P) : Nat × Collector P :=
  let (freed, heap) := c.heap.releaseAll c.finalizing
  (freed, { c with heap, finalizing := [] })

/-- A full collection: the number of objects freed, the collector and the world after it. A
collection becomes due again when the number of live objects has doubled. -/
def collect (c : Collector P) (world : P.World) : Nat × Collector P × P.World :=
  -- objects are told while every dying one is still there
  let (marked, c) := c.markPhase
  let world := c.finalizePhase world
  let (freed, c) := c.sweepPhase
  let live := c.heap.live
  let stats := ⟨c.stats.collections + 1, c.stats.freed + freed, marked, freed, live⟩
  (freed,
    { c with
      heap := { c.heap with allocated := 0 }
      threshold := max (live * 2) c.baseThreshold
      stats := stats },
    world)

end Collector

end ScriptBridge
