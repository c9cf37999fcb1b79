import ScriptBridge.Value.Basic

/-!
# Protected Handles

A protected handle keeps its object alive. Protection is counted: it lasts until every call that
set it up has been matched by one that takes it down.

Main statements: `Roots.count_protect` and `Roots.count_unprotect`, a protection is counted for its own
handle only.
-/

namespace ScriptBridge

/-! ## Counting -/

/-- Adds one to the count of a handle. -/
def addTo (h : Handle) : List (Handle × Nat) → List (Handle × Nat)
  | [] => [(h, 1)]
  | (k, n) :: rest => if k = h then (k, n + 1) :: rest else (k, n) :: addTo h rest

/-- Takes one from the count of a handle, and the handle away with its last one. -/
def takeFrom (h : Handle) : List (Handle × Nat) → List (Handle × Nat)
  | [] => []
  | (k, n) :: rest =>
    if k = h then (if 1 < n then (k, n - 1) :: rest else rest) else (k, n) :: takeFrom h rest

/-- A handle that is counted already keeps its place, any other one comes last. -/
theorem map_fst_addTo (h : Handle) (counts : List (Handle × Nat)) :
    (addTo h counts).map Prod.fst =
      if h ∈ counts.map Prod.fst then counts.map Prod.fst else counts.map Prod.fst ++ [h] := by
  induction counts with
  | nil => rfl
  | cons head rest ih =>
    obtain ⟨k, n⟩ := head
    by_cases hk : k = h
    · simp [addTo, hk]
    -- the head is another handle, so the tail decides
    · have hk' : ¬ h = k := fun e => hk e.symm
      by_cases hm : h ∈ rest.map Prod.fst
      · simp only [addTo, if_neg hk, List.map_cons, ih, List.mem_cons, hm, or_true, if_true]
      · simp only [addTo, if_neg hk, List.map_cons, ih, List.mem_cons, hk', hm, or_self, if_false,
          List.cons_append]

/-- Taking a protection down adds no handle and keeps the order. -/
theorem map_fst_takeFrom_sublist (h : Handle) (counts : List (Handle × Nat)) :
    ((takeFrom h counts).map Prod.fst).Sublist (counts.map Prod.fst) := by
  induction counts with
  | nil => exact List.Sublist.refl _
  | cons head rest ih =>
    obtain ⟨k, n⟩ := head
    rw [takeFrom]
    split
    · split
      -- the count goes down, or the handle goes away
      · exact List.Sublist.refl _
      · exact List.sublist_cons_self _ _
    · exact ih.cons_cons k

/-- Handles stay distinct when a protection is added. -/
theorem nodup_addTo (h : Handle) {counts : List (Handle × Nat)}
    (hc : (counts.map Prod.fst).Nodup) : ((addTo h counts).map Prod.fst).Nodup := by
  rw [map_fst_addTo]
  split
  · exact hc
  · next hm =>
    rw [List.nodup_append]
    refine ⟨hc, by simp, ?_⟩
    intro a ha b hb hab
    rw [List.mem_singleton] at hb
    exact hm (hb ▸ hab ▸ ha)

/-! ## Roots -/

/-- The protected handles with their counts. -/
structure Roots where
  /-- The handles, each with the number of its protections. -/
  counts : List (Handle × Nat)
  /-- No handle occurs twice. -/
  nodup : (counts.map Prod.fst).Nodup

namespace Roots

/-- No handle is protected. -/
def empty : Roots := ⟨[], List.nodup_nil⟩

/-- The number of protections of a handle. -/
def count (roots : Roots) (h : Handle) : Nat := (roots.counts.lookup h).getD 0

/-- Whether a handle is protected. -/
def contains (roots : Roots) (h : Handle) : Bool := (roots.counts.lookup h).isSome

/-- Adds a protection. -/
def protect (roots : Roots) (h : Handle) : Roots :=
  ⟨addTo h roots.counts, nodup_addTo h roots.nodup⟩

/-- Takes a protection down, and tells whether there was one. -/
def unprotect (roots : Roots) (h : Handle) : Bool × Roots :=
  (roots.contains h,
    ⟨takeFrom h roots.counts, roots.nodup.sublist (map_fst_takeFrom_sublist h roots.counts)⟩)

/-- The protected handles. -/
def handles (roots : Roots) : List Handle := roots.counts.map Prod.fst

/-- The number of protected handles, each counted once. -/
def size (roots : Roots) : Nat := roots.counts.length

@[simp] theorem count_empty (h : Handle) : empty.count h = 0 := rfl

/-- A protection is counted for its own handle only. -/
theorem count_protect (roots : Roots) (h k : Handle) :
    (roots.protect h).count k = roots.count k + if k = h then 1 else 0 := by
  obtain ⟨counts, nodup⟩ := roots
  simp only [count, protect]
  clear nodup
  induction counts with
  | nil =>
    by_cases hk : k = h
    · simp [addTo, hk]
    · simp [addTo, List.lookup_cons, hk, beq_false_of_ne hk]
  | cons head rest ih =>
    obtain ⟨a, n⟩ := head
    by_cases ha : a = h
    -- the count of the head goes up
    · subst ha
      by_cases hk : k = a
      · simp [addTo, hk]
      · simp [addTo, List.lookup_cons, hk, beq_false_of_ne hk]
    -- the head stays as it is, and answers for its own handle only
    · by_cases hk : k = a
      · subst hk
        simp [addTo, ha]
      · simp [addTo, List.lookup_cons, ha, beq_false_of_ne hk, ih]

/-- Taking a protection down is counted for its own handle only. -/
theorem count_unprotect (roots : Roots) (h k : Handle) :
    (roots.unprotect h).2.count k = roots.count k - if k = h then 1 else 0 := by
  obtain ⟨counts, nodup⟩ := roots
  simp only [count, unprotect]
  induction counts with
  | nil => simp [takeFrom]
  | cons head rest ih =>
    obtain ⟨a, n⟩ := head
    rw [List.map_cons, List.nodup_cons] at nodup
    by_cases ha : a = h
    -- the count of the head goes down, and the head goes away with its last one
    · subst ha
      have hgone : rest.lookup a = none := by
        rw [List.lookup_eq_none_iff]
        rintro ⟨b, m⟩ hmem
        simp only [bne_iff_ne, ne_eq]
        rintro rfl
        exact nodup.1 (List.mem_map.2 ⟨(a, m), hmem, rfl⟩)
      by_cases hk : k = a
      · subst hk
        by_cases hn : 1 < n
        · simp [takeFrom, hn]
        · have hlast : n - 1 = 0 := by omega
          simp [takeFrom, hn, hgone, hlast]
      · by_cases hn : 1 < n
        · simp [takeFrom, hn, List.lookup_cons, hk, beq_false_of_ne hk]
        · simp [takeFrom, hn, List.lookup_cons, hk, beq_false_of_ne hk]
    -- the head stays as it is, and answers for its own handle only
    · by_cases hk : k = a
      · subst hk
        simp [takeFrom, ha]
      · simp [takeFrom, List.lookup_cons, ha, beq_false_of_ne hk, ih nodup.2]

end Roots

end ScriptBridge
