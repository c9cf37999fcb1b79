/-!
# Insertion-Ordered Tables

A table maps text keys to values and remembers the order in which its keys first appeared.
Writing to a key that is present replaces the value and keeps the place; removing a key closes
the gap. Fields of objects, entries of snapshots, properties of classes and function tables are
all of this kind.

Main statements: `Table.keys_insert` (what a write does to the order of the keys) and
`Table.find?_insert` (what it does to the values).
-/

namespace ScriptBridge

/-! ## Entry lists -/

/-- Writes `value` at `key`: in place when the key is present, at the end otherwise. -/
def insertEntry {α : Type} (key : String) (value : α) :
    List (String × α) → List (String × α)
  | [] => [(key, value)]
  | (k, v) :: rest => if k = key then (key, value) :: rest else (k, v) :: insertEntry key value rest

/-- A write keeps the order of the keys and appends a new one at the end. -/
theorem map_fst_insertEntry {α : Type} (key : String) (value : α) (entries : List (String × α)) :
    (insertEntry key value entries).map Prod.fst =
      if key ∈ entries.map Prod.fst then entries.map Prod.fst
      else entries.map Prod.fst ++ [key] := by
  induction entries with
  | nil => simp [insertEntry]
  | cons head rest ih =>
    obtain ⟨k, v⟩ := head
    by_cases h : k = key
    · simp [insertEntry, h]
    -- the head has another key, so the tail decides
    · have h' : ¬ key = k := fun e => h e.symm
      by_cases hm : key ∈ rest.map Prod.fst
      · simp only [insertEntry, if_neg h, List.map_cons, ih, List.mem_cons, hm, or_true, if_true]
      · simp only [insertEntry, if_neg h, List.map_cons, ih, List.mem_cons, h', hm, or_self,
          if_false, List.cons_append]

/-- A write keeps the keys distinct. -/
theorem nodup_insertEntry {α : Type} (key : String) (value : α) {entries : List (String × α)}
    (h : (entries.map Prod.fst).Nodup) : ((insertEntry key value entries).map Prod.fst).Nodup := by
  rw [map_fst_insertEntry]
  split
  · exact h
  -- a new key stands behind all others and equals none of them
  · next hm =>
    rw [List.nodup_append]
    refine ⟨h, by simp, ?_⟩
    intro a ha b hb hab
    rw [List.mem_singleton] at hb
    exact hm (hb ▸ hab ▸ ha)

theorem mem_insertEntry_self {α : Type} (key : String) (value : α) (entries : List (String × α)) :
    (key, value) ∈ insertEntry key value entries := by
  induction entries with
  | nil => exact List.mem_singleton.2 rfl
  | cons head rest ih =>
    rw [insertEntry]
    split
    · exact List.mem_cons_self
    · exact List.mem_cons_of_mem _ ih

/-- What stands under another key stays there. -/
theorem mem_insertEntry_of_ne {α : Type} {key : String} (value : α) {entry : String × α}
    {entries : List (String × α)} (h : entry ∈ entries) (hne : entry.1 ≠ key) :
    entry ∈ insertEntry key value entries := by
  induction entries with
  | nil => cases h
  | cons head rest ih =>
    rw [insertEntry]
    rcases List.mem_cons.1 h with rfl | h
    · rw [if_neg hne]
      exact List.mem_cons_self
    · split
      · exact List.mem_cons_of_mem _ h
      · exact List.mem_cons_of_mem _ (ih h)

/-- Nothing stands in the list after a write but what has been written and what stood there. -/
theorem mem_of_mem_insertEntry {α : Type} {key : String} {value : α} {entry : String × α}
    {entries : List (String × α)} (h : entry ∈ insertEntry key value entries) :
    entry = (key, value) ∨ entry ∈ entries := by
  induction entries with
  | nil => exact Or.inl (List.mem_singleton.1 h)
  | cons head rest ih =>
    rw [insertEntry] at h
    split at h
    · rcases List.mem_cons.1 h with h | h
      · exact Or.inl h
      · exact Or.inr (List.mem_cons_of_mem _ h)
    · rcases List.mem_cons.1 h with h | h
      · exact Or.inr (h ▸ List.mem_cons_self)
      · exact (ih h).imp_right (List.mem_cons_of_mem _)

/-! ## Tables -/

/-- Values under distinct text keys, in the order in which the keys were first written. -/
structure Table (α : Type) where
  /-- Keys and values, oldest key first. -/
  entries : List (String × α)
  /-- No key occurs twice. -/
  nodup : (entries.map Prod.fst).Nodup

namespace Table

variable {α : Type}

/-- The table without keys. -/
def empty : Table α := ⟨[], List.nodup_nil⟩

instance : EmptyCollection (Table α) := ⟨empty⟩

instance : Inhabited (Table α) := ⟨empty⟩

/-- The keys, oldest first. -/
def keys (t : Table α) : List String := t.entries.map Prod.fst

/-- The values, in the order of their keys. -/
def values (t : Table α) : List α := t.entries.map Prod.snd

/-- The number of keys. -/
def size (t : Table α) : Nat := t.entries.length

/-- The value at `key`. -/
def find? (t : Table α) (key : String) : Option α := t.entries.lookup key

/-- Whether `key` is present. -/
def contains (t : Table α) (key : String) : Bool := (t.find? key).isSome

/-- Writes `value` at `key`, in place when the key is present and at the end otherwise. -/
def insert (t : Table α) (key : String) (value : α) : Table α :=
  ⟨insertEntry key value t.entries, nodup_insertEntry key value t.nodup⟩

/-- Removes `key`; later keys move up. -/
def erase (t : Table α) (key : String) : Table α :=
  ⟨t.entries.filter (fun entry => entry.1 != key),
    t.nodup.sublist ((List.filter_sublist (p := fun entry => entry.1 != key)).map Prod.fst)⟩

/-- Changes every value; the keys stay. -/
def map {β : Type} (f : α → β) (t : Table α) : Table β :=
  ⟨t.entries.map fun entry => (entry.1, f entry.2), by
    rw [List.map_map]
    exact t.nodup⟩

/-- The table made by writing `entries` one after the other. -/
def ofList (entries : List (String × α)) : Table α :=
  entries.foldl (fun t entry => t.insert entry.1 entry.2) empty

/-- Whether two tables hold `same` values under the same keys, in whatever order. -/
def agrees (same : α → α → Bool) (s t : Table α) : Bool :=
  s.size == t.size && s.entries.all fun entry =>
    match t.find? entry.1 with
    | some value => same entry.2 value
    | none => false

@[simp] theorem keys_empty : (empty : Table α).keys = [] := rfl

@[simp] theorem find?_empty (key : String) : (empty : Table α).find? key = none := rfl

/-- A write keeps the order of the keys and appends a new one at the end. -/
theorem keys_insert (t : Table α) (key : String) (value : α) :
    (t.insert key value).keys = if key ∈ t.keys then t.keys else t.keys ++ [key] :=
  map_fst_insertEntry key value t.entries

theorem contains_iff (t : Table α) (key : String) : t.contains key = true ↔ key ∈ t.keys := by
  obtain ⟨entries, nodup⟩ := t
  simp only [contains, find?, keys]
  clear nodup
  induction entries with
  | nil => simp
  | cons head rest ih =>
    obtain ⟨k, v⟩ := head
    by_cases h : key = k
    · simp [h]
    · simp [List.lookup_cons, h, beq_false_of_ne h, ih]

/-- A value under a new key comes last. -/
theorem entries_insert_of_not_mem (t : Table α) {key : String} (value : α) (h : key ∉ t.keys) :
    (t.insert key value).entries = t.entries ++ [(key, value)] := by
  obtain ⟨entries, nodup⟩ := t
  simp only [insert, keys] at h ⊢
  clear nodup
  induction entries with
  | nil => rfl
  | cons head rest ih =>
    obtain ⟨k, v⟩ := head
    rw [List.map_cons, List.mem_cons, not_or] at h
    rw [insertEntry, if_neg (fun e => h.1 e.symm), ih h.2, List.cons_append]

theorem mem_entries_insert {t : Table α} {key : String} {value : α}
    {entry : String × α} (h : entry ∈ (t.insert key value).entries) :
    entry = (key, value) ∨ entry ∈ t.entries := mem_of_mem_insertEntry h

theorem find?_eq_some_iff {t : Table α} {key : String} {value : α} :
    t.find? key = some value ↔ (key, value) ∈ t.entries := by
  obtain ⟨entries, nodup⟩ := t
  simp only [find?]
  induction entries with
  | nil => simp
  | cons head rest ih =>
    obtain ⟨k, v⟩ := head
    rw [List.map_cons, List.nodup_cons] at nodup
    by_cases h : key = k
    -- no later entry has the key of the head
    · subst h
      have hrest : (key, value) ∉ rest := fun hmem =>
        nodup.1 (List.mem_map.2 ⟨(key, value), hmem, rfl⟩)
      simp [hrest, eq_comm]
    · simp [List.lookup_cons, h, beq_false_of_ne h, ih nodup.2]

/-- The table in which nothing is found. -/
theorem eq_empty_of_find? {t : Table α} (h : ∀ key, t.find? key = none) : t = empty := by
  obtain ⟨entries, nodup⟩ := t
  cases entries with
  | nil => rfl
  | cons head rest =>
    have hhead := h head.1
    simp [find?] at hhead

/-- A write changes what is found at its own key only. -/
theorem find?_insert (t : Table α) (key other : String) (value : α) :
    (t.insert key value).find? other = if other = key then some value else t.find? other := by
  obtain ⟨entries, nodup⟩ := t
  simp only [find?, insert]
  -- distinctness of the keys plays no part
  clear nodup
  induction entries with
  | nil =>
    by_cases h : other = key
    · simp [insertEntry, h]
    · simp [insertEntry, List.lookup_cons, h, beq_false_of_ne h]
  | cons head rest ih =>
    obtain ⟨k, v⟩ := head
    by_cases hk : k = key
    -- the write stops at the head
    · subst hk
      by_cases h : other = k
      · simp [insertEntry, h]
      · simp [insertEntry, List.lookup_cons, h, beq_false_of_ne h]
    -- the write passes the head, which answers for its own key only
    · by_cases h : other = k
      · subst h
        simp [insertEntry, hk]
      · simp [insertEntry, List.lookup_cons, hk, beq_false_of_ne h, ih]

/-- Removing a key closes the gap. -/
theorem keys_erase (t : Table α) (key : String) :
    (t.erase key).keys = t.keys.filter (fun k => k != key) := by
  simp only [keys, erase, List.filter_map]
  rfl

/-- Removing a key changes what is found at that key only. -/
theorem find?_erase (t : Table α) (key other : String) :
    (t.erase key).find? other = if other = key then none else t.find? other := by
  obtain ⟨entries, nodup⟩ := t
  simp only [find?, erase]
  clear nodup
  induction entries with
  | nil => simp
  | cons head rest ih =>
    obtain ⟨k, v⟩ := head
    by_cases hk : k = key
    -- the head goes away
    · subst hk
      by_cases h : other = k
      · subst h
        simpa using ih
      · simp [List.lookup_cons, h, beq_false_of_ne h] at ih ⊢
        exact ih
    -- the head stays, and answers for its own key only
    · by_cases h : other = k
      · subst h
        simp [hk]
      · simp [List.lookup_cons, hk, beq_false_of_ne h, ih]

end Table

end ScriptBridge
