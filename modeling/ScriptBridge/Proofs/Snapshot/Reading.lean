import ScriptBridge.Proofs.Snapshot.Progress

/-!
# How Graphs Are Read

Reading a part of a snapshot that has no classes always succeeds. It makes one object for each node
that a walk through the part meets and one array for each array in it, and leaves alone whatever is
there already, up to places of stubs that come to hold their objects.

Main statement: `reads_read`, by way of one lemma for each kind of entry.
-/

namespace ScriptBridge.Loading

open Snapshot (Entry Node Visits idAt? fieldName functionOf? entryCost costOf nodeCost Within)

variable {P : Platform}

/-! ## Arrays -/

/-- Inner entries are read as they should be, with room for so many nested containers. -/
def Reads (snapshot : Snapshot) (old : Realm P) (inner : Inner P) (room : Nat) : Prop :=
  ∀ entry met L s, Within snapshot entry → (∀ id, entry ≠ .stub id) →
    Visits snapshot.nodes room [entry] met →
    Ready snapshot old met (entry.arrays + costOf snapshot.nodes met) L s →
    ∃ v L' s', Runs (inner entry) s v s' ∧
      Answers snapshot old entry met (entry.arrays + costOf snapshot.nodes met) L s v L' s'

section

variable {snapshot : Snapshot} {old : Realm P} {inner : Inner P} {room : Nat} {met : List Nat}
  {L : Ledger} {s : Loading P}

theorem met_of_visits_stub {id : String} (h : Visits snapshot.nodes room [.stub id] met) : met = [] := by
  cases h with
  | leaf _ hrest =>
    cases hrest
    rfl

/-- The array with so many items. -/
structure Filled (s : Loading P) (a : Handle) (size : Nat) : Prop where
  kind : s.heap.kind? a = some (.array #[])
  before : ∀ j, j < size → ∃ v, s.heap.at? (.item a j) = some v
  after : ∀ j, size ≤ j → s.heap.at? (.item a j) = none

theorem Filled.contains {a : Handle} {size : Nat} (h : Filled s a size) :
    s.heap.contains a = true :=
  Heap.contains_iff_kind?.2 ⟨_, h.kind⟩

theorem Filled.writable {a : Handle} {size : Nat} (h : Filled s a size) :
    s.heap.Writable (.item a size) :=
  Heap.writable_item h.kind h.before

/-- What is done with an item before it is stored. -/
def readItem (inner : Inner P) (a : Handle) (index : Nat) (item : Entry) : LoadingM P Value :=
  match item with
  | .stub id => do
    await id (.item a index)
    pure .null
  | item => inner item

theorem rebuildItems_cons (inner : Inner P) (a : Handle) (index : Nat) (item : Entry)
    (items : List Entry) : rebuildItems inner a index (item :: items) =
      readItem inner a index item >>= fun value =>
        discard (perform (Realm.assignElement a index value)) >>= fun _ =>
          rebuildItems inner a (index + 1) items := by
  cases item <;> rfl

/-- One item is read and stored, at the end of its array. -/
theorem runs_item (hinner : Reads snapshot old inner room) {a : Handle} {index : Nat} {item : Entry}
    (hwithin : Within snapshot item) (hvisits : Visits snapshot.nodes room [item] met)
    (hready : Ready snapshot old met (item.arrays + costOf snapshot.nodes met) L s)
    (hnew : old.heap.contains a = false) (ha : Filled s a index) :
    ∃ v s₀ L₁ s₁, Runs (readItem inner a index item) s v s₀ ∧
      Runs (discard (perform (Realm.assignElement a index v))) s₀ () s₁ ∧
      Progress snapshot old (· = .item a index) met (item.arrays + costOf snapshot.nodes met) L s L₁ s₁ ∧
      Filled s₁ a (index + 1) ∧
      Holds (NewSince s) s₁.heap L₁ (s₁.heap.at? (.item a index)) (L₁.late? (.item a index))
        item := by
  -- whatever is stored at the end, the items before it stay, and nothing comes after it
  have hfilled : ∀ {L₁ s₁}, Progress snapshot old (· = .item a index) met
      (item.arrays + costOf snapshot.nodes met) L s L₁ s₁ →
      (∃ v, s₁.heap.at? (.item a index) = some v) → Filled s₁ a (index + 1) := by
    intro L₁ s₁ hprogress hlast
    refine ⟨hprogress.frame.kinds a _ ha.kind, fun j hj => ?_, fun j hj => ?_⟩
    · rcases Nat.lt_succ_iff_lt_or_eq.1 hj with hj | rfl
      · obtain ⟨v, hv⟩ := ha.before j hj
        exact hprogress.at?_isSome (by simp [Nat.ne_of_lt hj]) hv
      · exact hlast
    · exact hprogress.at?_eq_none hready.consistent (by simp; omega) ha.contains
        (ha.after j (Nat.le_of_succ_le hj))
  by_cases hstub : ∃ id, item = .stub id
  · obtain ⟨id, rfl⟩ := hstub
    obtain rfl := met_of_visits_stub hvisits
    have hp := ha.writable
    obtain ⟨hprogress, hholds⟩ := hready.await hp hnew (ha.after index (Nat.le_refl _))
      (hwithin.named id List.mem_cons_self) (NewSince s)
    refine ⟨.null, _, _, _, (runs_await id _).bind (runs_pure _), runs_assignElement ?_ rfl,
      hprogress, hfilled hprogress ⟨.null, ?_⟩, hholds⟩
    · exact hp
    · exact Heap.at?_put_self hp
  · have hitem : ∀ id, item ≠ .stub id := fun id hid => hstub ⟨id, hid⟩
    obtain ⟨v, L₁, s₀, hrun, hanswers⟩ := hinner item met L s hwithin hitem hvisits hready
    have hread := hanswers.progress
    -- reading the item does not touch its array
    have ha' : Filled s₀ a index := by
      refine ⟨hread.frame.kinds a _ ha.kind, fun j hj => ?_, fun j hj => ?_⟩
      · obtain ⟨w, hw⟩ := ha.before j hj
        exact hread.at?_isSome (fun hfalse => hfalse) hw
      · exact hread.at?_eq_none hready.consistent (fun hfalse => hfalse) ha.contains (ha.after j hj)
    have hp := ha'.writable
    obtain ⟨hprogress, hholds⟩ :=
      hanswers.put hp hnew ha.contains (ha'.after index (Nat.le_refl _))
    -- an item that is not a stub is read right away
    have hmatch : readItem inner a index item = inner item := by
      cases item with
      | stub id => exact absurd rfl (hitem id)
      | _ => rfl
    rw [← hmatch] at hrun
    exact ⟨v, s₀, L₁, _, hrun, runs_assignElement hp hanswers.holds.isInline, hprogress,
      hfilled hprogress ⟨v, Heap.at?_put_self hp⟩, hholds⟩

/-- The items of an array are read one after the other. -/
theorem runs_rebuildItems (hinner : Reads snapshot old inner room) {a : Handle}
    (hnew : old.heap.contains a = false) (items : List Entry) (index : Nat) (met : List Nat)
    (L : Ledger) (s : Loading P) (hwithin : ∀ item ∈ items, Within snapshot item)
    (hvisits : Visits snapshot.nodes room items met)
    (hready : Ready snapshot old met (Entry.arraysOf items + costOf snapshot.nodes met) L s)
    (ha : Filled s a index) :
    ∃ L' s', Runs (rebuildItems inner a index items) s () s' ∧
      Progress snapshot old (fun p => ∃ j, index ≤ j ∧ p = .item a j) met
        (Entry.arraysOf items + costOf snapshot.nodes met) L s L' s' ∧
      Filled s' a (index + items.length) ∧
      ∀ j item, items[j]? = some item → Holds (NewSince s) s'.heap L'
        (s'.heap.at? (.item a (index + j))) (L'.late? (.item a (index + j))) item := by
  induction items generalizing index met L s with
  | nil =>
    obtain rfl : met = [] := by
      cases hvisits
      rfl
    refine ⟨L, s, runs_pure (), ?_, ha, fun j item hitem => by simp at hitem⟩
    exact (Extends.refl _ L s).progress hready.consistent rfl (fun p a h => h)
      fun n hn => hn.mono (Nat.le_add_left _ _)
  | cons item items ih =>
    obtain ⟨inside, after, rfl, hone, hrest⟩ := hvisits.cons_inv
    have hcost : Entry.arraysOf (item :: items) + costOf snapshot.nodes (inside ++ after) =
        (item.arrays + costOf snapshot.nodes inside) + (Entry.arraysOf items + costOf snapshot.nodes after) := by
      rw [Entry.arraysOf, Snapshot.costOf_append]
      omega
    rw [hcost] at hready ⊢
    obtain ⟨v, s₀, L₁, s₁, hread, hstore, hfirst, ha₁, hholds⟩ :=
      runs_item hinner (hwithin item List.mem_cons_self) hone hready.first hnew ha
    obtain ⟨L₂, s₂, hruns, hmore, ha₂, hitems⟩ :=
      ih (index + 1) after L₁ s₁ (fun other hother => hwithin other (List.mem_cons_of_mem _ hother))
        hrest (hready.next hfirst) ha₁
    refine ⟨L₂, s₂, ?_, ?_, ?_, ?_⟩
    · rw [rebuildItems_cons]
      exact hread.bind (hstore.bind hruns)
    · refine hfirst.trans hmore ?_ (Or.inr ?_)
      · rintro p (rfl | ⟨j, hj, rfl⟩) -
        · exact ⟨index, Nat.le_refl _, rfl⟩
        · exact ⟨j, Nat.le_of_succ_le hj, rfl⟩
      · rintro p ⟨j, -, rfl⟩
        exact ha.contains
    · rw [List.length_cons, Nat.add_comm items.length 1, ← Nat.add_assoc]
      exact ha₂
    · intro j item' hitem
      cases j with
      | zero =>
        obtain rfl : item = item' := by simpa using hitem
        -- the other items are stored behind this one, outside of what lies in it
        refine hholds.mono_at hfirst.consistent hmore.frame ?_ ha₁.contains ?_
        · rintro p ⟨j, -, rfl⟩ hp
          rw [NewSince, Place.owner, ha.contains] at hp
          exact Bool.noConfusion hp
        · rintro ⟨j, hj, heq⟩
          rw [Place.item.injEq] at heq
          omega
      | succ j =>
        rw [Nat.add_comm j 1, ← Nat.add_assoc]
        exact (hitems j item' (by simpa using hitem)).imp fun k hk => hk.of_extends hfirst.frame

/-- An array is read. -/
theorem runs_rebuildArray (hinner : Reads snapshot old inner room) {items : List Entry}
    (hwithin : Within snapshot (.array items)) (hvisits : Visits snapshot.nodes room items met)
    (hready : Ready snapshot old met ((Entry.array items).arrays + costOf snapshot.nodes met) L s) :
    ∃ a L' s', Runs (rebuildArray inner items) s a s' ∧
      Answers snapshot old (.array items) met ((Entry.array items).arrays + costOf snapshot.nodes met) L s
        (.object a) L' s' := by
  have hcost : (Entry.array items).arrays + costOf snapshot.nodes met =
      1 + (Entry.arraysOf items + costOf snapshot.nodes met) := by
    rw [Entry.arrays]
    omega
  rw [hcost] at hready ⊢
  obtain ⟨hnew, hkind, hat, hmade⟩ := hready.allocate (by omega) at?_ofForm_array
    (s.tracked (.ofForm (.array #[]))) ⟨rfl, rfl, rfl, rfl, rfl⟩ rfl
  have hrun := runs_newArray (s := s)
  have hkeep := runs_track (s := s) (.ofForm (.array #[]))
  generalize (s.heap.allocate (.ofForm (.array #[]))).1 = a at hnew hkind hrun hkeep
  generalize s.tracked (.ofForm (.array #[])) = s₁ at hkind hat hmade hkeep
  have hempty : ∀ p : Place, p.owner = a → s₁.heap.at? p = none := by
    intro p hp
    rw [hat, Option.eq_none_iff_forall_ne_some]
    intro v hv
    have hlive := Heap.contains_of_at? hv
    rw [hp, hnew] at hlive
    exact Bool.noConfusion hlive
  have hfilled : Filled s₁ a 0 :=
    ⟨hkind, fun j hj => absurd hj (Nat.not_lt_zero j), fun j _ => hempty _ rfl⟩
  have hready' : Ready snapshot old ([] ++ met) (1 + (Entry.arraysOf items + costOf snapshot.nodes met)) L s :=
    hready
  obtain ⟨L', s', hitems, hprogress, hfilled', hholds⟩ :=
    runs_rebuildItems hinner (hready.consistent.isNew_of_dead hnew) items 0 met L s₁
      (fun item hitem => hwithin.item hitem) hvisits
      (hready'.next hmade) hfilled
  refine ⟨a, L', s', hrun.bind (hkeep.bind (hitems.bind (runs_pure a))), ?_, ?_, ?_⟩
  · refine hmade.trans hprogress ?_ (Or.inl rfl)
    rintro p (hp | ⟨j, -, rfl⟩) hlive
    · exact hp
    · rw [Place.owner, hnew] at hlive
      exact Bool.noConfusion hlive
  · refine .array hnew hfilled'.kind ?_ ?_ ?_
    · intro name
      exact hprogress.at?_eq_none hmade.consistent (by simp) hfilled.contains (hempty _ rfl)
    · intro j hj
      exact hfilled'.after j (by omega)
    · intro j item hitem
      have hitem' := hholds j item hitem
      rw [Nat.zero_add] at hitem'
      exact hitem'.imp fun k hk => hk.of_extends hmade.frame
  · intro a' ha' hkind' q hq hplaced
    obtain rfl := Value.object.inj ha'
    -- nothing refers to the array, since it was not there before
    have hplaced' := hprogress.held q a hq hkind hplaced
    rw [hat] at hplaced'
    have hlive := hready.consistent.valid q a hq hplaced'
    rw [hnew] at hlive
    exact Bool.noConfusion hlive

/-! ## Nodes -/

theorem restoreEntry_function (inner : Inner P) (h : Handle) {key name source : String}
    (hname : Snapshot.functionName? key = some name) :
    restoreEntry inner h key (.string source) =
      perform (modifyGet (Realm.newFunction name (.script source))) >>= fun f =>
        write h name (.function f) := by
  unfold restoreEntry
  rw [hname]

theorem restoreEntry_stub (inner : Inner P) (h : Handle) (key id : String) :
    restoreEntry inner h key (.stub id) = await id (.property h key) >>= fun _ =>
      discard (attempt (Realm.putProperty h key .null true)) := by
  unfold restoreEntry
  cases Snapshot.functionName? key <;> rfl

/-- A value that has been read goes into its field. If it is an array with items that have had to
wait, then the field is noted. -/
theorem runs_restoreValue {h : Handle} {key : String} {entry : Entry} {v : Value} {s s' : Loading P}
    (hstub : ∀ id, entry ≠ .stub id) (hfunction : functionOf? (key, entry) = none)
    (hread : Runs (inner entry) s v s') (hkind : s'.heap.kind? h = some .plain)
    (hv : v.isInline = false) :
    Runs (restoreEntry inner h key entry) s () (s'.put (.property h key) v) ∨
      ∃ array, v = .object array ∧ Runs (restoreEntry inner h key entry) s ()
        { s'.put (.property h key) v with renewals := s'.renewals ++ [(h, key, array)] } := by
  have hwrite : ∀ renewals, Runs (write h key v) { s' with renewals } ()
      { s'.put (.property h key) v with renewals } :=
    fun renewals => runs_write (s := { s' with renewals }) hkind key hv
  cases entry with
  | stub id => exact absurd rfl (hstub id)
  | string text =>
    have hname : Snapshot.functionName? key = none := by
      simpa [functionOf?] using hfunction
    unfold restoreEntry
    rw [hname]
    exact Or.inl (runs_get.bind (hread.bind (hwrite s'.renewals)))
  | array items =>
    cases v with
    | object array =>
      -- whether the field is noted depends on the items that have come to wait meanwhile
      obtain ⟨renewals, hnote, hrenewals⟩ : ∃ renewals,
          Runs (if s.lateItems < s'.lateItems then
            modify (fun s => { s with renewals := s.renewals ++ [(h, key, array)] }) >>= fun _ =>
              write h key (.object array) else write h key (.object array)) s' ()
            { s'.put (.property h key) (.object array) with renewals } ∧
          (renewals = s'.renewals ∨ renewals = s'.renewals ++ [(h, key, array)]) := by
        split
        · exact ⟨_, (runs_modify _).bind (hwrite _), Or.inr rfl⟩
        · exact ⟨_, hwrite s'.renewals, Or.inl rfl⟩
      have hrun : Runs (restoreEntry inner h key (.array items)) s ()
          { s'.put (.property h key) (.object array) with renewals } := by
        unfold restoreEntry
        cases Snapshot.functionName? key <;>
          exact runs_get.bind (hread.bind (runs_get.bind hnote))
      rcases hrenewals with rfl | rfl
      · exact Or.inl hrun
      · exact Or.inr ⟨array, rfl, hrun⟩
    | _ =>
      unfold restoreEntry
      cases Snapshot.functionName? key <;>
        exact Or.inl (runs_get.bind (hread.bind (hwrite s'.renewals)))
  | _ =>
    unfold restoreEntry
    cases Snapshot.functionName? key <;>
      exact Or.inl (runs_get.bind (hread.bind (hwrite s'.renewals)))

theorem functionOf?_eq_some {entry : String × Entry} {name source : String}
    (h : functionOf? entry = some (name, source)) :
    ∃ key, entry = (key, .string source) ∧ Snapshot.functionName? key = some name := by
  obtain ⟨key, value⟩ := entry
  cases value with
  | string text =>
    simp only [functionOf?, Option.map_eq_some_iff, Prod.mk.injEq] at h
    obtain ⟨name', hname, rfl, rfl⟩ := h
    exact ⟨key, rfl, hname⟩
  | _ => simp [functionOf?] at h

/-- An entry that keeps the source of a function. -/
theorem runs_restoreFunction {h : Handle} {key name source : String}
    (hname : Snapshot.functionName? key = some name) (hready : Ready snapshot old [] (1 + 0) L s)
    (hnew : old.heap.contains h = false) (hkind : s.heap.kind? h = some .plain)
    (hat : s.heap.at? (.property h name) = none) :
    ∃ s', Runs (restoreEntry inner h key (.string source)) s () s' ∧
      Progress snapshot old (· = .property h name) [] (1 + 0) L s L s' ∧
      Restored (NewSince s) s'.heap L h (key, .string source) := by
  have hlive : s.heap.contains h = true := Heap.contains_iff_kind?.2 ⟨_, hkind⟩
  have hfunction : functionOf? (key, .string source) = some (name, source) := by
    simp [functionOf?, hname]
  rw [restoreEntry_function inner h hname]
  -- the function is made first, and then it is written like a value that has been there
  obtain ⟨hf, hfkind, hsame, hmade⟩ := hready.allocate Nat.one_pos (at?_ofForm_function _)
    (s.allocated (.ofForm (.function ⟨name, .script source⟩))) ⟨rfl, rfl, rfl, rfl, rfl⟩ rfl
  have hrun := runs_newFunction (s := s) name (.script source)
  generalize (s.heap.allocate (.ofForm (.function ⟨name, .script source⟩))).1 = f
    at hf hfkind hrun
  generalize s.allocated (.ofForm (.function ⟨name, .script source⟩)) = s₁
    at hfkind hsame hmade hrun
  have hkind₁ : s₁.heap.kind? h = some .plain := hmade.frame.kinds h _ hkind
  have hp : s₁.heap.Writable (.property h name) := hkind₁
  have hat₁ : s₁.heap.at? (.property h name) = none := by rw [hsame, hat]
  have hs₂ := hmade.consistent.put (v := .function f) hp hnew hat₁ fun k hk => by cases hk
  have hprogress : Progress snapshot old (· = .property h name) [] (1 + 0) L s L
      (s₁.put (.property h name) (.function f)) :=
    hmade.put hs₂ hp hlive rfl (fun q hq => hq.elim) fun a ha => by cases ha
  refine ⟨_, hrun.bind (runs_write hkind₁ name rfl), hprogress, ?_, ?_⟩
  · intro name' source' hfunction'
    rw [hfunction, Option.some.injEq, Prod.mk.injEq] at hfunction'
    obtain ⟨rfl, rfl⟩ := hfunction'
    refine ⟨hmade.consistent.late_of_at? hat₁, f, Heap.at?_put_self hp, ?_⟩
    rw [heap_put, Heap.kind?_put, hfkind]
    rfl
  · intro hnone
    rw [hfunction] at hnone
    simp at hnone

/-- An entry that is about no function. -/
theorem runs_restoreOther (hinner : Reads snapshot old inner room) {h : Handle} {key : String}
    {value : Entry} (hfunction : functionOf? (key, value) = none) (hwithin : Within snapshot value)
    (hvisits : Visits snapshot.nodes room [value] met)
    (hready : Ready snapshot old met (value.arrays + costOf snapshot.nodes met) L s)
    (hnew : old.heap.contains h = false) (hkind : s.heap.kind? h = some .plain)
    (hat : s.heap.at? (.property h key) = none) :
    ∃ L' s', Runs (restoreEntry inner h key value) s () s' ∧
      Progress snapshot old (· = .property h key) met (value.arrays + costOf snapshot.nodes met) L s
        L' s' ∧
      Holds (NewSince s) s'.heap L' (s'.heap.at? (.property h key)) (L'.late? (.property h key))
        value := by
  have hlive : s.heap.contains h = true := Heap.contains_iff_kind?.2 ⟨_, hkind⟩
  have hp : s.heap.Writable (.property h key) := hkind
  by_cases hstub : ∃ id, value = .stub id
  · obtain ⟨id, rfl⟩ := hstub
    obtain rfl := met_of_visits_stub hvisits
    obtain ⟨hprogress, hholds⟩ := hready.await hp hnew hat
      (hwithin.named id List.mem_cons_self) (NewSince s)
    refine ⟨_, _, ?_, hprogress, hholds⟩
    rw [restoreEntry_stub]
    have hput := runs_attempt (s := s.awaiting id (.property h key))
      (Realm.run_putProperty hkind key (rfl : Value.null.isInline = false) true)
    exact (runs_await id (.property h key)).bind hput.discard
  · have hvalue : ∀ id, value ≠ .stub id := fun id hid => hstub ⟨id, hid⟩
    obtain ⟨v, L₁, s₁, hrun, hanswers⟩ := hinner value met L s hwithin hvalue hvisits hready
    have hread := hanswers.progress
    have hkind₁ : s₁.heap.kind? h = some .plain := hread.frame.kinds h _ hkind
    have hp₁ : s₁.heap.Writable (.property h key) := hkind₁
    have hat₁ : s₁.heap.at? (.property h key) = none :=
      hread.at?_eq_none hready.consistent (fun hfalse => hfalse) hlive hat
    obtain ⟨hprogress, hholds⟩ := hanswers.put hp₁ hnew hlive hat₁
    -- an array with items that wait is noted, to be written again
    rcases runs_restoreValue hvalue hfunction hrun hkind₁ hanswers.holds.isInline with
      hrun' | ⟨array, rfl, hrun'⟩
    · exact ⟨L₁, _, hrun', hprogress, hholds⟩
    · refine ⟨L₁, _, hrun', hprogress.renew (hprogress.consistent.renew hnew ?_ ?_ ?_), hholds⟩
      · rw [heap_put, Heap.kind?_put, hkind₁]
      · exact hread.consistent.late_of_at? hat₁
      · exact Heap.at?_put_self hp₁

/-- An entry of a node comes into its field. -/
theorem runs_restoreEntry (hinner : Reads snapshot old inner room) {h : Handle}
    {entry : String × Entry} (hwithin : Within snapshot entry.2)
    (hvisits : Visits snapshot.nodes room [entry.2] met)
    (hready : Ready snapshot old met (entryCost entry + costOf snapshot.nodes met) L s)
    (hnew : old.heap.contains h = false) (hkind : s.heap.kind? h = some .plain)
    (hat : s.heap.at? (.property h (fieldName entry)) = none) :
    ∃ L' s', Runs (restoreEntry inner h entry.1 entry.2) s () s' ∧
      Progress snapshot old (· = .property h (fieldName entry)) met
        (entryCost entry + costOf snapshot.nodes met) L s L' s' ∧
      Restored (NewSince s) s'.heap L' h entry := by
  cases hfunction : functionOf? entry with
  | some named =>
    obtain ⟨name, source⟩ := named
    rw [fieldName_of_some hfunction] at hat ⊢
    obtain ⟨key, rfl, hname⟩ := functionOf?_eq_some hfunction
    -- the source of a function is a leaf, so no node is met
    obtain rfl : met = [] := by
      cases hvisits with
      | leaf _ hrest =>
        cases hrest
        rfl
    have hcost : entryCost (key, .string source) + costOf snapshot.nodes [] = 1 + 0 := by
      simp [entryCost, hfunction, costOf]
    rw [hcost] at hready ⊢
    obtain ⟨s', hrun, hprogress, hrestored⟩ := runs_restoreFunction hname hready hnew hkind hat
    exact ⟨L, s', hrun, hprogress, hrestored⟩
  | none =>
    obtain ⟨key, value⟩ := entry
    rw [fieldName_of_none hfunction] at hat ⊢
    have hcost : entryCost (key, value) = value.arrays := by
      simp [entryCost, hfunction]
    rw [hcost] at hready ⊢
    obtain ⟨L', s', hrun, hprogress, hholds⟩ :=
      runs_restoreOther hinner hfunction hwithin hvisits hready hnew hkind hat
    refine ⟨L', s', hrun, hprogress, fun name source hsome => ?_, fun _ => hholds⟩
    rw [hfunction] at hsome
    simp at hsome

/-- The entries of a node come into their fields, one after the other. -/
theorem runs_restoreEntries (hinner : Reads snapshot old inner room) {h : Handle}
    (hnew : old.heap.contains h = false) (entries : List (String × Entry)) (met : List Nat)
    (L : Ledger) (s : Loading P) (hwithin : ∀ entry ∈ entries, Within snapshot entry.2)
    (hnames : (entries.map fieldName).Nodup)
    (hvisits : Visits snapshot.nodes room (entries.map Prod.snd) met)
    (hready : Ready snapshot old met ((entries.map entryCost).sum + costOf snapshot.nodes met) L s)
    (hkind : s.heap.kind? h = some .plain)
    (hat : ∀ entry ∈ entries, s.heap.at? (.property h (fieldName entry)) = none) :
    ∃ L' s', Runs (entries.forM fun (key, entry) => restoreEntry inner h key entry) s () s' ∧
      Progress snapshot old (fun p => ∃ entry ∈ entries, p = .property h (fieldName entry)) met
        ((entries.map entryCost).sum + costOf snapshot.nodes met) L s L' s' ∧
      ∀ entry ∈ entries, Restored (NewSince s) s'.heap L' h entry := by
  induction entries generalizing met L s with
  | nil =>
    obtain rfl : met = [] := by
      cases hvisits
      rfl
    refine ⟨L, s, runs_pure (), ?_, fun entry hentry => by simp at hentry⟩
    exact (Extends.refl _ L s).progress hready.consistent rfl (fun p a h => h)
      fun n hn => hn.mono (Nat.le_add_left _ _)
  | cons entry entries ih =>
    rw [List.map_cons, List.nodup_cons] at hnames
    obtain ⟨inside, after, rfl, hone, hrest⟩ := hvisits.cons_inv
    -- the cost is paid for the first entry, and then for the others
    have hcost : ((entry :: entries).map entryCost).sum + costOf snapshot.nodes (inside ++ after) =
        (entryCost entry + costOf snapshot.nodes inside) +
          ((entries.map entryCost).sum + costOf snapshot.nodes after) := by
      rw [List.map_cons, List.sum_cons, Snapshot.costOf_append]
      omega
    rw [hcost] at hready ⊢
    have hlive : s.heap.contains h = true := Heap.contains_iff_kind?.2 ⟨_, hkind⟩
    obtain ⟨L₁, s₁, hrun, hfirst, hrestored⟩ :=
      runs_restoreEntry hinner (hwithin entry List.mem_cons_self) hone hready.first hnew hkind
        (hat entry List.mem_cons_self)
    have hkind₁ : s₁.heap.kind? h = some .plain := hfirst.frame.kinds h _ hkind
    -- the names differ, so the other fields are still empty
    have hat₁ : ∀ other ∈ entries, s₁.heap.at? (.property h (fieldName other)) = none := by
      intro other hother
      refine hfirst.at?_eq_none hready.consistent ?_ hlive (hat other (List.mem_cons_of_mem _ hother))
      intro heq
      rw [Place.property.injEq] at heq
      exact hnames.1 (heq.2 ▸ List.mem_map_of_mem hother)
    obtain ⟨L₂, s₂, hruns, hmore, hall⟩ :=
      ih after L₁ s₁ (fun other hother => hwithin other (List.mem_cons_of_mem _ hother)) hnames.2
        hrest (hready.next hfirst) hkind₁ hat₁
    refine ⟨L₂, s₂, hrun.bind hruns, ?_, ?_⟩
    · refine hfirst.trans hmore ?_ (Or.inr ?_)
      · rintro p (rfl | ⟨other, hother, rfl⟩) -
        · exact ⟨entry, List.mem_cons_self, rfl⟩
        · exact ⟨other, List.mem_cons_of_mem _ hother, rfl⟩
      · rintro p ⟨other, -, rfl⟩
        exact hlive
    · intro other hother
      rcases List.mem_cons.1 hother with rfl | hother
      · refine hrestored.mono hfirst.consistent hmore.frame ?_
          (Heap.contains_iff_kind?.2 ⟨_, hkind₁⟩) ?_
        -- the object is not new any more, unlike the arrays of the first entry
        · rintro p ⟨another, -, rfl⟩ hp
          rw [NewSince, Place.owner, hlive] at hp
          exact Bool.noConfusion hp
        · rintro ⟨another, hanother, heq⟩
          rw [Place.property.injEq] at heq
          exact hnames.1 (heq.2 ▸ List.mem_map_of_mem hanother)
      · exact (hall other hother).imp fun k hk => hk.of_extends hfirst.frame

end

/-! ## Places that are served -/

/-- Only the places of stubs have changed. -/
structure Settled (L : Ledger) (s s' : Loading P) : Prop where
  alike : Alike s s'
  kinds : ∀ h, s'.heap.kind? h = s.heap.kind? h
  same : ∀ p, L.late? p = none → s'.heap.at? p = s.heap.at? p
  held : ∀ p a, s.heap.kind? a = some (.array #[]) → s'.heap.at? p = some (.object a) →
    s.heap.at? p = some (.object a)
  room : ∀ n, s.heap.HasRoom n → s'.heap.HasRoom n

section

variable {snapshot : Snapshot} {old : Realm P} {todo todo' : Place → Prop} {E : Place → Prop}
  {L L' : Ledger} {s s' s'' : Loading P}

theorem Settled.refl (L : Ledger) (s : Loading P) : Settled L s s :=
  ⟨⟨rfl, rfl, rfl, rfl, rfl⟩, fun _ => rfl, fun _ _ => rfl, fun _ _ _ h => h, fun _ h => h⟩

theorem Alike.trans (h : Alike s s') (h' : Alike s' s'') : Alike s s'' :=
  ⟨h'.options.trans h.options, h'.built.trans h.built, h'.waiting.trans h.waiting,
    h'.renewals.trans h.renewals, h'.sleepers.trans h.sleepers⟩

theorem Settled.trans (h : Settled L s s') (h' : Settled L s' s'') : Settled L s s'' where
  alike := h.alike.trans h'.alike
  kinds k := (h'.kinds k).trans (h.kinds k)
  same p hp := (h'.same p hp).trans (h.same p hp)
  held p a ha hat := h.held p a ha (h'.held p a ((h.kinds a).trans ha) hat)
  room n hn := h'.room n (h.room n hn)

theorem Settled.frame (h : Settled L s s') : Extends (fun _ => False) L s L s' :=
  ⟨fun _ _ hi => hi, fun k _ hk => (h.kinds k).trans hk, fun _ _ _ => rfl,
    fun p _ _ hp => h.same p hp⟩

theorem runs_settle {target : Handle} {p : Place} (hp : s.heap.Writable p) :
    Runs (settle target p) s () (s.put p (.object target)) := by
  cases p with
  | property owner name => exact runs_write hp name rfl
  | item array index => exact runs_assignElement hp rfl

theorem settled_put {p : Place} {v : Value} (hp : s.heap.Writable p)
    (hlate : L.late? p = none → s.heap.at? p = some v)
    (hv : ∀ a, v = .object a → s.heap.kind? a = some (.array #[]) → s.heap.at? p = some v) :
    Settled L s (s.put p v) where
  alike := alike_put s p v
  kinds := Heap.kind?_put s.heap p v
  same q hq := by
    by_cases hqp : q = p
    · subst hqp
      exact (Heap.at?_put_self hp).trans (hlate hq).symm
    · exact Heap.at?_put_of_ne hp hqp
  held q a ha hat := by
    by_cases hqp : q = p
    · subst hqp
      have hself : v = .object a := Option.some.inj ((Heap.at?_put_self hp).symm.trans hat)
      rw [← hself]
      exact hv a hself ha
    · exact (Heap.at?_put_of_ne hp hqp).symm.trans hat
  room n hn := Heap.hasRoom_put.2 hn

/-- All places that wait for an identifier receive the object that it stands for. -/
theorem runs_settle_places (todo' : Place → Prop) (places : List Place) {id : String}
    {target : Handle} (hs : Consistent snapshot old L todo s) (hbuilt : s.built.lookup id = some target)
    (hlate : ∀ p ∈ places, L.late? p = some id) (htodo : ∀ p, todo p → p ∈ places ∨ todo' p) :
    ∃ s', Runs (places.forM (settle target)) s () s' ∧ Consistent snapshot old L todo' s' ∧
      Settled L s s' := by
  induction places generalizing todo s with
  | nil =>
    have himp : ∀ p, todo p → todo' p := fun p hp => (htodo p hp).resolve_left (by simp)
    refine ⟨s, runs_pure (), { hs with waits := fun p id' hp => ?_ }, Settled.refl L s⟩
    rcases hs.waits p id' hp with ⟨hwait, hnull⟩ | hobject
    · exact Or.inl ⟨hwait.imp_right (himp p), hnull⟩
    · exact Or.inr hobject
  | cons p places ih =>
    have hp := hlate p List.mem_cons_self
    have hwritable := (hs.late p id hp).2
    obtain ⟨i, hi, -⟩ := (hs.built id target).1 hbuilt
    -- the place that has been served is no longer to be served
    have hs₁ : Consistent snapshot old L (fun q => todo q ∧ q ≠ p) (s.put p (.object target)) :=
      hs.settle hp hbuilt fun q hq => by
        by_cases hqp : q = p
        · exact Or.inl hqp
        · exact Or.inr ⟨hq, hqp⟩
    have hsettled : Settled L s (s.put p (.object target)) := by
      apply settled_put hwritable
      · intro hnone
        rw [hp] at hnone
        simp at hnone
      · intro a ha harray
        obtain rfl := Value.object.inj ha
        rw [(hs.object i target hi).2] at harray
        simp at harray
    obtain ⟨s₂, hrun, hs₂, hsettled₂⟩ := ih hs₁ hbuilt
      (fun q hq => hlate q (List.mem_cons_of_mem _ hq)) (by
        rintro q ⟨hq, hqp⟩
        rcases htodo q hq with hmem | hq'
        · exact Or.inl ((List.mem_cons.1 hmem).resolve_left hqp)
        · exact Or.inr hq')
    exact ⟨s₂, (runs_settle hwritable).bind hrun, hs₂, hsettled.trans hsettled₂⟩

end

/-! ## Nodes and their objects -/

/-- The object of a node is there, and still empty. -/
structure Opened (snapshot : Snapshot) (old : Realm P) (i : Nat) (L : Ledger) (s : Loading P)
    (h : Handle) (s' : Loading P) : Prop where
  consistent : Consistent snapshot old (L.meet i h) (fun _ => False) s'
  frame : Extends (fun _ => False) L s (L.meet i h) s'
  isNew : NewSince s h
  kind : s'.heap.kind? h = some .plain
  empty : ∀ name, s'.heap.at? (.property h name) = none
  held : ∀ p a, s.heap.kind? a = some (.array #[]) → s'.heap.at? p = some (.object a) →
    s.heap.at? p = some (.object a)
  room : ∀ n, s.heap.HasRoom (1 + n) → s'.heap.HasRoom n

section

variable {snapshot : Snapshot} {old : Realm P} {met : List Nat} {cost : Nat}
  {L L' : Ledger} {s s' s'' : Loading P}

theorem Extends.settled {E : Place → Prop} (h : Extends E L s L' s') (h' : Settled L' s' s'') :
    Extends E L s L' s'' :=
  h.trans h'.frame fun _ hfalse => hfalse.elim

theorem runs_make : Runs (make none) s (s.heap.allocate (.ofForm .plain)).1
    (s.tracked (.ofForm .plain)) :=
  (runs_ask Realm.registry).bind
    (runs_newObject.bind ((runs_track (.ofForm .plain)).bind (runs_pure _)))

/-- The object of a node is made and announced. -/
theorem Ready.opens {i : Nat} {node : Node} (h : Ready snapshot old met cost L s) (hcost : 0 < cost)
    (hi : L.object? i = none) (hnode : snapshot.nodes[i]? = some node)
    (hids : ∀ j j' id, idAt? snapshot.nodes j = some id → idAt? snapshot.nodes j' = some id → j = j') :
    ∃ k s₁ s₂, Runs (make none) s k s₁ ∧ Opened snapshot old i L s k s₂ ∧
      match node.id with
      | none => s₂ = s₁
      | some id => Runs (announce id k) s₁ () s₂ := by
  obtain ⟨hnew, hkind, hat, hmade⟩ := h.allocate hcost at?_ofForm_plain
    (s.tracked (.ofForm .plain)) ⟨rfl, rfl, rfl, rfl, rfl⟩ rfl
  have hrun := runs_make (s := s)
  generalize (s.heap.allocate (.ofForm .plain)).1 = k at hnew hkind hrun
  generalize s.tracked (.ofForm .plain) = s₁ at hkind hat hmade hrun
  have hs₁ := hmade.consistent
  have hfresh : ∀ j, L.object? j ≠ some k := by
    intro j hj
    have hlive := Heap.contains_iff_kind?.2 ⟨_, (h.consistent.object j k hj).2⟩
    rw [hnew] at hlive
    exact Bool.noConfusion hlive
  have hempty : ∀ name, s₁.heap.at? (.property k name) = none := by
    intro name
    rw [hat, Option.eq_none_iff_forall_ne_some]
    intro v hv
    have hlive := Heap.contains_of_at? hv
    rw [Place.owner, hnew] at hlive
    exact Bool.noConfusion hlive
  have hmeet := hs₁.meet hkind (h.consistent.isNew_of_dead hnew) hfresh hi hids
  have hframe : Extends (fun _ => False) L s (L.meet i k) (s₁.met (idAt? snapshot.nodes i) k) :=
    hmade.frame.meet hi k _
  have hopened : ∀ s₂, Consistent snapshot old (L.meet i k) (fun _ => False) s₂ →
      Settled (L.meet i k) (s₁.met (idAt? snapshot.nodes i) k) s₂ → Opened snapshot old i L s k s₂ := by
    intro s₂ hs₂ hsettled
    refine ⟨hs₂, hframe.settled hsettled, hnew, ?_, ?_, ?_, ?_⟩
    · rw [hsettled.kinds, heap_met, hkind]
      rfl
    · intro name
      rw [hsettled.same _ (hs₁.late_of_at? (hempty name)), heap_met, hempty]
    · intro p a ha hp
      rw [← hat p]
      have ha' := hframe.kinds a _ ha
      have hp' := hsettled.held p a ha' hp
      rw [heap_met] at hp'
      exact hp'
    · intro n hn
      refine hsettled.room n ?_
      rw [heap_met]
      exact hmade.room n hn
  have hid : idAt? snapshot.nodes i = node.id := by rw [idAt?, hnode, Option.bind_some]
  rw [hid] at hmeet hopened hframe
  cases hnodeId : node.id with
  | none =>
    rw [hnodeId] at hmeet hopened
    refine ⟨k, s₁, s₁, hrun, hopened s₁ { hmeet with waits := fun p id hp => ?_ }
      (Settled.refl _ _), rfl⟩
    rcases hmeet.waits p id hp with ⟨hwait | ⟨id', hid', -⟩, hnull⟩ | hobject
    · exact Or.inl ⟨Or.inl hwait, hnull⟩
    · simp at hid'
    · exact Or.inr hobject
  | some id =>
    rw [hnodeId] at hmeet hopened
    obtain ⟨s₂, hruns, hs₂, hsettled⟩ := runs_settle_places (fun _ => False)
      (s₁.waitingFor id) hmeet (by rw [lookup_built_met, if_pos rfl])
      (fun p hp => hs₁.waiting id p hp) (by
        rintro p ⟨id', hid', hp⟩
        rw [Option.some.inj hid']
        exact Or.inl hp)
    exact ⟨k, s₁, s₂, hrun, hopened s₂ hs₂ hsettled, runs_get.bind ((runs_modify _).bind hruns)⟩

/-- The entries of a node are all written, in another order perhaps. -/
theorem inPhases_perm (r : Realm P) (c? : Option ClassNumber) (entries : Table Entry) :
    (inPhases r c? entries).Perm entries.entries := by
  have hphase : ∀ key, phase r c? key = 0 ∨ phase r c? key = 1 ∨ phase r c? key = 2 := by
    intro key
    unfold phase
    split
    · split
      · exact Or.inl rfl
      · split
        · exact Or.inr (Or.inr rfl)
        · exact Or.inr (Or.inl rfl)
    · exact Or.inr (Or.inl rfl)
  have hperm : ∀ list : List (String × Entry),
      ([0, 1, 2].flatMap fun n => list.filter fun entry => phase r c? entry.1 == n).Perm list := by
    intro list
    simp only [List.flatMap_cons, List.flatMap_nil, List.append_nil]
    induction list with
    | nil => exact List.Perm.refl _
    | cons entry list ih =>
      rcases hphase entry.1 with h | h | h
      · simpa [h] using ih.cons entry
      · simpa [h] using List.perm_middle.trans (ih.cons entry)
      · simpa [h] using
          ((List.perm_middle.append_left _).trans List.perm_middle).trans (ih.cons entry)
  exact hperm entries.entries

/-- When all entries of a node have come into their fields, its object has been filled. -/
theorem Opened.complete {i : Nat} {h : Handle} {entries : List (String × Entry)}
    (ho : Opened snapshot old i L s h s')
    (hprogress : Progress snapshot old (fun p => ∃ entry ∈ entries, p = .property h (fieldName entry))
      met cost (L.meet i h) s' L'' s'')
    (hrestored : ∀ entry ∈ entries, Restored (NewSince s') s''.heap L'' h entry) :
    Complete (NewSince s') s''.heap L'' h entries where
  plain := hprogress.frame.kinds h _ ho.kind
  fields name v hat := by
    by_contra hnone
    have hout : ¬∃ entry ∈ entries, Place.property h name = .property h (fieldName entry) := by
      rintro ⟨entry, hentry, heq⟩
      rw [Place.property.injEq] at heq
      exact hnone ⟨entry, hentry, heq.2.symm⟩
    have hlive : s'.heap.contains h = true := Heap.contains_iff_kind?.2 ⟨_, ho.kind⟩
    rw [hprogress.at?_eq_none ho.consistent hout hlive (ho.empty name)] at hat
    simp at hat
  restored := hrestored

/-- First the object of a node is made, then it is filled. -/
theorem Opened.progress {i : Nat} {h : Handle} {node : Node} {E : Place → Prop}
    (ho : Opened snapshot old i L s h s')
    (hprogress : Progress snapshot old E met cost (L.meet i h) s' L'' s'')
    (hE : ∀ p, E p → p.owner = h) (hnode : snapshot.nodes[i]? = some node)
    (hcomplete : Complete (NewSince s') s''.heap L'' h node.entries.entries) :
    Progress snapshot old (fun _ => False) (i :: met) (1 + cost) L s L'' s'' := by
  have hi : L''.object? i = some h := hprogress.frame.objects i h (if_pos rfl)
  have hsince : ∀ a, NewSince s' a → NewSince s a := fun a ha => ha.of_extends ho.frame
  constructor
  case consistent => exact hprogress.consistent
  case frame =>
    refine ho.frame.trans hprogress.frame fun p hp hlive => ?_
    have hnew := ho.isNew
    rw [NewSince, ← hE p hp, hlive] at hnew
    exact Bool.noConfusion hnew
  case only =>
    intro j k hj
    rcases hprogress.only j k hj with hj | hj
    · by_cases hji : j = i
      · exact Or.inr (hji ▸ List.mem_cons_self)
      · rw [Ledger.object?_meet_of_ne hji] at hj
        exact Or.inl hj
    · exact Or.inr (List.mem_cons_of_mem _ hj)
  case complete =>
    intro j hj
    rcases List.mem_cons.1 hj with rfl | hj
    · exact ⟨h, node, hnode, hi, ho.isNew, hcomplete.imp hsince⟩
    · obtain ⟨k, node', hnode', hk, hnew, hdone⟩ := hprogress.complete j hj
      exact ⟨k, node', hnode', hk, hsince k hnew, hdone.imp hsince⟩
  case held =>
    intro p a hnew ha hat
    exact ho.held p a ha (hprogress.held p a hnew (ho.frame.kinds a _ ha) hat)
  case room =>
    intro n hn
    rw [Nat.add_assoc] at hn
    exact hprogress.room n (ho.room _ hn)

/-- The run that makes the object of a node, announces it and fills it. -/
theorem runs_rebuildNode_of {inner : Inner P} {node : Node} {h : Handle}
    (hsingleton : singletonName? s.realm node = none) (hmake : Runs (make node.className) s h s')
    (hannounce : match node.id with
      | none => s'' = s'
      | some id => Runs (announce id h) s' () s'') {t : Loading P}
    (hfill : Runs ((inPhases s''.realm (s''.realm.classOf? h) node.entries).forM fun (key, entry) =>
      restoreEntry inner h key entry) s'' () t) :
    Runs (rebuildNode inner node) s (some h) t := by
  unfold rebuildNode
  refine (runs_ask _).bind ?_
  rw [hsingleton]
  refine hmake.bind ?_
  have hrest : Runs (ask (fun r => inPhases r (r.classOf? h) node.entries) >>= fun entries =>
      (entries.forM fun (key, entry) => restoreEntry inner h key entry) >>= fun _ =>
        pure (some h)) s'' (some h) t :=
    (runs_ask _).bind (hfill.bind (runs_pure _))
  cases hid : node.id with
  | none =>
    rw [hid] at hannounce
    obtain rfl : s'' = s' := hannounce
    exact hrest
  | some id =>
    rw [hid] at hannounce
    exact Runs.bind hannounce hrest

/-- A node is read. -/
theorem runs_rebuildNode {snapshot : Snapshot} (hs : snapshot.Classless) {inner : Inner P}
    {room : Nat} (hinner : Reads snapshot old inner room) {i : Nat} {node : Node}
    {inside : List Nat} (hreached : snapshot.Reached i) (hnode : snapshot.nodes[i]? = some node)
    (hvisits : Visits snapshot.nodes room node.entries.values inside)
    (hready : Ready snapshot old (i :: inside) (costOf snapshot.nodes (i :: inside)) L s) :
    ∃ h L' s', Runs (rebuildNode inner node) s (some h) s' ∧
      Answers snapshot old (.node i) (i :: inside) (costOf snapshot.nodes (i :: inside)) L s
        (.object h) L' s' := by
  have hmem : node ∈ snapshot.nodes := Array.mem_of_getElem? hnode
  have hnodup := List.nodup_cons.1 hready.nodup
  have hcost : costOf snapshot.nodes (i :: inside) =
      1 + ((node.entries.entries.map entryCost).sum + costOf snapshot.nodes inside) := by
    rw [Snapshot.costOf_cons, nodeCost, hnode, Option.elim_some]
    omega
  rw [hcost] at hready ⊢
  obtain ⟨h, s₁, s₂, hmake, hopened, hannounce⟩ :=
    hready.opens (by omega) (hready.unmet i List.mem_cons_self) hnode hs.distinct
  -- the entries are written in an order of their own, which takes the walk through the node along
  generalize hentries : inPhases s₂.realm (s₂.realm.classOf? h) node.entries = entries
  have hperm : entries.Perm node.entries.entries := hentries ▸ inPhases_perm _ _ _
  obtain ⟨inside', hinside, hvisits'⟩ := hvisits.perm (hperm.map Prod.snd).symm
  have hcost' : (entries.map entryCost).sum + costOf snapshot.nodes inside' =
      (node.entries.entries.map entryCost).sum + costOf snapshot.nodes inside := by
    rw [(hperm.map entryCost).sum_eq, Snapshot.costOf_perm hinside]
  have hready₂ : Ready snapshot old inside'
      ((entries.map entryCost).sum + costOf snapshot.nodes inside') (L.meet i h) s₂ := by
    refine ⟨hinside.nodup_iff.2 hnodup.2, fun j hj => ?_, hopened.consistent, ?_⟩
    · have hji : j ≠ i := fun e => hnodup.1 (e ▸ hinside.mem_iff.1 hj)
      rw [Ledger.object?_meet_of_ne hji]
      exact hready.unmet j (List.mem_cons_of_mem _ (hinside.mem_iff.1 hj))
    · rw [hcost']
      exact hopened.room _ hready.room
  obtain ⟨L', s', hruns, hprogress, hrestored⟩ :=
    runs_restoreEntries hinner (hready.consistent.isNew_of_dead hopened.isNew) entries inside'
      (L.meet i h) s₂ (fun entry hentry => hs.within_entry hreached hnode (hperm.mem_iff.1 hentry))
      ((hperm.map fieldName).nodup_iff.2 (hs.names node hmem)) hvisits' hready₂ hopened.kind
      (fun entry _ => hopened.empty _)
  have hcomplete := (hopened.complete hprogress hrestored).perm hperm
  rw [hcost'] at hprogress
  have hread := hopened.progress (hprogress.perm hinside)
    (by rintro p ⟨entry, -, rfl⟩; rfl) hnode hcomplete
  have hi : L'.object? i = some h := hprogress.frame.objects i h (if_pos rfl)
  have hclass := hs.noClass node hmem
  refine ⟨h, L', s', runs_rebuildNode_of (by simp [singletonName?, hclass]) (hclass.symm ▸ hmake)
    hannounce (hentries ▸ hruns), hread, .node hi, ?_⟩
  intro a ha harray
  obtain rfl := Value.object.inj ha
  rw [(hprogress.consistent.object i h hi).2] at harray
  simp at harray

theorem Ready.leaf {entry : Entry} {v : Value} (h : Ready snapshot old [] cost L s)
    (hleaf : leafValue? entry = some v) : Answers snapshot old entry [] cost L s v L s where
  progress := (Extends.refl _ L s).progress h.consistent rfl (fun _ _ hat => hat)
    fun _ hn => hn.mono (Nat.le_add_left _ _)
  holds := .leaf hleaf
  unplaced _ ha := absurd (ha ▸ hleaf) leafValue?_ne_object

theorem met_of_visits_leaf {room : Nat} {entry : Entry} (hleaf : entry.isLeaf = true)
    (h : Visits snapshot.nodes room [entry] met) : met = [] := by
  cases h with
  | leaf _ hrest =>
    cases hrest
    rfl
  | array => simp [Entry.isLeaf] at hleaf
  | node => simp [Entry.isLeaf] at hleaf

/-- Whatever is read, is read as it should be. -/
theorem reads_read {snapshot : Snapshot} (hs : snapshot.Classless) (old : Realm P) (room : Nat) :
    Reads snapshot old (read snapshot room) room := by
  induction room with
  | zero =>
    intro entry met L s hwithin hstub hvisits hready
    cases entry with
    | array items => cases hvisits with | leaf hleaf => simp [Entry.isLeaf] at hleaf
    | node i => cases hvisits with | leaf hleaf => simp [Entry.isLeaf] at hleaf
    | stub id => exact absurd rfl (hstub id)
    | reference h => exact absurd hwithin.lifeless (by simp [Entry.isLive])
    | _ =>
      obtain rfl := met_of_visits_leaf rfl hvisits
      exact ⟨_, L, s, runs_pure _, hready.leaf rfl⟩
  | succ room ih =>
    intro entry met L s hwithin hstub hvisits hready
    cases entry with
    | array items =>
      cases hvisits with
      | leaf hleaf => simp [Entry.isLeaf] at hleaf
      | array hitems hrest =>
        cases hrest
        rw [List.append_nil] at hready ⊢
        obtain ⟨a, L', s', hrun, hanswers⟩ := runs_rebuildArray ih hwithin hitems hready
        exact ⟨_, L', s', (runs_pure _).bind (hrun.bind (runs_pure _)), hanswers⟩
    | node i =>
      cases hvisits with
      | leaf hleaf => simp [Entry.isLeaf] at hleaf
      | @node _ _ node _ inside _ hnode hvalues hrest =>
        cases hrest
        rw [List.append_nil] at hready ⊢
        have hcost : (Entry.node i).arrays + costOf snapshot.nodes (i :: inside) =
            costOf snapshot.nodes (i :: inside) := by
          simp [Entry.arrays]
        rw [hcost] at hready ⊢
        have hlookup : snapshot.node i = .ok node := Snapshot.node_eq_ok_iff.2 hnode
        have hlift : Runs (liftM (snapshot.node i)) s node s := by
          rw [hlookup]
          rfl
        have hreached := hwithin.reached i List.mem_cons_self
        obtain ⟨h, L', s', hrun, hanswers⟩ := runs_rebuildNode hs ih hreached hnode hvalues hready
        exact ⟨_, L', s', (runs_pure _).bind (hlift.bind (hrun.bind (runs_pure _))), hanswers⟩
    | stub id => exact absurd rfl (hstub id)
    | reference h => exact absurd hwithin.lifeless (by simp [Entry.isLive])
    | _ =>
      obtain rfl := met_of_visits_leaf rfl hvisits
      exact ⟨_, L, s, runs_pure _, hready.leaf rfl⟩

end

end ScriptBridge.Loading
