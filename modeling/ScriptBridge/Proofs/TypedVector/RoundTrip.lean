import ScriptBridge.Proofs.Heap.WriteBack
import ScriptBridge.Proofs.TypedVector.Restoring
import ScriptBridge.Proofs.TypedVector.Runs

/-!
# Round Trips of Vectors

The snapshot of a vector is read one step at a time: an instance is made, its entries are written in
the order of their phases, and in the end nothing waits and nobody is awakened. Meanwhile the state of
the load is calm, and all that changes is the vector. So a vector that has been saved comes back with
its type, its elements and its locks.

Main statements: `Host.load_image` (the half that loads) and `Host.load_save_vector`.
-/

namespace ScriptBridge

open Snapshot (Entry)

variable {P : Platform}

/-! ## Properties that are Written -/

namespace TypedVector.Members

/-- A property of vectors that can be written, and whose name is not the one of a function that was
saved. -/
structure Settable (key : String) (accessor : Accessor P) : Prop where
  bound : ∃ binding, table.find? key = some binding ∧ binding.acceptsWrites = true ∧
    binding.accessor = accessor
  plain : Snapshot.functionName? key = none

/-- All properties of vectors are such. -/
theorem settable (i : Nat) {key : String} {accessor : Accessor P} {flags : PropertyFlags}
    (hi : properties[i]? = some (key, accessor, flags)) : Settable key accessor := by
  have hmem := List.mem_of_getElem? hi
  simp only [properties, List.mem_cons, List.not_mem_nil, or_false, Prod.mk.injEq] at hmem
  obtain ⟨rfl, rfl, rfl⟩ | ⟨rfl, rfl, rfl⟩ | ⟨rfl, rfl, rfl⟩ | ⟨rfl, rfl, rfl⟩ | ⟨rfl, rfl, rfl⟩ |
    ⟨rfl, rfl, rfl⟩ := hmem
  all_goals exact ⟨⟨_, rfl, by cbv, rfl⟩, by cbv⟩

end TypedVector.Members

namespace Realm

variable {r : Realm P} {c : ClassNumber} {k : Handle} {v w : TypedVector}

/-- A setter that makes one vector of another changes the native state of its instance only. -/
theorem IsVector.run_putProperty (hv : r.IsVector c k (.vector v)) {key : String}
    {accessor : Accessor P} (hkey : TypedVector.Members.Settable key accessor) {value : Value}
    (hyields : TypedVector.Members.Yields accessor (r.expand value) ⟨true, r.heap, r.registry.tree⟩
      v w) :
    Id.run ((putProperty k key value true).run.run r) =
      (.ok (), r.modifyObject k (·.setNative (.vector w))) := by
  obtain ⟨binding, hbinding, hwrites, rfl⟩ := hkey.bound
  have hfound : r.binding? ⟨.instanceOf c (some (.vector v)), .empty⟩ key = some binding :=
    (hv.knows.property key).trans hbinding
  have hnative : r.native k = .ok (.vector v) := by
    unfold native
    rw [hv.get?]
    rfl
  unfold putProperty
  rw [run_get]
  simp only [hv.get?, hfound, hwrites]
  show Id.run ((onNative k true fun m => binding.accessor.write (r.expand value) m).run.run r) = _
  rw [run_onNative, hnative]
  dsimp only
  rw [hyields r.world]
  rfl

/-- Such an instance is no array. -/
theorem IsVector.expand (hv : r.IsVector c k (.vector v)) : r.expand (.object k) = .object k := by
  refine Heap.expandOn_of_items?_eq_none rfl fun h heq => ?_
  obtain rfl := Value.object.inj heq
  show (r.heap.get? _).bind ScriptObject.items? = none
  rw [hv.get?]
  rfl

/-- Neither its class nor a field of its own has a function that awakens it. -/
theorem IsVector.canAwake (hv : r.IsVector c k (.vector v)) : Loading.canAwake r k = false := by
  have hfield : r.field? k Loading.awakeName = none := by
    unfold field?
    rw [hv.get?]
    rfl
  unfold Loading.canAwake
  rw [hv.classOf?, Option.bind_some, hv.knows.sleepless, hfield]
  rfl

theorem IsVector.setNative (hv : r.IsVector c k (.vector v)) (w : TypedVector) :
    (r.modifyObject k (·.setNative (.vector w))).IsVector c k (.vector w) := by
  refine ⟨hv.knows, ?_⟩
  show (r.heap.modify k _).get? k = _
  rw [Heap.get?_modify, if_pos rfl, hv.get?]
  rfl

end Realm

namespace Loading

open TypedVector (scalarEntry readBack)
open TypedVector.Members (Settable Yields settable restores_type restores_elementClass restores_data
  restores_typeLocked restores_sizeLocked)

variable {c : ClassNumber} {k a : Handle} {n : Nat} {v w : TypedVector} {slots : Array Value}
  {s s' s'' : Loading P}

/-! ## A Calm Load -/

/-- A load has made a vector, and nothing waits. There is room for `n` more objects. -/
structure Holding (c : ClassNumber) (k : Handle) (n : Nat) (v : TypedVector) (s : Loading P) :
    Prop where
  vector : s.realm.IsVector c k (.vector v)
  wellFormed : s.heap.WellFormed
  room : s.heap.HasRoom n
  waiting : s.waiting = .empty
  lateItems : s.lateItems = 0
  renewals : s.renewals = []
  sleepers : s.sleepers = [k]

/-- A property is written. -/
theorem Holding.write (hs : Holding c k n v s) {key : String} {accessor : Accessor P}
    (hkey : Settable key accessor) (value : Value)
    (hyields : ∀ m, Yields accessor (s.realm.expand value) m v w) :
    ∃ s', Runs (write k key value) s () s' ∧ Holding c k n w s' :=
  ⟨_, (runs_attempt (hs.vector.run_putProperty hkey (hyields _))).bind (runs_pure ()),
    hs.vector.setNative w, hs.wellFormed.modify _ _, Heap.hasRoom_modify.2 hs.room, hs.waiting,
    hs.lateItems, hs.renewals, hs.sleepers⟩

/-- An entry that is read without anything having to wait is written into its property. -/
theorem runs_restoreEntry_of {inner : Inner P} {key : String} {entry : Entry} {value : Value}
    (hkey : Snapshot.functionName? key = none) (hstub : ∀ id, entry ≠ .stub id)
    (hread : Runs (inner entry) s value s') (hlate : s'.lateItems = s.lateItems)
    (hwrite : Runs (write k key value) s' () s'') :
    Runs (restoreEntry inner k key entry) s () s'' := by
  -- only arrays with late items would be written once more
  have hnothing : ¬s.lateItems < s'.lateItems := by
    rw [hlate]
    exact Nat.lt_irrefl _
  unfold restoreEntry
  rw [hkey]
  cases entry with
  | stub id => exact absurd rfl (hstub id)
  | array items =>
    refine runs_get.bind (hread.bind ?_)
    cases value with
    | object array =>
      refine runs_get.bind ?_
      rw [if_neg hnothing]
      exact hwrite
    | _ => exact hwrite
  | _ => exact runs_get.bind (hread.bind hwrite)

/-! ## Entries that Nothing Lies Inside of -/

theorem runs_read_leaf (snapshot : Snapshot) (room : Nat) {entry : Entry} {value : Value}
    (hleaf : leafValue? entry = some value) :
    Runs (read snapshot room entry) s value s := by
  cases entry with
  | null | bool | int | double | string =>
    obtain rfl := Option.some.inj hleaf
    cases room <;> rfl
  | _ => cases hleaf

theorem ne_stub_of_leafValue? {entry : Entry} {value : Value} (hleaf : leafValue? entry = some value)
    (id : String) : entry ≠ .stub id := by
  rintro rfl
  cases hleaf

/-- What is read for such an entry is neither an array nor an object. -/
theorem expandOn_of_leafValue? {entry : Entry} {value : Value} (hleaf : leafValue? entry = some value)
    (heap : Heap P) (path : List Handle) : heap.expandOn path value = value :=
  Heap.expandOn_of_items?_eq_none (isInline_of_leafValue? hleaf)
    fun _ hvalue => absurd (hvalue ▸ hleaf) leafValue?_ne_object

/-- Such an entry is written. -/
theorem Holding.restore (hs : Holding c k n v s) (snapshot : Snapshot) (room : Nat) {key : String}
    {accessor : Accessor P} (hkey : Settable key accessor) (entry : Entry) {value : Value}
    (hleaf : leafValue? entry = some value) (hyields : ∀ m, Yields accessor value m v w) :
    ∃ s', Runs (restoreEntry (read snapshot room) k key entry) s () s' ∧ Holding c k n w s' := by
  have hexpand : s.realm.expand value = value := expandOn_of_leafValue? hleaf s.heap []
  obtain ⟨s', hwrite, hs'⟩ := hs.write hkey value (hexpand.symm ▸ hyields)
  exact ⟨s', runs_restoreEntry_of hkey.plain (ne_stub_of_leafValue? hleaf)
    (runs_read_leaf snapshot room hleaf) rfl hwrite, hs'⟩

/-! ## The Array of Elements -/

/-- Besides the vector there is an array that is being filled. -/
structure HoldingItems (c : ClassNumber) (k : Handle) (n : Nat) (v : TypedVector) (a : Handle)
    (slots : Array Value) (s : Loading P) : Prop extends Holding c k n v s where
  items : s.heap.get? a = some ⟨.array slots, .empty⟩

/-- The array is not the vector. -/
theorem HoldingItems.ne (hs : HoldingItems c k n v a slots s) : k ≠ a := by
  rintro rfl
  have hitems := hs.items
  have hvector := hs.vector.get?
  rw [show s.realm.heap.get? k = _ from hitems] at hvector
  cases hvector

/-- One more item is stored. -/
theorem HoldingItems.push (hs : HoldingItems c k n v a slots s) (value : Value) :
    HoldingItems c k n v a (slots.push value) (s.put (.item a slots.size) value) := by
  have hpush : Realm.withItem slots slots.size value = slots.push value := by
    unfold Realm.withItem
    rw [if_neg (Nat.lt_irrefl slots.size), Nat.sub_self, Array.replicate_zero, Array.append_empty]
  have hvector : (s.heap.put (.item a slots.size) value).get? k =
      some ⟨.instanceOf c (some (.vector v)), .empty⟩ := by
    exact (Heap.get?_put s.heap _ value k).trans ((if_neg hs.ne).trans hs.vector.get?)
  refine ⟨⟨⟨hs.vector.knows, hvector⟩, hs.wellFormed.put _ _, Heap.hasRoom_put.2 hs.room, hs.waiting,
    hs.lateItems, hs.renewals, hs.sleepers⟩, ?_⟩
  refine (Heap.get?_put s.heap _ value a).trans ((if_pos rfl).trans ?_)
  show (s.heap.get? a).map _ = _
  rw [hs.items, Option.map_some, ← hpush]
  rfl

/-- The items are read one after the other. -/
theorem HoldingItems.runs_rebuildItems (snapshot : Snapshot) (room : Nat) {values : List Value}
    (hvalues : ∀ value ∈ values, leafValue? (scalarEntry value) = some (readBack value))
    (hs : HoldingItems c k n v a slots s) :
    ∃ s', Runs (rebuildItems (read snapshot room) a slots.size (values.map scalarEntry)) s () s' ∧
      HoldingItems c k n v a (slots ++ (values.map readBack).toArray) s' := by
  induction values generalizing slots s with
  | nil => exact ⟨s, runs_pure (), by simpa using hs⟩
  | cons value values ih =>
    have hleaf := hvalues value List.mem_cons_self
    -- an item that is not a stub is read right away, and leaves the state as it is
    have hread : Runs (readItem (read snapshot room) a slots.size (scalarEntry value)) s
        (readBack value) s := by
      unfold readItem
      split
      · next id hid => exact absurd hid (ne_stub_of_leafValue? hleaf id)
      · exact runs_read_leaf snapshot room hleaf
    have hwritable : s.heap.Writable (.item a slots.size) := ⟨slots, .empty, hs.items, Nat.le_refl _⟩
    have hinline : (readBack value).isInline = false := isInline_of_leafValue? hleaf
    obtain ⟨s', hrun, hs'⟩ := ih (fun other hother => hvalues other (List.mem_cons_of_mem _ hother))
      (hs.push (readBack value))
    refine ⟨s', ?_, ?_⟩
    · rw [List.map_cons, rebuildItems_cons]
      rw [Array.size_push] at hrun
      exact hread.bind ((runs_assignElement hwritable hinline).bind hrun)
    · rw [List.map_cons]
      simpa using hs'

/-- An array is made beside the vector. -/
theorem Holding.tracked (hs : Holding c k (n + 1) v s) :
    HoldingItems c k n v (s.heap.allocate (.ofForm (.array #[]))).1 #[]
      (s.tracked (.ofForm (.array #[]))) := by
  have hroom : s.heap.HasRoom 1 := hs.room.mono (Nat.le_add_left 1 n)
  have hlive : s.heap.contains k = true := Heap.contains_iff.2 ⟨_, hs.vector.get?⟩
  refine ⟨⟨⟨hs.vector.knows, ?_⟩, hs.wellFormed.allocate hroom _, hs.room.allocate _, hs.waiting,
    hs.lateItems, hs.renewals, hs.sleepers⟩, ?_⟩
  · exact (Heap.get?_allocate_of_contains hs.wellFormed hroom _ hlive).trans hs.vector.get?
  · exact (hs.wellFormed.get?_allocate hroom _ _).trans (if_pos rfl)

/-- The elements are read. -/
theorem Holding.runs_read_array (hs : Holding c k (n + 1) v s) (snapshot : Snapshot) (room : Nat)
    {values : List Value}
    (hvalues : ∀ value ∈ values, leafValue? (scalarEntry value) = some (readBack value)) :
    ∃ a s', Runs (read snapshot (room + 1) (.array (values.map scalarEntry))) s (.object a) s' ∧
      HoldingItems c k n v a (values.map readBack).toArray s' := by
  obtain ⟨s', hrun, hs'⟩ := hs.tracked.runs_rebuildItems snapshot room hvalues
  rw [Array.empty_append] at hs'
  generalize ha : (s.heap.allocate (.ofForm (.array #[]))).1 = a at hrun hs'
  have hmake := runs_newArray (s := s)
  have hkeep := runs_track (s := s) (.ofForm (.array #[]))
  rw [ha] at hmake hkeep
  have harray : Runs (rebuildArray (read snapshot room) (values.map scalarEntry)) s a s' :=
    hmake.bind (hkeep.bind (hrun.bind (runs_pure a)))
  exact ⟨a, s', (runs_pure _).bind (harray.bind (runs_pure _)), hs'⟩

/-- What a setter sees of the array. -/
theorem HoldingItems.expand {values : List Value}
    (hvalues : ∀ value ∈ values, leafValue? (scalarEntry value) = some (readBack value))
    (hs : HoldingItems c k n v a (values.map readBack).toArray s) :
    s.realm.expand (.object a) = .array (some a) (values.map readBack) := by
  have hitems : s.heap.items? a = some (values.map readBack).toArray := by
    rw [Heap.items?, hs.items]
    rfl
  show s.heap.expandOn [] (.object a) = _
  rw [Heap.expandOn_of_not_mem hitems List.not_mem_nil, List.map_map]
  refine congrArg (Value.array (some a)) (List.map_congr_left fun value hvalue => ?_)
  exact expandOn_of_leafValue? (hvalues value hvalue) s.heap [a]

/-! ## The Node of a Vector -/

/-- A new instance. -/
theorem runs_make_vector {r : Realm P} (hr : r.registry.KnowsVectors c) (hwf : r.heap.WellFormed)
    (hroom : r.heap.HasRoom (n + 1)) :
    ∃ k s, Runs (make (some TypedVector.className)) ⟨r, [], .empty, 0, [], [], []⟩ k s ∧
      r.heap.contains k = false ∧ Holding c k n .empty s := by
  obtain ⟨d, hd, houtline⟩ := hr.outline
  let object : ScriptObject P := .ofForm (.instanceOf c (some (.vector .empty)))
  let k := (r.heap.allocate object).1
  let s : Loading P := ⟨(r.allocate object).2.protect k, [], .empty, 0, [], [k], [k]⟩
  have hroom₁ : r.heap.HasRoom 1 := hroom.mono (Nat.le_add_left 1 n)
  have hinstance : r.instantiate c = (k, (r.allocate object).2) := by
    unfold Realm.instantiate
    rw [if_neg hr.object, if_neg hr.array, hr.fresh]
    rfl
  have hmake : Runs (make (some TypedVector.className)) ⟨r, [], .empty, 0, [], [], []⟩ k s := by
    refine (runs_ask _).bind ?_
    dsimp only
    rw [hr.lookup]
    dsimp only
    -- the class is not built in, so the instance counts among those to be awakened
    rw [hd, Option.any_some, houtline]
    have hnew : Runs (perform (modifyGet (Realm.instantiate c)))
        (⟨r, [], .empty, 0, [], [], []⟩ : Loading P) k
        ⟨(r.allocate object).2, [], .empty, 0, [], [], []⟩ := by
      refine runs_perform ?_
      show (Except.ok (r.instantiate c).1, (r.instantiate c).2) = _
      rw [hinstance]
    exact hnew.bind ((runs_modify _).bind ((runs_pure k).bind ((runs_keepAlive k).bind (runs_pure k))))
  refine ⟨k, s, hmake, Heap.contains_before_allocate hwf hroom₁ object, ⟨hr, ?_⟩,
    hwf.allocate hroom₁ object, hroom.allocate object, rfl, rfl, rfl, rfl⟩
  exact (hwf.get?_allocate hroom₁ object k).trans (if_pos rfl)

/-- The entries of a vector are written in the order in which they have been saved. -/
theorem inPhases_savedEntries {r : Realm P} (hr : r.registry.KnowsVectors c) (v : TypedVector) :
    inPhases r (some c) (.ofList v.savedEntries) = v.savedEntries := by
  have hphase : ∀ key, phase r (some c) key =
      (TypedVector.Members.table (P := P).find? key).elim 1 fun binding =>
        if binding.flags.contains .early then 0
        else if binding.flags.contains .late then 2 else 1 := by
    intro key
    unfold phase
    rw [Option.bind_some, hr.property]
    cases TypedVector.Members.table (P := P).find? key <;> rfl
  unfold inPhases
  simp only [hphase]
  -- type and class are early, the elements come after them, and both locks are late
  cbv

/-- The elements are written once their type is there. -/
theorem Holding.restore_data (hv : v.Storable) (hs : Holding c k (n + 1) (.blank v.type?) s)
    (snapshot : Snapshot) (room : Nat) :
    ∃ s', Runs (restoreEntry (read snapshot (room + 1)) k "data" (.array (v.values.map scalarEntry))) s
        () s' ∧ Holding c k n { TypedVector.empty with elements := v.elements } s' := by
  have hvalues : ∀ value ∈ v.values, leafValue? (scalarEntry value) = some (readBack value) :=
    fun _ => hv.leafValue?
  have hkey : Settable (P := P) "data" TypedVector.Members.data := settable 2 rfl
  obtain ⟨a, s₁, hread, hs₁⟩ := hs.runs_read_array snapshot room hvalues
  obtain ⟨s₂, hwrite, hs₂⟩ := hs₁.toHolding.write hkey (.object a) fun m => by
    rw [hs₁.expand hvalues]
    exact restores_data hv (some a) m
  exact ⟨s₂, runs_restoreEntry_of hkey.plain nofun hread (hs₁.lateItems.trans hs.lateItems.symm)
    hwrite, hs₂⟩

/-- The entries of a vector are written one after the other. -/
theorem Holding.runs_restoreEntries (hv : v.Storable) (hs : Holding c k (n + 1) .empty s)
    (snapshot : Snapshot) (room : Nat) :
    ∃ s', Runs (v.savedEntries.forM fun (key, entry) =>
        restoreEntry (read snapshot (room + 1)) k key entry) s () s' ∧ Holding c k n v s' := by
  have hname : leafValue? (v.type?.elim .null fun type => .string type.name) =
      some (v.type?.elim .null fun type => .string type.name) := by
    cases v.type? <;> rfl
  have hblank : (TypedVector.blank v.type?).elementClass = none := by cases v.type? <;> rfl
  obtain ⟨s₁, hfirst, hs₁⟩ := hs.restore snapshot (room + 1) (settable 0 rfl) _ hname (restores_type v)
  obtain ⟨s₂, hsecond, hs₂⟩ := hs₁.restore snapshot (room + 1) (settable 1 rfl) .null rfl
    (restores_elementClass hblank)
  obtain ⟨s₃, hthird, hs₃⟩ := hs₂.restore_data hv snapshot room
  obtain ⟨s₄, hfourth, hs₄⟩ := hs₃.restore snapshot (room + 1) (settable 4 rfl) (.bool v.typeLocked)
    rfl (restores_typeLocked _ v.typeLocked)
  obtain ⟨s₅, hfifth, hs₅⟩ := hs₄.restore snapshot (room + 1) (settable 5 rfl) (.bool v.sizeLocked)
    rfl (restores_sizeLocked _ v.sizeLocked)
  -- the locks are the last to be set, on a vector that has everything else already
  have hrestored : ((TypedVector.mk v.elements false false none).lockType v.typeLocked).lockSize
      v.sizeLocked = v := by
    obtain ⟨elements, sizeLocked, typeLocked, elementClass⟩ := v
    obtain rfl : elementClass = none := hv.elementClass
    rfl
  refine ⟨s₅, hfirst.bind (hsecond.bind (hthird.bind (hfourth.bind (hfifth.bind (runs_pure ()))))), ?_⟩
  rw [← hrestored]
  exact hs₅

/-- The node of a vector is read. -/
theorem runs_read_image {r : Realm P} (hr : r.registry.KnowsVectors c) (hwf : r.heap.WellFormed)
    (hroom : r.heap.HasRoom (n + 2)) (hv : v.Storable) (room : Nat) :
    ∃ k s, Runs (read v.image (room + 2) v.image.root) ⟨r, [], .empty, 0, [], [], []⟩ (.object k) s ∧
      r.heap.contains k = false ∧ Holding c k n v s := by
  obtain ⟨k, s₁, hmake, hnew, hs₁⟩ := runs_make_vector hr hwf hroom
  obtain ⟨s₂, hfill, hs₂⟩ := hs₁.runs_restoreEntries hv v.image room
  have hsingleton : singletonName? r v.savedNode = none := by
    obtain ⟨d, hd, houtline⟩ := hr.outline
    have hfound : r.registry.registered? TypedVector.className = some d := by
      rw [Registry.registered?, hr.lookup, Option.bind_some, hd]
    show (some TypedVector.className).filter _ = none
    rw [Option.filter_some, hfound, Option.any_some, houtline]
    rfl
  have hentries : inPhases s₁.realm (s₁.realm.classOf? k) v.savedNode.entries = v.savedEntries := by
    rw [hs₁.vector.classOf?]
    exact inPhases_savedEntries hs₁.vector.knows v
  have hnode : Runs (rebuildNode (read v.image (room + 1)) v.savedNode)
      ⟨r, [], .empty, 0, [], [], []⟩ (some k) s₂ :=
    runs_rebuildNode_of hsingleton hmake rfl (hentries.symm ▸ hfill)
  have hfound : Runs (liftM (v.image.node 0)) (⟨r, [], .empty, 0, [], [], []⟩ : Loading P) v.savedNode
      ⟨r, [], .empty, 0, [], [], []⟩ := rfl
  exact ⟨k, s₂, (runs_pure _).bind (hfound.bind (hnode.bind (runs_pure _))), hnew, hs₂⟩

/-! ## After the Last Entry -/

theorem Holding.runs_settleAll (hs : Holding c k n v s) : Runs settleAll s () s := by
  have hsame : { s with waiting := .empty } = s := by rw [← hs.waiting]
  refine runs_get.bind ((runs_modify _).bind ?_)
  rw [hsame, hs.waiting]
  exact runs_pure ()

theorem Holding.runs_renewAll (hs : Holding c k n v s) : Runs renewAll s () s := by
  have hsame : { s with renewals := [] } = s := by rw [← hs.renewals]
  refine runs_get.bind ((runs_modify _).bind ?_)
  rw [hsame, hs.renewals]
  exact runs_pure ()

/-- The vector is asked for a function that awakens it, and has none. -/
theorem Holding.runs_awaken (hs : Holding c k n v s) (host : Host P) :
    Runs (awaken host) s () { s with sleepers := [] } := by
  have hone : Runs (awakenOne host k) { s with sleepers := [] } () { s with sleepers := [] } := by
    refine (runs_ask _).bind ?_
    rw [show canAwake ({ s with sleepers := [] } : Loading P).realm k = false from hs.vector.canAwake]
    exact runs_pure ()
  rw [awaken_eq]
  refine runs_get.bind ((runs_modify _).bind ?_)
  rw [hs.sleepers]
  exact hone.bind (runs_pure ())

end Loading

namespace TypedVector

theorem isLive_scalarEntry (value : Value) : (scalarEntry value).isLive = false := by
  cases value <;> rfl

/-- No live object is in the snapshot of a vector. -/
theorem holdsLiveObjects_image (v : TypedVector) : v.image.holdsLiveObjects = false := by
  have hitems : Entry.anyLive (v.values.map scalarEntry) = false :=
    Saving.anyLive_eq_false fun entry hentry => by
      obtain ⟨value, -, rfl⟩ := List.mem_map.1 hentry
      exact isLive_scalarEntry value
  have hname : (v.type?.elim Entry.null fun type => .string type.name).isLive = false := by
    cases v.type? <;> rfl
  have hvalues : v.savedNode.entries.values = v.savedEntries.map Prod.snd := rfl
  have hnode : v.savedNode.entries.values.any Entry.isLive = false := by
    rw [hvalues]
    simp [savedEntries, hname, Entry.isLive, hitems]
  show (false || (#[v.savedNode].any fun node => node.entries.values.any Entry.isLive)) = false
  rw [Bool.false_or]
  simpa using hnode

end TypedVector

namespace Host

variable {r : Realm P} {c : ClassNumber} {v : TypedVector}

/-- The snapshot of a vector is loaded as a new instance with the same vector, wherever the class of
vectors is known. -/
theorem load_image (host : Host P) (hr : r.registry.KnowsVectors c) (hwf : r.heap.WellFormed)
    (hv : v.Storable) (hdepth : 2 ≤ r.options.depthLimit) (hroom : r.heap.HasRoom 2) (copying : Bool) :
    ∃ k r', Id.run ((host.load v.image copying).run.run r) = (.ok (.object k), r') ∧
      r.heap.contains k = false ∧
      r'.heap.get? k = some ⟨.instanceOf c (some (.vector v)), .empty⟩ := by
  obtain ⟨room, hlimit⟩ := Nat.exists_eq_add_of_le' hdepth
  obtain ⟨k, s, hread, hnew, hs⟩ := Loading.runs_read_image hr hwf hroom hv room
  have hload : Loading.Runs (Loading.load host v.image) ⟨r, [], .empty, 0, [], [], []⟩ (.object k)
      { s with sleepers := [] } := by
    refine (Loading.runs_ask _).bind ?_
    rw [hlimit]
    refine hread.bind (hs.runs_settleAll.bind (hs.runs_renewAll.bind ((hs.runs_awaken host).bind ?_)))
    have hroot : Loading.Runs (Loading.ask (·.expand (.object k))) { s with sleepers := [] }
        (s.realm.expand (.object k)) { s with sleepers := [] } := Loading.runs_ask _
    rwa [hs.vector.expand] at hroot
  refine ⟨k, _, host.run_load (by rw [v.holdsLiveObjects_image, Bool.and_false]) hload, hnew, ?_⟩
  rw [Realm.heap_unprotectAll]
  exact hs.vector.get?

/-- **Round trip.** A vector without an element class whose elements are no objects is saved, and what
has been saved is loaded as a new instance of its class, with the same type, the same elements and the
same locks. -/
theorem load_save_vector {r : Realm P} (hr : r.Reachable) {c : ClassNumber}
    (hvectors : r.registry.HoldsVectors c) {h : Handle} {native : Native P.Layer}
    (hget : r.heap.get? h = some ⟨.instanceOf c (some native), .empty⟩) {v : TypedVector}
    (hnative : native.vector? = some v) (hv : v.Storable) {mask? : Option (List String)}
    (hmask : mask? = none ∨ mask? = some []) {force : Bool}
    (hforce : force = true ∨ P.isTransientOf native = false) (hdepth : 2 ≤ r.options.depthLimit)
    (hroom : r.heap.HasRoom 2) :
    ∃ s, r.save (.object h) force mask? = .ok s ∧ ∀ (host : Host P) (copying : Bool), ∃ k r',
      Id.run ((host.load s copying).run.run r) = (.ok (.object k), r') ∧ r.heap.contains k = false ∧
      r'.heap.get? k = some ⟨.instanceOf c (some (.vector v)), .empty⟩ := by
  have hknows := hvectors.knows
  have hsave : r.save (.object h) force mask? = .ok v.image :=
    Realm.save_vector ⟨hknows, hget⟩ hnative hv.elementClass hv.type hmask hforce hdepth
  refine ⟨v.image, hsave, fun host copying => ?_⟩
  exact host.load_image hknows hr.sound.wellFormed hv hdepth hroom copying

end Host

/-! ## A Vector of Bytes -/

theorem Registry.holdsVectors_ofItems : ofItems.HoldsVectors ⟨2⟩ := by
  have hdeclared : declareItems.toOption.isSome = true := by cbv
  have hspares (name : String) :
      (Registration.declareClass (P := Scenario.platform) name none false).Spares ⟨2⟩ := by
    intro htarget
    cases htarget
  unfold ofItems
  cases hitems : declareItems with
  | error error =>
    rw [hitems] at hdeclared
    cases hdeclared
  | ok r =>
    obtain ⟨r₁, h₁, hitems⟩ := except_bind_eq_ok hitems
    obtain ⟨r₂, h₂, h₃⟩ := except_bind_eq_ok hitems
    exact .register (.register (holdsVectors_standard h₁) (hspares "Item") h₂) (hspares "Odd") h₃

/-- Two bytes under both locks. -/
def TypedVector.ofTwoBytes : TypedVector := ⟨.typed .byte [7, 200], true, true, none⟩

/-- A realm with such a vector. -/
def Realm.ofTwoBytes : Realm Scenario.platform :=
  after (wrapNative TypedVector.className (.vector .ofTwoBytes))
    (ofRegistry .ofItems .standard Scenario.Stage.empty)

/-- The bytes are saved as wider numbers; they come back as bytes, and the locks with them. -/
theorem Host.load_save_ofTwoBytes :
    Realm.ofTwoBytes.Reachable ∧ Realm.ofTwoBytes.registry.HoldsVectors ⟨2⟩ ∧
    Realm.ofTwoBytes.heap.get? ⟨1, 0⟩ =
      some ⟨.instanceOf ⟨2⟩ (some (.vector .ofTwoBytes)), .empty⟩ ∧
    TypedVector.ofTwoBytes.Storable ∧
    2 ≤ Realm.ofTwoBytes.options.depthLimit ∧ Realm.ofTwoBytes.heap.HasRoom 2 ∧
    ∃ s, Realm.ofTwoBytes.save (.object ⟨1, 0⟩) false none = .ok s ∧
      ∀ (host : Host Scenario.platform) (copying : Bool), ∃ k r',
        Id.run ((host.load s copying).run.run Realm.ofTwoBytes) = (.ok (.object k), r') ∧
        Realm.ofTwoBytes.heap.contains k = false ∧
        r'.heap.get? k = some ⟨.instanceOf ⟨2⟩ (some (.vector .ofTwoBytes)), .empty⟩ := by
  have hfacts : (Realm.ofTwoBytes.heap.capacity, Realm.ofTwoBytes.heap.free,
      Realm.ofTwoBytes.options.depthLimit) = (2, [], 100) := by cbv
  have hget : Realm.ofTwoBytes.heap.get? ⟨1, 0⟩ =
      some ⟨.instanceOf ⟨2⟩ (some (.vector .ofTwoBytes)), .empty⟩ := by cbv
  simp only [Prod.mk.injEq] at hfacts
  obtain ⟨hcapacity, hfree, hlimit⟩ := hfacts
  have hsteps : Realm.Steps (.ofRegistry .ofItems .standard Scenario.Stage.empty) Realm.ofTwoBytes :=
    .single (.wrapNative TypedVector.className (.vector .ofTwoBytes) _)
  have hreachable : Realm.ofTwoBytes.Reachable :=
    ⟨.ofItems, .standard, Scenario.Stage.empty, Registry.declared_ofItems, hsteps,
      by rw [hcapacity]; decide⟩
  have hregistry : Realm.ofTwoBytes.registry = .ofItems := hsteps.evolves.registry
  have hvectors : Realm.ofTwoBytes.registry.HoldsVectors ⟨2⟩ := by
    rw [hregistry]
    exact Registry.holdsVectors_ofItems
  have hdepth : 2 ≤ Realm.ofTwoBytes.options.depthLimit := by
    rw [hlimit]
    decide
  have hroom : Realm.ofTwoBytes.heap.HasRoom 2 := by
    rw [Heap.HasRoom, hcapacity, hfree]
    decide
  have hstorable : TypedVector.ofTwoBytes.Storable := by
    have htype : TypedVector.ofTwoBytes.type? = some .byte := rfl
    have hvalues : TypedVector.ofTwoBytes.values = [.byte 7, .byte 200] := rfl
    exact ⟨rfl, by simp [htype], fun y hy => by simp [hvalues] at hy⟩
  exact ⟨hreachable, hvectors, hget, hstorable, hdepth, hroom,
    Host.load_save_vector hreachable hvectors hget rfl hstorable (Or.inl rfl) (Or.inr rfl) hdepth hroom⟩

end ScriptBridge
