import ScriptBridge.Proofs.Heap.Storing
import ScriptBridge.Proofs.Realm.Copying

/-!
# Writing Elements of Arrays

An array may be lengthened by a write, but not by any amount: an index that lies too far out is
refused. The value has been stored by then. So a write that is refused leaves new arrays behind, and the
copies of arrays that the value brings along are written all the same; the index is held against the
length that the array has after that.

Main statement: `Reachable.arrayWrite_assignElement`.
-/

namespace ScriptBridge.Realm

variable {P : Platform} {r : Realm P} {a : Handle} {items : Array Value} {i : Nat} {v : Value}

/-! ## The Test of the Index -/

/-- The sum of two unsigned integers, unless it overflows. -/
def sum64? (m n : UInt64) : Option UInt64 :=
  if m.toNat + n.toNat < 2 ^ 64 then some (m + n) else none

/-- Whether an item may be written at an index, in 64 bits: the length that is needed must not overflow,
and the length that is allowed is cut off at the greatest number. -/
def admits64 (size index : UInt64) : Bool :=
  index < size || (sum64? index 1).any fun length =>
    length ≤ (sum64? size (.ofNat maxPadding)).getD (.ofNat (2 ^ 64 - 1))

theorem sum64?_eq {m n : UInt64} (h : m.toNat + n.toNat < 2 ^ 64) :
    ∃ sum, sum64? m n = some sum ∧ sum.toNat = m.toNat + n.toNat :=
  ⟨m + n, if_pos h, by rw [UInt64.toNat_add, Nat.mod_eq_of_lt h]⟩

/-- Of the sums that decide about an index none goes wrong, as no array has as many as `2 ^ 63` items. -/
theorem admits64_eq {size index : Nat} (hsize : size < 2 ^ 63) (hindex : index < 2 ^ 64) :
    admits64 (.ofNat size) (.ofNat index) = decide (index < size + maxPadding) := by
  have hm : (UInt64.ofNat size).toNat = size :=
    UInt64.toNat_ofNat_of_lt' (Nat.lt_trans hsize (by decide))
  have hn : (UInt64.ofNat index).toNat = index := UInt64.toNat_ofNat_of_lt' hindex
  have hp : (UInt64.ofNat maxPadding).toNat = maxPadding := rfl
  have hmax : maxPadding = 65536 := rfl
  obtain ⟨allowed, hallowed, hsum⟩ := @sum64?_eq (.ofNat size) (.ofNat maxPadding) (by omega)
  rw [hm, hp] at hsum
  rw [Bool.eq_iff_iff, admits64, Bool.or_eq_true, hallowed, Option.getD_some, decide_eq_true_iff,
    decide_eq_true_iff, UInt64.lt_iff_toNat_lt, hm, hn]
  by_cases hlast : index + 1 < 2 ^ 64
  · have hone : (UInt64.ofNat index).toNat + (1 : UInt64).toNat < 2 ^ 64 := by rw [hn]; exact hlast
    obtain ⟨length, hlength, heq⟩ := sum64?_eq hone
    have hnext : length.toNat = index + 1 := by rw [heq, hn]; rfl
    rw [hlength, Option.any_some, decide_eq_true_iff, UInt64.le_iff_toNat_le]
    omega
  -- the last index of all has no length that would hold it
  · have hnone : sum64? (.ofNat index) 1 = none := if_neg (by rw [hn]; exact hlast)
    simp only [hnone, Option.any_none, Bool.false_eq_true, or_false]
    omega

/-! ## Items after a Write -/

/-- An array that is too short is filled up with undefined items. -/
theorem getElem?_withItem_padded (items : Array Value) (i : Nat) (v : Value) (j : Nat) :
    (withItem items i v)[j]? = if j = i then some v
      else if j < items.size then items[j]? else if j < i then some .undefined else none := by
  unfold withItem
  split
  · next hlt =>
    rw [Array.getElem?_setIfInBounds]
    by_cases hj : j = i
    · simp [hj, hlt]
    · have hbeyond : ¬j < items.size → items[j]? = none := fun h => Array.getElem?_eq_none (by omega)
      simp only [if_neg hj, if_neg (Ne.symm hj)]
      split
      · rfl
      · next h => rw [hbeyond h, if_neg (by omega)]
  · next hge =>
    have hsize : (items ++ Array.replicate (i - items.size) Value.undefined).size = i := by
      simp
      omega
    rw [Array.getElem?_push, hsize]
    split
    · rfl
    · rw [Array.getElem?_append]
      split
      · rfl
      · next hj h =>
        rw [Array.getElem?_replicate]
        congr 1
        simp only [eq_iff_iff]
        omega

theorem size_withItem (items : Array Value) (i : Nat) (v : Value) :
    (withItem items i v).size = max items.size (i + 1) := by
  unfold withItem
  split <;> simp <;> omega

/-! ## Array Writes -/

/-- What comes of writing a value into an array: the answer, and the realm after it. -/
structure ArrayWrite (r : Realm P) (a : Handle) (items : Array Value) (i : Nat) (v : Value)
    (answer : Except ScriptError Bool) (r' : Realm P) : Prop where
  /-- The value is stored first, and the answer depends on how long the array is then. After a write
  that is refused, what has been stored stays. -/
  course : ∃ items', (r.store v).2.heap.items? a = some items' ∧
    answer = .ok (decide (i < items'.size + maxPadding)) ∧
    r' = if i < items'.size + maxPadding then
        (r.store v).2.modifyObject a (·.mapItems (withItem · i (r.store v).1))
      else (r.store v).2
  /-- In 64 bits the answer is the same for any index. -/
  checked : ∀ items', (r.store v).2.heap.items? a = some items' → items'.size < 2 ^ 63 → i < 2 ^ 64 →
    answer = .ok (admits64 (.ofNat items'.size) (.ofNat i))
  /-- The answer depends on the length from before if there is no copy of the array in the value. -/
  length : v.lastCopy? a = none → answer = .ok (decide (i < items.size + maxPadding))
  /-- Of the other arrays only those can change of which there is a copy in the value. -/
  others : ∀ k held, k ≠ a → r.heap.items? k = some held → v.lastCopy? k = none →
    r'.heap.items? k = some held
  /-- What is no array is refused without a trace. -/
  unchanged : v.isInline = false → items.size + maxPadding ≤ i → answer = .ok false ∧ r' = r
  /-- When a value without origins is refused, its new arrays stay, and everything that was there is
  left alone. -/
  refused : v.Detached → items.size + maxPadding ≤ i →
    answer = .ok false ∧ r'.heap.live = r.heap.live + v.arrayCount ∧
    ∀ k object, r.heap.get? k = some object → r'.heap.get? k = some object
  /-- When it is accepted, it stands at the index, the array has been filled up with undefined items,
  and everything else that was there is left alone. -/
  accepted : v.Detached → i < items.size + maxPadding →
    answer = .ok true ∧
    (∃ items', r'.heap.items? a = some items' ∧ items'.size = max items.size (i + 1) ∧
      ∀ j, items'[j]? = if j = i then some (r.store v).1
        else if j < items.size then items[j]? else if j < i then some .undefined else none) ∧
    (∀ name, r'.field? a name = r.field? a name) ∧
    ∀ k object, k ≠ a → r.heap.get? k = some object → r'.heap.get? k = some object

/-- An array is written when the value has been stored, if the index is admitted then. -/
theorem run_assignElement_of_items? {items' : Array Value} (ha : r.heap.items? a = some items)
    (ha' : (r.store v).2.heap.items? a = some items') (i : Nat) :
    Id.run ((assignElement a i v).run.run r) =
      (.ok (decide (i < items'.size + maxPadding)),
        if i < items'.size + maxPadding then
          (r.store v).2.modifyObject a (·.mapItems (withItem · i (r.store v).1))
        else (r.store v).2) := by
  obtain ⟨fields, hget⟩ := Heap.get?_of_items? ha
  obtain ⟨fields', hget'⟩ := Heap.get?_of_items? ha'
  have helements : r.elements? ⟨.array items, fields⟩ = none := rfl
  have hitems' : (⟨.array items', fields'⟩ : ScriptObject P).items? = some items' := rfl
  unfold assignElement
  rw [run_get]
  simp only [hget, helements]
  rw [run_modifyGet, run_get]
  simp only [hget', hitems', Option.map_some]
  by_cases hi : i < items'.size + maxPadding
  · rw [if_neg (by omega), if_pos hi, decide_eq_true hi]
    rfl
  · rw [if_pos (by omega), if_neg hi, decide_eq_false hi]
    rfl

/-- Without a copy of it in the value the array is as long as it was. -/
theorem run_assignElement_of_lastCopy?_eq_none (hwf : r.heap.WellFormed)
    (ha : r.heap.items? a = some items) (hcopy : v.lastCopy? a = none) (i : Nat) :
    Id.run ((assignElement a i v).run.run r) =
      (.ok (decide (i < items.size + maxPadding)),
        if i < items.size + maxPadding then
          (r.store v).2.modifyObject a (·.mapItems (withItem · i (r.store v).1))
        else (r.store v).2) :=
  run_assignElement_of_items? ha (Heap.items?_store hwf ha (by simp [hcopy])) i

/-- What is written into an array is seen there alone. -/
theorem get?_modifyObject_withItem {r' : Realm P} {fields : Table Value} (k : Handle)
    (hget : r'.heap.get? a = some ⟨.array items, fields⟩) (i : Nat) (slot : Value) :
    (r'.modifyObject a (·.mapItems (withItem · i slot))).heap.get? k =
      if k = a then some ⟨.array (withItem items i slot), fields⟩ else r'.heap.get? k := by
  show (Heap.modify _ _ _).get? k = _
  rw [Heap.get?_modify]
  split
  · exact congrArg _ hget
  · rfl

/-- **Writing an element of an array.** Each write is answered, for any index and any value, and what it
does depends on whether the index is admitted and on the arrays in the value. -/
theorem Reachable.arrayWrite_assignElement (hr : r.Reachable) (ha : r.heap.items? a = some items)
    (i : Nat) (v : Value) :
    r.ArrayWrite a items i v (answer (assignElement a i v) r) (after (assignElement a i v) r) := by
  have hwf := hr.sound.wellFormed
  -- the array is there when the value has been stored, but it may hold something else
  obtain ⟨items', hitems'⟩ : ∃ items', (r.store v).2.heap.items? a = some items' :=
    Option.isSome_iff_exists.1
      ((hwf.lasting.changes (r.heap.changes_store v)).arrays a (by rw [ha, Option.isSome_some]))
  have hrun := run_assignElement_of_items? ha hitems' i
  have hsame := fun hcopy => run_assignElement_of_lastCopy?_eq_none (v := v) hwf ha hcopy i
  -- a value without origins has no copy of any array in it
  have hnone : v.Detached → v.lastCopy? a = none := fun hv => by rw [Value.lastCopy?, hv]; rfl
  constructor
  case course => exact ⟨items', hitems', congrArg Prod.fst hrun, congrArg Prod.snd hrun⟩
  case checked =>
    intro found hfound hsize hindex
    obtain rfl := Option.some.inj (hitems'.symm.trans hfound)
    rw [answer, hrun, admits64_eq hsize hindex]
  case length =>
    intro hcopy
    rw [answer, hsame hcopy]
  case others =>
    intro k held hka hk hcopy
    have hstored : (r.store v).2.heap.items? k = some held :=
      Heap.items?_store hwf hk (by simp [hcopy])
    rw [after, hrun]
    split
    · exact (Heap.items?_modify_mapItems _ a k _).trans ((if_neg hka).trans hstored)
    · exact hstored
  case unchanged =>
    intro hv hi
    rw [answer, after, hsame (hnone (Value.detached_of_isInline hv)), if_neg (by omega),
      decide_eq_false (by omega), store_of_isInline r hv]
    exact ⟨rfl, rfl⟩
  case refused =>
    intro hv hi
    rw [answer, after, hsame (hnone hv), if_neg (by omega), decide_eq_false (by omega)]
    exact ⟨rfl, r.heap.live_store hv,
      fun k object hk => Heap.get?_store_of_detached hwf.spare hv hk⟩
  case accepted =>
    intro hv hi
    obtain ⟨fields, hget⟩ := Heap.get?_of_items? ha
    have hstored : (r.store v).2.heap.get? a = some ⟨.array items, fields⟩ :=
      Heap.get?_store_of_detached hwf.spare hv hget
    have hwritten := get?_modifyObject_withItem a hstored i (r.store v).1
    rw [if_pos rfl] at hwritten
    rw [answer, after, hsame (hnone hv), if_pos hi, decide_eq_true hi]
    refine ⟨rfl, ⟨withItem items i (r.store v).1, ?_, size_withItem _ _ _,
      getElem?_withItem_padded _ _ _⟩, fun name => ?_, fun k object hka hk => ?_⟩
    · simp [Heap.items?, hwritten, ScriptObject.items?]
    · simp [field?, hwritten, hget]
    · rw [get?_modifyObject_withItem k hstored, if_neg hka]
      exact Heap.get?_store_of_detached hwf.spare hv hk

/-- A new array is written far behind the end of an array, which is filled up. -/
theorem arrayWrite_ofArrays :
    ofArrays.Reachable ∧ ofArrays.heap.items? ⟨1, 0⟩ = some #[.int 7] ∧
    ofArrays.ArrayWrite ⟨1, 0⟩ #[.int 7] 3 (.array none [.object ⟨3, 0⟩])
      (answer (assignElement ⟨1, 0⟩ 3 (.array none [.object ⟨3, 0⟩])) ofArrays)
      (after (assignElement ⟨1, 0⟩ 3 (.array none [.object ⟨3, 0⟩])) ofArrays) := by
  have hitems : ofArrays.heap.items? ⟨1, 0⟩ = some #[.int 7] := by cbv
  exact ⟨reachable_ofArrays, hitems, reachable_ofArrays.arrayWrite_assignElement hitems 3 _⟩

/-- A write that is refused empties another array of which the value has a copy, or leaves a new array
behind. -/
theorem refused_writes_ofArrays :
    ofArrays.Reachable ∧ ofArrays.heap.items? ⟨1, 0⟩ = some #[.int 7] ∧ 1 + maxPadding ≤ 70000 ∧
    answer (assignElement ⟨1, 0⟩ 70000 (.array (some ⟨2, 0⟩) [])) ofArrays = .ok false ∧
    ofArrays.heap.items? ⟨2, 0⟩ = some #[.object ⟨1, 0⟩, .object ⟨1, 0⟩] ∧
    (after (assignElement ⟨1, 0⟩ 70000 (.array (some ⟨2, 0⟩) [])) ofArrays).heap.items? ⟨2, 0⟩ =
      some #[] ∧
    answer (assignElement ⟨1, 0⟩ 70000 (.array none [])) ofArrays = .ok false ∧
    ofArrays.heap.live = 5 ∧
    (after (assignElement ⟨1, 0⟩ 70000 (.array none [])) ofArrays).heap.live = 6 := by
  have hitems : ofArrays.heap.items? ⟨1, 0⟩ = some #[.int 7] := by cbv
  exact ⟨reachable_ofArrays, hitems, by decide, by cbv, by cbv, by cbv, by cbv, by cbv, by cbv⟩

end ScriptBridge.Realm
