import ScriptBridge.Proofs.TypedVector.Locks
import Mathlib

/-!
# Slices and Splices in Machine Integers

Indices are signed 64-bit integers and sizes are unsigned ones, and to resolve an index the one is
converted to the other and back. Here the two operations with indices are carried out in these
integers, such that they break off wherever a conversion, a sum or a difference is not exact and
wherever a range does not lie within the elements. They never do, and take and leave the elements that
the same positions take and leave in a list.

Main statements: `TypedVector.position64?_eq` and `TypedVector.slice_and_splice_exact`.
-/

namespace ScriptBridge

/-! ## Machine Integers -/

/-- A signed integer, unless it is out of range. -/
def signed64? (n : Int) : Option Int64 :=
  if -2 ^ 63 ≤ n ∧ n < 2 ^ 63 then some (Int64.ofInt n) else none

/-- An unsigned integer, unless it is out of range. -/
def unsigned64? (n : Int) : Option UInt64 :=
  if 0 ≤ n ∧ n < 2 ^ 64 then some (UInt64.ofNat n.toNat) else none

theorem signed64?_eq {n : Int} (hlow : -2 ^ 63 ≤ n) (hhigh : n < 2 ^ 63) :
    ∃ m, signed64? n = some m ∧ m.toInt = n :=
  ⟨Int64.ofInt n, if_pos ⟨hlow, hhigh⟩, Int64.toInt_ofInt_of_le hlow hhigh⟩

theorem unsigned64?_natCast {n : Nat} (h : n < 2 ^ 64) : unsigned64? n = some (UInt64.ofNat n) := by
  rw [unsigned64?, if_pos (by omega), Int.toNat_natCast]

theorem toNat_ofNat64 {n : Nat} (h : n < 2 ^ 64) : (UInt64.ofNat n).toNat = n :=
  UInt64.toNat_ofNat_of_lt' h

/-- The smaller of two unsigned integers. -/
def least64 (m n : UInt64) : UInt64 := if m.toNat ≤ n.toNat then m else n

/-- The larger of two unsigned integers. -/
def greatest64 (m n : UInt64) : UInt64 := if m.toNat ≤ n.toNat then n else m

@[simp] theorem toNat_least64 (m n : UInt64) : (least64 m n).toNat = min m.toNat n.toNat := by
  unfold least64
  split <;> omega

@[simp] theorem toNat_greatest64 (m n : UInt64) : (greatest64 m n).toNat = max m.toNat n.toNat := by
  unfold greatest64
  split <;> omega

/-- A clamp from zero up to a bound, which must not lie below. -/
def clamp64? (n bound : Int64) : Option UInt64 :=
  if bound.toInt < 0 then none else unsigned64? (max 0 (min n.toInt bound.toInt))

/-- The elements of a range that lies within a list. -/
def range64? {α : Type} (items : List α) (first last : UInt64) : Option (List α) :=
  if first.toNat ≤ last.toNat ∧ last.toNat ≤ items.length then
    some ((items.take last.toNat).drop first.toNat)
  else none

theorem range64?_eq {α : Type} {items : List α} {first last : UInt64} (hle : first.toNat ≤ last.toNat)
    (hlast : last.toNat ≤ items.length) :
    range64? items first last = some ((items.take last.toNat).drop first.toNat) :=
  if_pos ⟨hle, hlast⟩

namespace TypedVector

/-! ## Resolution of Indices -/

/-- An index counted from the start: a negative one counts from the end. -/
def resolve64? (index size : Int64) : Option Int64 :=
  if index.toInt < 0 then signed64? (size.toInt + index.toInt) else some index

/-- The position that an index stands for. -/
def position64? (index : Int64) (size : UInt64) : Option UInt64 := do
  let size ← signed64? size.toNat
  let resolved ← resolve64? index size
  clamp64? resolved size

theorem resolve64?_eq (index : Int64) {size : Int64} (h : 0 ≤ size.toInt) :
    ∃ resolved, resolve64? index size = some resolved ∧
      resolved.toInt = if index.toInt < 0 then size.toInt + index.toInt else index.toInt := by
  unfold resolve64?
  split
  · have hlow := Int64.le_toInt index
    have hhigh := Int64.toInt_lt size
    exact signed64?_eq (by omega) (by omega)
  · exact ⟨index, rfl, rfl⟩

/-- No step of the resolution overflows. -/
theorem position64?_eq {size : Nat} (h : size < 2 ^ 63) (index : Int64) :
    position64? index (UInt64.ofNat size) = some (UInt64.ofNat (position index.toInt size)) := by
  obtain ⟨bound, hbound, heq⟩ := signed64?_eq (n := size) (by omega) (by omega)
  obtain ⟨resolved, hresolve, hresolved⟩ := @resolve64?_eq index bound (by omega)
  rw [heq] at hresolved
  have hclamped : max 0 (min resolved.toInt size) = (position index.toInt size : Int) := by
    rw [hresolved, position]
    omega
  have hle := position_le index.toInt size
  rw [position64?, toNat_ofNat64 (by omega), hbound, Option.bind_eq_bind, Option.bind_some, hresolve,
    Option.bind_some, clamp64?, heq, if_neg (by omega), hclamped,
    unsigned64?_natCast (by omega)]

/-- The position where a slice ends, which is the end of the vector unless there is an index. -/
def stop64? : Option Int64 → UInt64 → Option UInt64
  | none, size => some size
  | some index, size => position64? index size

theorem stop64?_eq {size : Nat} (h : size < 2 ^ 63) (stop : Option Int64) :
    ∃ last ≤ size, (stop.map Int64.toInt).elim size (position · size) = last ∧
      stop64? stop (UInt64.ofNat size) = some (UInt64.ofNat last) := by
  cases stop with
  | none => exact ⟨size, Nat.le_refl size, rfl, rfl⟩
  | some index => exact ⟨position index.toInt size, position_le _ _, rfl, position64?_eq h index⟩

/-! ## The Operations -/

/-- A copy of the elements between two positions. -/
def slice64? (v : TypedVector) (start : Int64) (stop : Option Int64) : Option TypedVector := do
  let size ← unsigned64? v.size
  let first ← position64? start size
  let stop ← stop64? stop size
  let last := greatest64 first stop
  match v.elements with
  | .untyped => return { v with sizeLocked := false }
  | .typed type items => do
    let items ← range64? items first last
    return { v with elements := .typed type items, sizeLocked := false }

/-- Removes elements and puts others in their place. It is refused for a vector of locked size that
would grow or shrink, and when a value does not convert; this is no failure. -/
def splice64? (v : TypedVector) (start : Int64) (count : Option UInt64) (insert : List Value) :
    Option (Option (List Value) × TypedVector) := do
  let size ← unsigned64? v.size
  let first ← position64? start size
  let rest ← unsigned64? (size.toNat - first.toNat : Int)
  let count := least64 (count.getD rest) rest
  if v.sizeLocked && count.toNat != insert.length then return (none, v)
  else do
    let last ← unsigned64? (first.toNat + count.toNat : Int)
    -- the range that is cut out of the values lies within them
    let _ ← range64? v.values first last
    return (Edit.cut first.toNat count.toNat insert).on v

variable {v : TypedVector}

theorem slice64?_eq (h : v.size < 2 ^ 63) (start : Int64) (stop : Option Int64) :
    v.slice64? start stop = some (v.slice start.toInt (stop.map Int64.toInt)) := by
  obtain ⟨last, hle, hlast, hlast64⟩ := stop64?_eq h stop
  have hfirst := position_le start.toInt v.size
  unfold slice64? slice
  rw [unsigned64?_natCast (by omega), Option.bind_eq_bind, Option.bind_some, position64?_eq h,
    Option.bind_some, hlast64, Option.bind_some, hlast]
  generalize position start.toInt v.size = first at hfirst
  have hfirst64 : (UInt64.ofNat first).toNat = first := toNat_ofNat64 (by omega)
  have hmax : (greatest64 (UInt64.ofNat first) (UInt64.ofNat last)).toNat = max first last := by
    rw [toNat_greatest64, hfirst64, toNat_ofNat64 (by omega)]
  obtain ⟨elements, sizeLocked, typeLocked, elementClass⟩ := v
  cases elements with
  | untyped => rfl
  | typed type items =>
    have hinside : max first last ≤ items.length := Nat.max_le.2 ⟨hfirst, hle⟩
    dsimp only
    rw [range64?_eq (by omega) (by omega), hmax, hfirst64]
    rfl

theorem splice64?_eq (h : v.size < 2 ^ 63) (start : Int64) (count : Option UInt64) (insert : List Value) :
    v.splice64? start count insert =
      some (Edit.settled v (v.splice? start.toInt (count.map UInt64.toNat) insert)) := by
  have hfirst := position_le start.toInt v.size
  rw [← Edit.on_splice, Edit.splice, Edit.on_get_bind]
  dsimp only
  rw [Edit.on_refuseIf_bind]
  unfold splice64?
  rw [unsigned64?_natCast (by omega), Option.bind_eq_bind, Option.bind_some, position64?_eq h,
    Option.bind_some]
  generalize position start.toInt v.size = first at hfirst
  have hsize64 : (UInt64.ofNat v.size).toNat = v.size := toNat_ofNat64 (by omega)
  have hfirst64 : (UInt64.ofNat first).toNat = first := toNat_ofNat64 (by omega)
  have hrest64 : (UInt64.ofNat (v.size - first)).toNat = v.size - first := toNat_ofNat64 (by omega)
  have hrest : ((UInt64.ofNat v.size).toNat - (UInt64.ofNat first).toNat : Int) = (v.size - first : Nat) := by
    omega
  rw [hrest, unsigned64?_natCast (by omega), Option.bind_some]
  have hcount : (least64 (count.getD (UInt64.ofNat (v.size - first))) (UInt64.ofNat (v.size - first))).toNat =
      min ((count.map UInt64.toNat).getD (v.size - first)) (v.size - first) := by
    rw [toNat_least64, hrest64]
    cases count <;> simp [hrest64]
  dsimp only
  generalize least64 (count.getD (UInt64.ofNat (v.size - first))) (UInt64.ofNat (v.size - first)) = n at hcount
  rw [← hcount]
  have hinside : first + n.toNat ≤ v.size := by omega
  split
  · rfl
  · have hlast64 : (UInt64.ofNat (first + n.toNat)).toNat = first + n.toNat := toNat_ofNat64 (by omega)
    have hlength : v.values.length = v.size := Elements.length_values v.elements
    rw [hfirst64, ← Int.natCast_add, unsigned64?_natCast (by omega), Option.bind_some,
      range64?_eq (by omega) (by omega)]
    rfl

/-! ## Agreement with Lists -/

/-- A slice as a part of the list of values. -/
theorem values_slice (v : TypedVector) (start : Int) (stop : Option Int) :
    (v.slice start stop).values =
      (v.values.take (max (position start v.size) (stop.elim v.size (position · v.size)))).drop
        (position start v.size) := by
  obtain ⟨elements, sizeLocked, typeLocked, elementClass⟩ := v
  cases elements with
  | untyped => simp [slice, values, Elements.values]
  | typed type items => simp [slice, values, Elements.values]

theorem type?_slice (v : TypedVector) (start : Int) (stop : Option Int) :
    (v.slice start stop).type? = v.type? := by
  obtain ⟨elements, sizeLocked, typeLocked, elementClass⟩ := v
  cases elements <;> rfl

/-- The type that values are inserted as: the declared one, or that of the first value. -/
def insertedAs? (v : TypedVector) (insert : List Value) : Option ElementType :=
  v.type?.or (insert.head?.bind fun value => ElementType.ofTag? value.tag)

/-- Nothing is cut out of a vector without a type. -/
theorem splice?_nil (huntyped : v.type? = none) (hfree : v.sizeLocked = false) (start : Int)
    (count : Option Nat) : v.splice? start count [] = some ([], v) := by
  obtain ⟨elements, sizeLocked, typeLocked, elementClass⟩ := v
  cases elements with
  | typed type items => cases huntyped
  | untyped =>
    obtain rfl : sizeLocked = false := hfree
    rfl

/-- A splice as a replacement in the list of values. -/
theorem splice?_of_readAll? {type : ElementType} {insert : List Value} {added : List type.Carrier}
    (hfree : v.sizeLocked = false) (htype : v.insertedAs? insert = some type)
    (hread : type.readAll? insert = some added) (start : Int) (count : Option Nat) :
    let first := position start v.size
    let count' := min (count.getD (v.size - first)) (v.size - first)
    ∃ e, v.splice? start count insert =
        some ((v.values.drop first).take count', { v with elements := e }) ∧ e.type? = some type ∧
      e.values = v.values.take first ++ added.map type.write ++ v.values.drop (first + count') := by
  obtain ⟨elements, sizeLocked, typeLocked, elementClass⟩ := v
  obtain rfl : sizeLocked = false := hfree
  cases elements with
  | untyped =>
    cases insert with
    | nil => cases htype
    | cons value rest =>
      have htag : ElementType.ofTag? value.tag = some type := htype
      refine ⟨.typed type added, ?_, rfl, ?_⟩
      · simp [splice?, htag, Elements.ofValues?, hread, values, Elements.values]
      · simp [values, Elements.values]
  | typed declared items =>
    obtain rfl : declared = type := Option.some.inj htype
    intro first count'
    refine ⟨.typed declared (items.take first ++ added ++ items.drop (first + count')), ?_, rfl, ?_⟩
    · have hremoved : ((items.drop first).take count').map declared.write =
          ((items.map declared.write).drop first).take count' := by
        rw [List.map_take, List.map_drop]
      unfold splice?
      dsimp only
      rw [if_neg (by simp), hread]
      exact congrArg (fun removed => some (removed, _)) hremoved
    · simp [values, Elements.values]

/-- **Slices and splices take what the positions say, for all indices.** In 64-bit integers no step
overflows and no range lies outside; a slice is the part between the positions, of the same type; and a
splice, whose values convert, reports the part that it cuts out and puts the converted values in its
place. -/
theorem slice_and_splice_exact {v : TypedVector} (h : v.size < 2 ^ 63) (start : Int64) :
    let first := position start.toInt v.size
    (∀ stop : Option Int64,
      let last := (stop.map Int64.toInt).elim v.size (position · v.size)
      ∃ w, v.slice64? start stop = some w ∧ w = v.slice start.toInt (stop.map Int64.toInt) ∧
        w.type? = v.type? ∧ w.values = (v.values.take (max first last)).drop first) ∧
    ∀ (count : Option UInt64) (insert : List Value),
      let count' := min ((count.map UInt64.toNat).getD (v.size - first)) (v.size - first)
      v.splice64? start count insert =
        some (Edit.settled v (v.splice? start.toInt (count.map UInt64.toNat) insert)) ∧
      (v.sizeLocked = false → v.type? = none → insert = [] →
        v.splice64? start count insert = some (some [], v)) ∧
      ∀ (type : ElementType) (added : List type.Carrier), v.sizeLocked = false →
        v.insertedAs? insert = some type → type.readAll? insert = some added →
        ∃ e, v.splice64? start count insert =
            some (some ((v.values.drop first).take count'), { v with elements := e }) ∧
          e.type? = some type ∧
          e.values = v.values.take first ++ added.map type.write ++ v.values.drop (first + count') := by
  intro first
  refine ⟨fun stop => ?_, fun count insert => ⟨splice64?_eq h start count insert, ?_, ?_⟩⟩
  · exact ⟨_, slice64?_eq h start stop, rfl, type?_slice v _ _, values_slice v _ _⟩
  · rintro hfree huntyped rfl
    rw [splice64?_eq h, splice?_nil huntyped hfree, Edit.settled_some]
  · intro type added hfree htype hread
    obtain ⟨e, hsplice, he⟩ := splice?_of_readAll? hfree htype hread start.toInt (count.map UInt64.toNat)
    refine ⟨e, ?_, he⟩
    rw [splice64?_eq h, hsplice, Edit.settled_some]

/-- From the least index to the largest one, and as many elements as can be counted. -/
theorem slice_and_splice_exact_widest :
    let v : TypedVector := ⟨.typed .int [10, 20, 30], false, false, none⟩
    (∃ w, v.slice64? Int64.minValue (some Int64.maxValue) = some w ∧
      w.values = [.int 10, .int 20, .int 30]) ∧
    ∃ e, v.splice64? Int64.minValue (some 18446744073709551615) [.bool true] =
        some (some [.int 10, .int 20, .int 30], { v with elements := e }) ∧ e.values = [.int 1] := by
  intro v
  have hexact := slice_and_splice_exact (v := v) (by decide) Int64.minValue
  obtain ⟨w, hslice, -, -, hvalues⟩ := hexact.1 (some Int64.maxValue)
  obtain ⟨e, hsplice, -, he⟩ :=
    (hexact.2 (some 18446744073709551615) [.bool true]).2.2 .int [1] rfl rfl rfl
  exact ⟨⟨w, hslice, hvalues⟩, e, hsplice, he⟩

end TypedVector

end ScriptBridge
