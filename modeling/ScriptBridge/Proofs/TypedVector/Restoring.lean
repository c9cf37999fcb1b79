import ScriptBridge.Proofs.TypedVector.Image
import ScriptBridge.Proofs.Snapshot.HalfBuilt
import ScriptBridge.Proofs.Snapshot.RoundTrip

/-!
# Restoring a Vector through its Setters

A vector that is loaded starts empty and goes through the setters of its properties, in the order of
their phases: the type comes before the elements, since they have been saved as wider numbers and have
to be narrowed again, and the locks come last, since they refuse everything else. Each setter is left
with what the entry for its property asks for.

Main statements: `restores_type`, `restores_elementClass`, `restores_data`, `restores_typeLocked` and
`restores_sizeLocked` (one step each).
-/

namespace ScriptBridge

open Snapshot (Entry)
open Loading (leafValue?)

variable {P : Platform}

/-! ## Elements that are Read Back -/

/-- Bytes are kept exactly by doubles. -/
theorem Number.byteOfDouble_doubleOfInt (n : UInt8) : byteOfDouble (doubleOfInt n.toNat) = n := by
  have hall : ∀ i : Fin 256, byteOfDouble (doubleOfInt i.val) = UInt8.ofNat i.val := by decide +kernel
  have hn := hall ⟨n.toNat, n.toNat_lt⟩
  rwa [UInt8.ofNat_toNat] at hn

namespace TypedVector

/-- The value that comes back for the value of an element. -/
def readBack (value : Value) : Value := (leafValue? (scalarEntry value)).getD .undefined

theorem leafValue?_scalarEntry {value : Value} {entry : Entry}
    (hscalar : Saving.scalar? value = some entry) :
    leafValue? (scalarEntry value) = some (readBack value) := by
  cases value with
  | null | bool | byte | int | float | double | string => rfl
  | _ => cases hscalar

theorem readBack_byte (n : UInt8) : readBack (.byte n) = .int (.ofNat n.toNat) := by
  have hbound : n.toNat < 256 := n.toNat_lt
  show Loading.intValue (.ofNat n.toNat) = _
  rw [← Int64.ofInt_eq_ofNat, ← Int32.ofInt_eq_ofNat]
  refine Loading.intValue_ofInt ?_ ?_
  · exact Int.le_trans (by decide) (Int.natCast_nonneg _)
  · rw [Int32.toInt_maxValue]
    omega

theorem readBack_int (n : Int32) : readBack (.int n) = .int n := by
  show Loading.intValue (.ofInt n.toInt) = _
  rw [Loading.intValue_ofInt n.minValue_le_toInt n.toInt_le, Int32.ofInt_toInt]

/-- An element that is not an object is read back as itself; a single as long as it is the one that is
nearest to the double that is saved for it. -/
theorem read?_readBack {type : ElementType} (h : type ≠ .object) (x : type.Carrier)
    (hfloat : ∀ y, type.write x = .float y → Number.singleOfDouble (Number.asWritten y) = y) :
    type.read? (readBack (type.write x)) = some x := by
  cases type with
  | object => exact absurd rfl h
  | bool | double | string => rfl
  | byte =>
    have hwrite : ElementType.byte.write x = .byte x := rfl
    have hnat : (Int32.ofNat (UInt8.toNat x)).toInt = (UInt8.toNat x : Int) := by
      have hbound : UInt8.toNat x < 256 := UInt8.toNat_lt x
      exact Int32.toInt_ofNat_of_lt (by omega)
    rw [hwrite, readBack_byte]
    show some (Number.byteOfDouble (Number.doubleOfInt (Int32.ofNat (UInt8.toNat x)).toInt)) = some x
    rw [hnat, Number.byteOfDouble_doubleOfInt]
  | int =>
    have hwrite : ElementType.int.write x = .int x := rfl
    rw [hwrite, readBack_int]
    rfl
  | float =>
    show some (Number.singleOfDouble (Number.asWritten x)) = some x
    rw [hfloat x rfl]

theorem readAll?_readBack {type : ElementType} (h : type ≠ .object) {items : List type.Carrier}
    (hfloats : ∀ y, Value.float y ∈ items.map type.write →
      Number.singleOfDouble (Number.asWritten y) = y) :
    type.readAll? ((items.map type.write).map readBack) = some items := by
  induction items with
  | nil => rfl
  | cons x items ih =>
    have hx := read?_readBack h x fun y hy => hfloats y (hy ▸ List.mem_cons_self)
    have hitems := ih fun y hy => hfloats y (List.mem_cons_of_mem _ hy)
    rw [List.map_cons, List.map_cons, ElementType.readAll?, hx, hitems]
    rfl

/-- The vector with a type and nothing else. -/
def blank (type? : Option ElementType) : TypedVector := type?.elim .empty ofType

/-- A vector that a snapshot keeps completely: no class is named for its elements, and these are no
objects. A single has to be the one that is nearest to the double that is saved for it. -/
structure Storable (v : TypedVector) : Prop where
  elementClass : v.elementClass = none
  type : v.type? ≠ some .object
  floats : ∀ y, Value.float y ∈ v.values → Number.singleOfDouble (Number.asWritten y) = y

theorem Storable.leafValue? {v : TypedVector} (hv : v.Storable) {value : Value}
    (hvalue : value ∈ v.values) : Loading.leafValue? (scalarEntry value) = some (readBack value) :=
  leafValue?_scalarEntry (scalar?_of_mem hv.type hvalue)

/-- The elements are back once the type is. -/
theorem Storable.assign?_blank {v : TypedVector} (hv : v.Storable) :
    (blank v.type?).assign? (v.values.map readBack) = some { empty with elements := v.elements } := by
  obtain ⟨elements, sizeLocked, typeLocked, elementClass⟩ := v
  cases elements with
  | untyped => rfl
  | typed type items =>
    have htype : type ≠ .object := fun heq => hv.type (congrArg some heq)
    have hread := readAll?_readBack htype hv.floats
    cases items with
    | nil => rfl
    | cons x items =>
      show (Elements.ofValues? type (((x :: items).map type.write).map readBack)).bind _ = _
      rw [Elements.ofValues?, hread]
      rfl

end TypedVector

/-! ## Setters -/

namespace TypedVector.Members

/-- A setter that is given a value makes one vector of another, and nothing else. -/
def Yields (accessor : Accessor P) (value : Value) (m : Surroundings P) (v w : TypedVector) : Prop :=
  ∀ world, Id.run ((accessor.write value m).run.run ⟨.vector v, world⟩) = (.ok (), ⟨.vector w, world⟩)

variable {m : Surroundings P} {value : Value} {v w : TypedVector}

theorem yields_dynamic {tag : Tag} {get : TypedVector → Value}
    {set : Value → Surroundings P → TypedVector → Except ScriptError TypedVector}
    (hset : set value m v = .ok w) : Yields (dynamic tag get set) value m v w := by
  intro world
  have hwrite : (dynamic tag get set).write value m =
      Facet.vector.writer fun v => (set value m v).map fun v => ((), v) := rfl
  have hmade : (set value m v).map (fun v => ((), v)) = .ok ((), w) := by rw [hset]; rfl
  rw [hwrite]
  show Id.run ((liftM ((set value m v).map fun v => ((), v)) >>= _ :
    NativeAction P Unit).run.run _) = _
  rw [hmade]
  rfl

theorem yields_fixed {target : Target} {get : TypedVector → Value}
    {set : Value → TypedVector → Except ScriptError TypedVector} {converted : Value}
    (hread : target.read value = .ok converted) (hset : set converted v = .ok w) :
    Yields (fixed (P := P) target get set) value m v w := by
  intro world
  have hmade : (set converted v).map (fun v => ((), v)) = .ok ((), w) := by rw [hset]; rfl
  show Id.run ((liftM (target.read value) >>= _ : NativeAction P Unit).run.run _) = _
  rw [hread]
  show Id.run ((liftM ((set converted v).map fun v => ((), v)) >>= _ :
    NativeAction P Unit).run.run _) = _
  rw [hmade]
  rfl

/-- The type is written first. -/
theorem restores_type (v : TypedVector) (m : Surroundings P) :
    Yields type (v.type?.elim .null fun type => .string type.name) m .empty (blank v.type?) := by
  refine yields_dynamic ?_
  cases v.type? with
  | none => rfl
  | some type => cases type <;> rfl

/-- No class is written over none. -/
theorem restores_elementClass (hclass : v.elementClass = none) (m : Surroundings P) :
    Yields elementClass .null m v v := by
  refine yields_dynamic ?_
  obtain ⟨elements, sizeLocked, typeLocked, elementClass⟩ := v
  obtain rfl : elementClass = none := hclass
  rfl

/-- The elements are written into an unlocked vector that has their type already. -/
theorem restores_data (hv : v.Storable) (origin : Option Handle) (m : Surroundings P) :
    Yields data (.array origin (v.values.map readBack)) m (blank v.type?)
      { empty with elements := v.elements } := by
  refine yields_dynamic ?_
  have hadmits : (blank v.type?).admits m (v.values.map readBack) = true := by
    cases htype : v.type? <;> rfl
  show (.ok (if (blank v.type?).admits m (v.values.map readBack) then
    ((blank v.type?).assign? (v.values.map readBack)).getD (blank v.type?) else blank v.type?) :
      Except ScriptError TypedVector) = _
  rw [if_pos hadmits, hv.assign?_blank, Option.getD_some]

theorem restores_typeLocked (v : TypedVector) (locked : Bool) (m : Surroundings P) :
    Yields typeLocked (.bool locked) m v (v.lockType locked) := yields_fixed rfl rfl

theorem restores_sizeLocked (v : TypedVector) (locked : Bool) (m : Surroundings P) :
    Yields sizeLocked (.bool locked) m v (v.lockSize locked) := yields_fixed rfl rfl

end TypedVector.Members

end ScriptBridge
