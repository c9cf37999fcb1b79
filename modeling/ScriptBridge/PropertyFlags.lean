/-!
# Property Flags

Each property of a class carries a set of flags, written as names joined by `|`. Names are read
without regard to case and may be surrounded by blanks.
-/

namespace ScriptBridge

/-- A set of property flags, one bit for each. -/
structure PropertyFlags where
  /-- The bits of the flags in the set. -/
  bits : UInt8
deriving DecidableEq, Repr

namespace PropertyFlags

/-- The empty set. -/
def none : PropertyFlags := ⟨0x00⟩

/-- Listed among the names of an instance. -/
def enumerable : PropertyFlags := ⟨0x01⟩

/-- Written to snapshots. -/
def serialized : PropertyFlags := ⟨0x02⟩

/-- Refuses writes. -/
def readonly : PropertyFlags := ⟨0x04⟩

/-- Computed, never backed by a field. -/
def nostore : PropertyFlags := ⟨0x08⟩

/-- Restored before the other properties. -/
def early : PropertyFlags := ⟨0x10⟩

/-- Restored after the other properties. -/
def late : PropertyFlags := ⟨0x20⟩

/-- Whether every flag of `other` is in the set. -/
def contains (flags other : PropertyFlags) : Bool := flags.bits &&& other.bits == other.bits

/-- The flags of both sets. -/
def union (a b : PropertyFlags) : PropertyFlags := ⟨a.bits ||| b.bits⟩

/-- The flags of `a` that are not in `b`. -/
def difference (a b : PropertyFlags) : PropertyFlags := ⟨a.bits &&& ~~~b.bits⟩

/-- Whether a bit is set. -/
def bit (flags : PropertyFlags) (i : Nat) : Bool := flags.bits.toBitVec.getLsbD i

theorem bit_union (a b : PropertyFlags) (i : Nat) : (a.union b).bit i = (a.bit i || b.bit i) := by
  simp [bit, union]

theorem contains_iff_bit (flags other : PropertyFlags) :
    flags.contains other = true ↔ ∀ i, other.bit i = true → flags.bit i = true := by
  rw [contains, beq_iff_eq, ← UInt8.toBitVec_inj, UInt8.toBitVec_and]
  constructor
  · intro h i hi
    have hbit := congrArg (BitVec.getLsbD · i) h
    simp only [BitVec.getLsbD_and, bit] at hbit hi ⊢
    rw [hi, Bool.and_true] at hbit
    exact hbit
  · intro h
    refine BitVec.eq_of_getLsbD_eq fun i _ => ?_
    have hbit := h i
    simp only [bit] at hbit
    rw [BitVec.getLsbD_and]
    cases hi : other.bits.toBitVec.getLsbD i with
    | false => rw [Bool.and_false]
    | true => rw [hbit hi, Bool.and_true]

theorem contains_union (flags a b : PropertyFlags) :
    flags.contains (a.union b) = true ↔ flags.contains a = true ∧ flags.contains b = true := by
  simp only [contains_iff_bit, bit_union, Bool.or_eq_true]
  grind

theorem union_contains_right (a b : PropertyFlags) : (a.union b).contains b = true := by
  rw [contains_iff_bit]
  intro i hi
  rw [bit_union, hi, Bool.or_true]

/-- Flags that have been added do not matter for others. -/
theorem union_contains_of_disjoint (flags : PropertyFlags) {a b : PropertyFlags}
    (h : a.bits &&& b.bits = 0) : (flags.union b).contains a = flags.contains a := by
  have hbits : ∀ i, a.bit i = true → b.bit i = false := by
    intro i hi
    have hzero := congrArg (fun bits : UInt8 => bits.toBitVec.getLsbD i) h
    simp only [UInt8.toBitVec_and, BitVec.getLsbD_and, bit] at hzero hi ⊢
    rw [hi, Bool.true_and] at hzero
    rw [hzero]
    exact BitVec.getLsbD_zero
  rw [Bool.eq_iff_iff, contains_iff_bit, contains_iff_bit]
  simp only [bit_union]
  grind

/-- The flags of a property that is given none. -/
def standard : PropertyFlags := enumerable.union serialized

/-- The flags with their names, in the order in which they are listed. -/
def names : List (PropertyFlags × String) :=
  [(enumerable, "ENUMERABLE"), (serialized, "SERIALIZED"), (readonly, "READONLY"),
    (nostore, "NOSTORE"), (early, "EARLY"), (late, "LATE")]

/-- The names of the flags in a set, joined by `|`. -/
def text (flags : PropertyFlags) : String :=
  match (names.filter (fun named => flags.contains named.1)).map Prod.snd with
  | [] => "NONE"
  | found => "|".intercalate found

/-! ## Reading flags -/

/-- The upper case of a character as far as it consists of Latin letters: besides the small letters
these are the long s, the dotless i, the sharp s and the ligatures. Every other character stands
for itself, and occurs in no flag name. -/
def upperCase (c : Char) : List Char :=
  if c = 'ſ' then ['S']
  else if c = 'ı' then ['I']
  else if c = 'ß' then ['S', 'S']
  else if c = 'ﬀ' then ['F', 'F']
  else if c = 'ﬁ' then ['F', 'I']
  else if c = 'ﬂ' then ['F', 'L']
  else if c = 'ﬃ' then ['F', 'F', 'I']
  else if c = 'ﬄ' then ['F', 'F', 'L']
  else if c = 'ﬅ' then ['S', 'T']
  else if c = 'ﬆ' then ['S', 'T']
  else [c.toUpper]

/-- The characters that may surround a flag name: the blanks of Unicode. -/
def isBlank (c : Char) : Bool :=
  let n := c.toNat
  (0x09 ≤ n && n ≤ 0x0d) || n == 0x20 || n == 0x85 || n == 0xa0 || n == 0x1680 ||
    (0x2000 ≤ n && n ≤ 0x200a) || n == 0x2028 || n == 0x2029 || n == 0x202f || n == 0x205f ||
    n == 0x3000

/-- The text without the blanks around it. -/
def trim (cs : List Char) : List Char :=
  ((cs.dropWhile isBlank).reverse.dropWhile isBlank).reverse

/-- Splits a text at every `|`. -/
def splitAtBars : List Char → List (List Char)
  | [] => [[]]
  | c :: cs =>
    if c = '|' then [] :: splitAtBars cs
    else match splitAtBars cs with
      -- the rest of a text always has a first part, be it empty
      | [] => [[c]]
      | part :: parts => (c :: part) :: parts

/-- The flag with a given name. -/
def ofNameChars? (cs : List Char) : Option PropertyFlags :=
  let upper := String.ofList (cs.flatMap upperCase)
  if upper = "NONE" then some none
  else (names.find? (fun named => named.2 == upper)).map Prod.fst

/-- The flag with a given name. -/
def ofName? (name : String) : Option PropertyFlags := ofNameChars? name.toList

/-- The set of flags whose names are joined by `|` in the text. -/
def ofText? (text : String) : Option PropertyFlags :=
  (splitAtBars text.toList).foldlM
    (fun flags part => (ofNameChars? (trim part)).map flags.union) none

end PropertyFlags

end ScriptBridge
