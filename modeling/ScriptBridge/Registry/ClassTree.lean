import ScriptBridge.Heap.Object

/-!
# The Tree of Classes

Classes have distinct names and are numbered in the order of their registration. A class may
extend one that was registered before it, so the way from a class to its ancestors goes down in
numbers and ends.
-/

namespace ScriptBridge

/-- What is known of a class beside its members. -/
structure ClassOutline where
  /-- The name. -/
  name : String
  /-- The class that it extends. -/
  parent : Option ClassNumber
  /-- The class has one instance, which scripts cannot make. -/
  singleton : Bool
  /-- The class is one of those that every registry starts with. -/
  builtin : Bool
deriving DecidableEq, Repr

/-- The names and parents of classes, by number. -/
structure ClassTree where
  /-- The classes. -/
  outlines : Array ClassOutline

namespace ClassTree

/-- What is known of the class with a given number. -/
def get? (tree : ClassTree) (c : ClassNumber) : Option ClassOutline := tree.outlines[c.index]?

/-- The class with a given name. -/
def lookup? (tree : ClassTree) (name : String) : Option ClassNumber :=
  (tree.outlines.findIdx? (fun outline => outline.name == name)).map ClassNumber.mk

/-- A class number and those of its ancestors, nearest first. -/
def ancestry (tree : ClassTree) (index : Nat) : List ClassNumber :=
  match tree.outlines[index]? with
  | none => []
  | some outline =>
    ⟨index⟩ :: match outline.parent with
      | none => []
      -- a class can only extend one with a smaller number
      | some parent => if parent.index < index then ancestry tree parent.index else []
termination_by index

/-- A class and its ancestors, nearest first; nothing for a number without a class. -/
def hierarchy (tree : ClassTree) (c : ClassNumber) : List ClassNumber := tree.ancestry c.index

/-- Whether a class is `ancestor` or derives from it. -/
def derivesFrom (tree : ClassTree) (c ancestor : ClassNumber) : Bool :=
  (tree.hierarchy c).contains ancestor

/-- The number of classes. -/
def size (tree : ClassTree) : Nat := tree.outlines.size

end ClassTree

end ScriptBridge
