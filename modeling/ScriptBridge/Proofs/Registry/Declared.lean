import ScriptBridge.Registry.Basic
import Mathlib.Data.List.Nodup

/-!
# Declared Registries

A registry is filled by registrations, starting with the built-in classes. What a registration can
do is said once, by `register_cases`; what holds of every registry that has been filled in this way
follows from it.

Main statements: `Declared.sound` and `Sound.nodup_visibleProperties` (the visible properties of
a class have distinct names).
-/

namespace ScriptBridge.Registry

variable {P : Platform}

/-- A registration. -/
inductive Registration (P : Platform) where
  /-- Registers a class. -/
  | declareClass (name : String) (parent : Option String) (singleton : Bool)
  /-- Sets the native state of fresh instances. -/
  | setFresh (c : ClassNumber) (native : P.World → Native P.Layer)
  /-- Binds a property. -/
  | bindProperty (c : ClassNumber) (name : String) (accessor : Accessor P) (flags : PropertyFlags)
  /-- Binds the elements of an array-like class. -/
  | bindElements (c : ClassNumber) (accessor : ElementAccessor P) (flags : PropertyFlags)
  /-- Binds a function on a class. -/
  | bindFunction (c : ClassNumber) (name : String) (procedure : Procedure P)
  /-- Binds a function on a built-in class. -/
  | bindBuiltinFunction (className name : String) (procedure : Procedure P)
  /-- Binds a global function. -/
  | bindGlobal (name : String) (procedure : Procedure P)

/-- The registry after a registration. -/
def register (r : Registry P) : Registration P → Except RegistrationError (Registry P)
  | .declareClass name parent singleton => (r.declareClass name parent singleton).map Prod.snd
  | .setFresh c native => r.setFresh c native
  | .bindProperty c name accessor flags => r.bindProperty c name accessor flags
  | .bindElements c accessor flags => r.bindElements c accessor flags
  | .bindFunction c name procedure => r.bindFunction c name procedure
  | .bindBuiltinFunction className name procedure => r.bindBuiltinFunction className name procedure
  | .bindGlobal name procedure => r.bindGlobal name procedure

/-- A registry that has been filled by registrations. -/
inductive Declared : Registry P → Prop
  | builtins : Declared builtins
  | register {r r' : Registry P} {call : Registration P} :
      Declared r → r.register call = .ok r' → Declared r'

/-! ## What a registration does -/

/-- A class that can be added: it is not built in, its name is free, and the class that it extends
has been registered. -/
structure Addable (r : Registry P) (outline : ClassOutline) : Prop where
  builtin : outline.builtin = false
  free : r.tree.lookup? outline.name = none
  parent : ∀ c, outline.parent = some c → c.index < r.classes.size

/-- The flags of a property are in order: it is not both early and late, and without a setter it is
read-only. -/
structure InOrder (b : BoundProperty P) : Prop where
  phase : ¬ (b.flags.contains .early = true ∧ b.flags.contains .late = true)
  readonly : b.accessor.acceptsWrites = false → b.flags.contains .readonly = true

/-- A class has received members: the outline is as it was, there is at most one property more,
under its own name, and elements have been bound at most once. The flags of what is new are in
order. -/
structure Extends (d d' : RegisteredClass P) : Prop where
  outline : d'.outline = d.outline
  properties : d'.properties = d.properties ∨
    ∃ binding, InOrder binding ∧ d'.properties = d.properties.insert binding.name binding
  elements : ∀ b, d'.elements = some b → d.elements = some b ∨
    ¬ (b.flags.contains .early = true ∧ b.flags.contains .late = true)

/-- A name is found at a position of a class. -/
theorem lt_size_of_lookup? {r : Registry P} {name : String} {c : ClassNumber}
    (h : r.tree.lookup? name = some c) : c.index < r.classes.size := by
  obtain ⟨i, hi, rfl⟩ := Option.map_eq_some_iff.1 h
  simpa [tree] using (Array.findIdx?_eq_some_iff_getElem.1 hi).1

theorem demand_eq_ok {r : Registry P} {c : ClassNumber} {d : RegisteredClass P}
    (h : r.demand c = .ok d) : r.get? c = some d := by
  unfold demand at h
  split at h
  · next hget => rw [hget, Except.ok.inj h]
  · cases h

theorem except_bind_eq_ok {ε α β : Type} {x : Except ε α} {f : α → Except ε β} {b : β}
    (h : x >>= f = .ok b) : ∃ a, x = .ok a ∧ f a = .ok b := by
  cases x with
  | error e => cases h
  | ok a => exact ⟨a, rfl, h⟩

theorem requireConsistentFlags_eq_ok {property : String} {flags : PropertyFlags} {u : Unit}
    (h : requireConsistentFlags property flags = .ok u) :
    ¬ (flags.contains .early = true ∧ flags.contains .late = true) := by
  rw [← PropertyFlags.contains_union]
  unfold requireConsistentFlags at h
  split at h
  · cases h
  · assumption

/-- What has no setter is made read-only, and that leaves the other flags as they are. -/
theorem inOrder_of_consistent {flags : PropertyFlags}
    (hflags : ¬ (flags.contains .early = true ∧ flags.contains .late = true)) (name : String)
    (accessor : Accessor P) :
    InOrder ⟨name, if accessor.acceptsWrites then flags else flags.union .readonly, accessor⟩ := by
  by_cases haccepts : accessor.acceptsWrites = true
  · rw [if_pos haccepts]
    exact ⟨hflags, fun hnone => absurd (haccepts.symm.trans hnone) Bool.true_eq_false.mp⟩
  · rw [if_neg haccepts]
    refine ⟨?_, fun _ => PropertyFlags.union_contains_right flags .readonly⟩
    have hearly : (flags.union .readonly).contains .early = flags.contains .early :=
      PropertyFlags.union_contains_of_disjoint flags rfl
    have hlate : (flags.union .readonly).contains .late = flags.contains .late :=
      PropertyFlags.union_contains_of_disjoint flags rfl
    rw [hearly, hlate]
    exact hflags

theorem bindFunction_cases {r r' : Registry P} {c : ClassNumber} {name : String}
    {procedure : Procedure P} (h : r.bindFunction c name procedure = .ok r') :
    ∃ d d', r.get? c = some d ∧ r' = r.setClass c d' ∧ Extends d d' := by
  obtain ⟨d, hd, h⟩ := except_bind_eq_ok h
  split at h
  · cases h
  · exact ⟨d, _, demand_eq_ok hd, (Except.ok.inj h).symm, rfl, Or.inl rfl, fun _ => Or.inl⟩

/-- A registration adds a class that is not built in, extends a class, or leaves the classes as
they are. -/
theorem register_cases {r r' : Registry P} {call : Registration P} (h : r.register call = .ok r') :
    (∃ outline : ClassOutline, Addable r outline ∧ r' = r.push outline) ∨
    (∃ c d d', r.get? c = some d ∧ r' = r.setClass c d' ∧ Extends d d') ∨
    r'.classes = r.classes := by
  cases call with
  | declareClass name parent singleton =>
    left
    simp only [register, declareClass] at h
    split at h
    · cases h
    · next hfree =>
      rw [Option.not_isSome_iff_eq_none] at hfree
      cases parent with
      | none => exact ⟨_, ⟨rfl, hfree, by simp⟩, (Except.ok.inj h).symm⟩
      | some parentName =>
        simp only at h
        split at h
        · cases h
        · next c hparent =>
          refine ⟨_, ⟨rfl, hfree, ?_⟩, (Except.ok.inj h).symm⟩
          rintro k hk
          obtain rfl := Option.some.inj hk
          exact lt_size_of_lookup? hparent
  | setFresh c native =>
    right; left
    obtain ⟨d, hd, h⟩ := except_bind_eq_ok h
    exact ⟨c, d, _, demand_eq_ok hd, (Except.ok.inj h).symm, rfl, Or.inl rfl, fun _ => Or.inl⟩
  | bindProperty c name accessor flags =>
    right; left
    obtain ⟨_, hflags, h⟩ := except_bind_eq_ok h
    obtain ⟨d, hd, h⟩ := except_bind_eq_ok h
    dsimp only at h
    by_cases hdup : d.properties.contains name = true
    · rw [if_pos hdup] at h
      cases h
    · rw [if_neg hdup] at h
      -- flags that have passed the check put the new property in order
      have hnew := inOrder_of_consistent (requireConsistentFlags_eq_ok hflags) name accessor
      exact ⟨c, d, _, demand_eq_ok hd, (Except.ok.inj h).symm, rfl, Or.inr ⟨_, hnew, rfl⟩,
        fun _ => Or.inl⟩
  | bindElements c accessor flags =>
    right; left
    obtain ⟨_, hflags, h⟩ := except_bind_eq_ok h
    obtain ⟨d, hd, h⟩ := except_bind_eq_ok h
    split at h
    · cases h
    · refine ⟨c, d, _, demand_eq_ok hd, (Except.ok.inj h).symm, rfl, Or.inl rfl, fun b hb => ?_⟩
      obtain rfl := Option.some.inj hb
      exact Or.inr (requireConsistentFlags_eq_ok hflags)
  | bindFunction c name procedure =>
    right; left
    obtain ⟨d, d', hget, hset, hextends⟩ := bindFunction_cases h
    exact ⟨c, d, d', hget, hset, hextends⟩
  | bindBuiltinFunction className name procedure =>
    right; left
    simp only [register, bindBuiltinFunction] at h
    split at h
    · cases h
    · next c _ =>
      split at h
      · split at h
        · obtain ⟨d, d', hget, hset, hextends⟩ := bindFunction_cases h
          exact ⟨c, d, d', hget, hset, hextends⟩
        · cases h
      · cases h
  | bindGlobal name procedure =>
    right; right
    simp only [register, bindGlobal] at h
    split at h
    · cases h
    · rw [← Except.ok.inj h]

/-! ## What holds of all registries -/

/-- What holds of a class with a given number. -/
structure ClassSound (c : ClassNumber) (d : RegisteredClass P) : Prop where
  /-- A property is kept under its name. -/
  names : ∀ entry ∈ d.properties.entries, entry.1 = entry.2.name
  /-- The flags of properties are in order. -/
  properties : ∀ entry ∈ d.properties.entries, InOrder entry.2
  /-- The flags of elements do not contradict each other. -/
  elements : ∀ b, d.elements = some b →
    ¬ (b.flags.contains .early = true ∧ b.flags.contains .late = true)
  /-- A class extends one that was registered before it. -/
  parent : ∀ k, d.outline.parent = some k → k.index < c.index
  /-- Only the first two classes are built in. -/
  builtin : d.outline.builtin = true → c.index < 2

/-- Each class is in order, and the first two classes are the built-in ones. -/
structure Sound (r : Registry P) : Prop where
  /-- Each class is in order. -/
  classes : ∀ c d, r.get? c = some d → ClassSound c d
  /-- The first class is that of plain objects. -/
  object : ∃ d, r.get? .object = some d ∧ d.outline = ⟨"Object", none, false, true⟩
  /-- The second class is that of arrays. -/
  array : ∃ d, r.get? .array = some d ∧ d.outline = ⟨"Array", none, false, true⟩

theorem getElem?_outlines (r : Registry P) (c : ClassNumber) :
    r.tree.outlines[c.index]? = (r.get? c).map RegisteredClass.outline := Array.getElem?_map

/-- A class without a parent stands alone. -/
theorem hierarchy_of_root {r : Registry P} {c : ClassNumber} {d : RegisteredClass P}
    (hget : r.get? c = some d) (hparent : d.outline.parent = none) : r.hierarchy c = [c] := by
  rw [hierarchy, ClassTree.hierarchy, ClassTree.ancestry, getElem?_outlines, hget, Option.map_some]
  simp only [hparent]

theorem get?_push (r : Registry P) (outline : ClassOutline) (c : ClassNumber) :
    (r.push outline).get? c =
      if c.index = r.classes.size then some (.ofOutline outline) else r.get? c := by
  simp only [get?, push, Array.getElem?_push]

theorem get?_setClass {r : Registry P} {c : ClassNumber} {d : RegisteredClass P}
    (hget : r.get? c = some d) (d' : RegisteredClass P) (k : ClassNumber) :
    (r.setClass c d').get? k = if k = c then some d' else r.get? k := by
  have hlt := (Array.getElem?_eq_some_iff.1 hget).1
  obtain ⟨i⟩ := c
  obtain ⟨j⟩ := k
  simp only [get?, setClass, Array.getElem?_setIfInBounds, ClassNumber.mk.injEq] at hlt ⊢
  by_cases hij : i = j
  · rw [if_pos hij, if_pos hij.symm, if_pos hlt]
  · rw [if_neg hij, if_neg fun h => hij h.symm]

/-- A class without members is in order if its outline is. -/
theorem classSound_ofOutline {c : ClassNumber} {outline : ClassOutline}
    (hparent : ∀ k, outline.parent = some k → k.index < c.index)
    (hbuiltin : outline.builtin = true → c.index < 2) :
    ClassSound c (.ofOutline outline : RegisteredClass P) where
  names _ hentry := absurd hentry List.not_mem_nil
  properties _ hentry := absurd hentry List.not_mem_nil
  elements _ hb := by cases hb
  parent := hparent
  builtin := hbuiltin

/-- What a class receives does not bring it out of order. -/
theorem ClassSound.extends {c : ClassNumber} {d d' : RegisteredClass P} (hd : ClassSound c d)
    (h : Extends d d') : ClassSound c d' := by
  have hentries : ∀ entry ∈ d'.properties.entries,
      entry ∈ d.properties.entries ∨ entry.1 = entry.2.name ∧ InOrder entry.2 := by
    intro entry hentry
    rcases h.properties with hsame | ⟨binding, hnew, hinsert⟩
    · exact Or.inl (hsame ▸ hentry)
    · rw [hinsert] at hentry
      rcases Table.mem_entries_insert hentry with rfl | hentry
      · exact Or.inr ⟨rfl, hnew⟩
      · exact Or.inl hentry
  constructor
  case names => exact fun entry hentry => (hentries entry hentry).elim (hd.names entry) And.left
  case properties =>
    exact fun entry hentry => (hentries entry hentry).elim (hd.properties entry) And.right
  case elements => exact fun b hb => (h.elements b hb).elim (hd.elements b) id
  case parent => exact h.outline ▸ hd.parent
  case builtin => exact h.outline ▸ hd.builtin

theorem sound_builtins : Sound (builtins : Registry P) where
  classes c d hget := by
    rw [builtins, get?_push, get?_push] at hget
    split at hget
    · next hindex =>
      have hone : c.index = 1 := hindex
      obtain rfl := Option.some.inj hget
      exact classSound_ofOutline (by simp) fun _ => by omega
    · split at hget
      · next hindex =>
        have hzero : c.index = 0 := hindex
        obtain rfl := Option.some.inj hget
        exact classSound_ofOutline (by simp) fun _ => by omega
      · simp [get?] at hget
  object := ⟨_, rfl, rfl⟩
  array := ⟨_, rfl, rfl⟩

theorem Sound.register {r r' : Registry P} (hr : r.Sound) {call : Registration P}
    (h : r.register call = .ok r') : r'.Sound := by
  obtain ⟨object, hobject, hname⟩ := hr.object
  obtain ⟨array, harray, haname⟩ := hr.array
  rcases register_cases h with ⟨outline, hnew, rfl⟩ | ⟨c, d, d', hget, rfl, hextends⟩ | hclasses
  · -- a new class has a number of its own and no members
    have hold : ∀ c d, r.get? c = some d → (r.push outline).get? c = some d := by
      intro c d hget
      have hlt := (Array.getElem?_eq_some_iff.1 hget).1
      rw [get?_push, if_neg (by omega), hget]
    refine ⟨fun c d hget => ?_, ⟨object, hold _ _ hobject, hname⟩, ⟨array, hold _ _ harray, haname⟩⟩
    rw [get?_push] at hget
    split at hget
    · next hindex =>
      obtain rfl := Option.some.inj hget
      refine classSound_ofOutline (fun k hk => hindex ▸ hnew.parent k hk) fun hbuiltin => ?_
      rw [hnew.builtin] at hbuiltin
      cases hbuiltin
    · exact hr.classes c d hget
  -- a class that is extended keeps its outline, so both of those that are built in stay
  · have houtline : ∀ k e, r.get? k = some e →
        ∃ e', (r.setClass c d').get? k = some e' ∧ e'.outline = e.outline := by
      intro k e hk
      rw [get?_setClass hget]
      split
      · next hkc =>
        rw [hkc, hget] at hk
        exact ⟨d', rfl, by rw [hextends.outline, Option.some.inj hk]⟩
      · exact ⟨e, hk, rfl⟩
    obtain ⟨object', hobject', hsame⟩ := houtline _ _ hobject
    obtain ⟨array', harray', hasame⟩ := houtline _ _ harray
    refine ⟨fun k e hk => ?_, ⟨object', hobject', hsame.trans hname⟩,
      ⟨array', harray', hasame.trans haname⟩⟩
    rw [get?_setClass hget] at hk
    split at hk
    · next hkc =>
      obtain rfl := Option.some.inj hk
      exact hkc ▸ (hr.classes c d hget).extends hextends
    · exact hr.classes k e hk
  · have hsame : ∀ c, r'.get? c = r.get? c := fun c => by rw [get?, get?, hclasses]
    refine ⟨fun c d hget => hr.classes c d (hsame c ▸ hget), ⟨object, ?_, hname⟩, ⟨array, ?_, haname⟩⟩
    · rw [hsame, hobject]
    · rw [hsame, harray]

theorem Declared.sound {r : Registry P} (h : r.Declared) : r.Sound := by
  induction h with
  | builtins => exact sound_builtins
  | register _ hcall ih => exact ih.register hcall

theorem lookup?_push (r : Registry P) (outline : ClassOutline) (name : String) :
    (r.push outline).lookup? name =
      (r.lookup? name).or (if outline.name = name then some ⟨r.classes.size⟩ else none) := by
  simp only [lookup?, ClassTree.lookup?, tree, push, Array.map_push, Array.findIdx?_push,
    RegisteredClass.ofOutline, Array.size_map, Option.map_or, beq_iff_eq]
  split <;> rfl

/-- New members change neither names nor parents. -/
theorem tree_setClass {r : Registry P} {c : ClassNumber} {d d' : RegisteredClass P}
    (hget : r.get? c = some d) (houtline : d'.outline = d.outline) :
    (r.setClass c d').tree = r.tree := by
  rw [tree, tree, ClassTree.mk.injEq]
  refine Array.ext_getElem? fun i => ?_
  have hsame := get?_setClass hget d' ⟨i⟩
  simp only [get?] at hsame hget
  rw [Array.getElem?_map, Array.getElem?_map, hsame]
  split
  · next hi =>
    subst hi
    rw [hget, Option.map_some, Option.map_some, houtline]
  · rfl

/-- A class is found under its name. -/
theorem Declared.lookup?_outline {r : Registry P} (h : r.Declared) {c : ClassNumber}
    {d : RegisteredClass P} (hget : r.get? c = some d) : r.lookup? d.outline.name = some c := by
  induction h generalizing c d with
  | builtins =>
    obtain ⟨index⟩ := c
    have hempty : ∀ name, (⟨#[], .empty⟩ : Registry P).lookup? name = none := fun name => by
      simp [lookup?, ClassTree.lookup?, tree]
    rw [Registry.builtins, get?_push, get?_push] at hget
    rw [Registry.builtins, lookup?_push, lookup?_push, hempty]
    split at hget
    · next hindex =>
      obtain rfl : index = 1 := hindex
      obtain rfl := Option.some.inj hget
      simp [RegisteredClass.ofOutline, push]
    · split at hget
      · next hindex =>
        obtain rfl : index = 0 := hindex
        obtain rfl := Option.some.inj hget
        simp [RegisteredClass.ofOutline]
      · simp [get?] at hget
  | @register r r' call _ hcall ih =>
    rcases register_cases hcall with ⟨outline, ⟨-, hfree, -⟩, rfl⟩ | ⟨k, e, e', hk, rfl, hextends⟩ | hclasses
    · rw [lookup?_push]
      rw [get?_push] at hget
      split at hget
      · next hindex =>
        -- the name of the new class was not taken
        obtain rfl := Option.some.inj hget
        have hnone : r.lookup? (RegisteredClass.ofOutline (P := P) outline).outline.name = none := hfree
        rw [hnone, Option.none_or, ← hindex]
        exact if_pos rfl
      · rw [ih hget, Option.some_or]
    · rw [lookup?, tree_setClass hk hextends.outline]
      rw [get?_setClass hk] at hget
      split at hget
      · next hck =>
        subst hck
        rw [← Option.some.inj hget, hextends.outline]
        exact ih hk
      · exact ih hget
    · rw [lookup?, tree, hclasses]
      rw [get?, hclasses] at hget
      exact ih hget

/-- What is found under a name is a class of this name. -/
theorem exists_of_lookup? {r : Registry P} {name : String} {c : ClassNumber}
    (h : r.lookup? name = some c) : ∃ d, r.get? c = some d ∧ d.outline.name = name := by
  obtain ⟨i, hi, rfl⟩ := Option.map_eq_some_iff.1 h
  obtain ⟨hlt, hname, -⟩ := Array.findIdx?_eq_some_iff_getElem.1 hi
  simp only [tree, Array.size_map, Array.getElem_map, beq_iff_eq] at hlt hname
  exact ⟨r.classes[i], Array.getElem?_eq_getElem hlt, hname⟩

/-! ## Visible properties -/

/-- Among all properties of a row of classes one finds that of the first class that declares it. -/
theorem find?_visible (classes : List (RegisteredClass P)) (name : String) :
    (classes.reverse.foldl (fun (found : Table (BoundProperty P)) d =>
      d.properties.entries.foldl (fun found entry => found.insert entry.1 entry.2) found)
      .empty).find? name = classes.findSome? fun d => d.properties.find? name := by
  have hinsert : ∀ (entries : List (String × BoundProperty P)) (t : Table (BoundProperty P)),
      (entries.map Prod.fst).Nodup →
      (entries.foldl (fun found entry => found.insert entry.1 entry.2) t).find? name =
        (entries.lookup name).or (t.find? name) := by
    intro entries
    induction entries with
    | nil => exact fun t _ => rfl
    | cons entry entries ih =>
      intro t hnodup
      rw [List.map_cons, List.nodup_cons] at hnodup
      rw [List.foldl_cons, ih _ hnodup.2, Table.find?_insert, List.lookup_cons]
      by_cases hname : name = entry.1
      · subst hname
        have hnone : entries.lookup entry.1 = none := by
          rw [List.lookup_eq_none_iff]
          intro other hother
          rw [bne_iff_ne]
          exact fun heq => hnodup.1 (heq ▸ List.mem_map_of_mem hother)
        simp [hnone]
      · simp [hname, beq_false_of_ne hname]
  induction classes with
  | nil => rfl
  | cons d classes ih =>
    rw [List.reverse_cons, List.foldl_append, List.foldl_cons, List.foldl_nil,
      hinsert _ _ d.properties.nodup, ih, List.findSome?_cons]
    show (d.properties.find? name).or _ = _
    cases d.properties.find? name <;> rfl

/-- The property that is found under a name is visible. -/
theorem mem_visibleProperties {r : Registry P} {c : ClassNumber} {name : String}
    {binding : BoundProperty P} (h : r.resolveProperty? c name = some binding) :
    binding ∈ r.visibleProperties c := by
  rw [resolveProperty?, ← find?_visible, Table.find?_eq_some_iff] at h
  exact List.mem_map_of_mem h

/-- What is found under a name is a property of a class. -/
theorem exists_of_resolveProperty? {r : Registry P} {c : ClassNumber} {name : String}
    {binding : BoundProperty P} (h : r.resolveProperty? c name = some binding) :
    ∃ k d, r.get? k = some d ∧ (name, binding) ∈ d.properties.entries := by
  obtain ⟨d, hd, hfind⟩ := List.exists_of_findSome?_eq_some h
  obtain ⟨k, -, hget⟩ := List.mem_filterMap.1 hd
  exact ⟨k, d, hget, Table.find?_eq_some_iff.1 hfind⟩

/-- A property is found under its own name. -/
theorem Sound.name_of_resolveProperty? {r : Registry P} (hr : r.Sound) {c : ClassNumber}
    {name : String} {binding : BoundProperty P} (h : r.resolveProperty? c name = some binding) :
    binding.name = name := by
  obtain ⟨k, d, hget, hentry⟩ := exists_of_resolveProperty? h
  exact ((hr.classes k d hget).names _ hentry).symm

/-- The flags of a property that is found are in order. -/
theorem Sound.inOrder_of_resolveProperty? {r : Registry P} (hr : r.Sound) {c : ClassNumber}
    {name : String} {binding : BoundProperty P} (h : r.resolveProperty? c name = some binding) :
    InOrder binding := by
  obtain ⟨k, d, hget, hentry⟩ := exists_of_resolveProperty? h
  exact (hr.classes k d hget).properties _ hentry

/-- Each value of a table is a property that is kept under its name. -/
def ByName (t : Table (BoundProperty P)) : Prop := ∀ entry ∈ t.entries, entry.1 = entry.2.name

theorem ByName.map_name {t : Table (BoundProperty P)} (ht : ByName t) :
    t.values.map BoundProperty.name = t.keys := by
  rw [Table.values, List.map_map, Table.keys]
  exact List.map_congr_left fun entry hentry => (ht entry hentry).symm

theorem ByName.foldl_insert {t : Table (BoundProperty P)} (ht : ByName t)
    {entries : List (String × BoundProperty P)} (h : ∀ entry ∈ entries, entry.1 = entry.2.name) :
    ByName (entries.foldl (fun found entry => found.insert entry.1 entry.2) t) := by
  induction entries generalizing t with
  | nil => exact ht
  | cons head rest ih =>
    refine ih ?_ fun entry hentry => h entry (List.mem_cons_of_mem _ hentry)
    intro entry hentry
    rcases Table.mem_entries_insert hentry with rfl | hentry
    · exact h head List.mem_cons_self
    · exact ht entry hentry

/-- The visible properties of a class, by name. -/
def visibleTable (r : Registry P) (c : ClassNumber) : Table (BoundProperty P) :=
  (r.lineage c).reverse.foldl (fun found d =>
    d.properties.entries.foldl (fun found entry => found.insert entry.1 entry.2) found) .empty

theorem Sound.byName_visibleTable {r : Registry P} (hr : r.Sound) (c : ClassNumber) :
    ByName (r.visibleTable c) := by
  have hlineage : ∀ d ∈ (r.lineage c).reverse, ∀ entry ∈ d.properties.entries,
      entry.1 = entry.2.name := by
    intro d hd
    obtain ⟨k, -, hget⟩ := List.mem_filterMap.1 (List.mem_reverse.1 hd)
    exact (hr.classes k d hget).names
  have hfold : ∀ {classes : List (RegisteredClass P)} {t : Table (BoundProperty P)}, ByName t →
      (∀ d ∈ classes, ∀ entry ∈ d.properties.entries, entry.1 = entry.2.name) →
      ByName (classes.foldl (fun (found : Table (BoundProperty P)) d =>
        d.properties.entries.foldl (fun found entry => found.insert entry.1 entry.2) found) t) := by
    intro classes
    induction classes with
    | nil => exact fun ht _ => ht
    | cons d classes ih =>
      exact fun ht h => ih (ht.foldl_insert (h d List.mem_cons_self))
        fun e he => h e (List.mem_cons_of_mem _ he)
  have hempty : ByName (.empty : Table (BoundProperty P)) := by
    intro entry hentry
    exact absurd hentry List.not_mem_nil
  exact hfold hempty hlineage

/-- The names of the visible properties are the keys under which they are kept. -/
theorem Sound.map_name_visibleProperties {r : Registry P} (hr : r.Sound) (c : ClassNumber) :
    (r.visibleProperties c).map BoundProperty.name = (r.visibleTable c).keys :=
  (hr.byName_visibleTable c).map_name

/-- The visible properties of a class have distinct names. -/
theorem Sound.nodup_visibleProperties {r : Registry P} (hr : r.Sound) (c : ClassNumber) :
    ((r.visibleProperties c).map BoundProperty.name).Nodup := by
  rw [hr.map_name_visibleProperties]
  exact Table.nodup _

end ScriptBridge.Registry
