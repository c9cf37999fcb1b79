import ScriptBridge.Proofs.Registry.Declared
import ScriptBridge.Scenario.Script
import Mathlib

/-!
# Members along a Hierarchy

A member is looked up from a class upwards, and the first class that declares it decides. The listing of
properties is written the other way, from the most distant ancestor downwards, and a name that comes again
keeps its place. Both ways give the same properties, whatever has been declared again and how often,
because one equation describes each of them: a class adds to its parent.

Main statements: `ownNames_ofCalls` (what a class declares is what has been registered for it),
`Sound.derivesFrom_iff` and `Sound.visibleNames_eq` (a class and its parent), `Sound.listsMembers` and
`members_resolve_consistently`.
-/

namespace ScriptBridge.Registry

variable {P : Platform}

/-! ## Registrations in a Row -/

/-- The registry after a registration. One that fails changes nothing. -/
def attempt (r : Registry P) (call : Registration P) : Registry P :=
  match r.register call with
  | .ok r' => r'
  | .error _ => r

/-- The registry after a row of registrations, each of which may have failed. -/
def ofCalls (calls : List (Registration P)) : Registry P := calls.foldl attempt builtins

theorem attempt_cases (r : Registry P) (call : Registration P) :
    (∃ r', r.register call = .ok r' ∧ r.attempt call = r') ∨
      (∃ error, r.register call = .error error) ∧ r.attempt call = r := by
  unfold attempt
  cases h : r.register call with
  | ok r' => exact Or.inl ⟨r', rfl, rfl⟩
  | error error => exact Or.inr ⟨⟨error, rfl⟩, rfl⟩

theorem Declared.attempt {r : Registry P} (hr : r.Declared) (call : Registration P) :
    (r.attempt call).Declared := by
  rcases r.attempt_cases call with ⟨r', hcall, hafter⟩ | ⟨-, hafter⟩
  · rw [hafter]
    exact hr.register hcall
  · rwa [hafter]

theorem Declared.foldl_attempt {r : Registry P} (hr : r.Declared) (calls : List (Registration P)) :
    (calls.foldl Registry.attempt r).Declared := by
  induction calls generalizing r with
  | nil => exact hr
  | cons call calls ih => exact ih (hr.attempt call)

/-! ## Names of Own Properties -/

/-- The names of the properties that a class declares itself. -/
def ownNames (r : Registry P) (c : ClassNumber) : List String :=
  (r.get? c).elim [] fun d => d.properties.keys

/-- The name that a registration binds to a property of a class. -/
def Registration.boundOn? (c : ClassNumber) : Registration P → Option String
  | .bindProperty k name _ _ => if k = c then some name else none
  | _ => none

/-- The names that a row of registrations binds to properties of a class, in this order. A registration
that fails binds none. -/
def boundNames (c : ClassNumber) : Registry P → List (Registration P) → List String
  | _, [] => []
  | r, call :: calls =>
    match r.register call with
    | .ok r' => (call.boundOn? c).toList ++ boundNames c r' calls
    | .error _ => boundNames c r calls

section

variable {r r' : Registry P} {c k : ClassNumber} {d : RegisteredClass P}

theorem ownNames_of_get? (hget : r.get? c = some d) : r.ownNames c = d.properties.keys := by
  rw [ownNames, hget, Option.elim_some]

theorem ownNames_push (r : Registry P) (outline : ClassOutline) (c : ClassNumber) :
    (r.push outline).ownNames c = r.ownNames c := by
  unfold ownNames
  rw [get?_push]
  split
  -- a class that is new declares nothing, and there has been none with its number
  · next hindex =>
    have hnone : r.get? c = none := Array.getElem?_eq_none_iff.2 (Nat.le_of_eq hindex.symm)
    rw [hnone]
    rfl
  · rfl

theorem ownNames_setClass (hget : r.get? k = some d) (d' : RegisteredClass P) (c : ClassNumber) :
    (r.setClass k d').ownNames c = if c = k then d'.properties.keys else r.ownNames c := by
  unfold ownNames
  rw [get?_setClass hget]
  split <;> rfl

/-- A class that receives anything but a property declares the same names. -/
theorem ownNames_setClass_of_eq {d' : RegisteredClass P} (hget : r.get? k = some d)
    (hsame : d'.properties = d.properties) (c : ClassNumber) : (r.setClass k d').ownNames c = r.ownNames c := by
  rw [ownNames_setClass hget]
  split
  · next hck => rw [hck, ownNames_of_get? hget, hsame]
  · rfl

theorem ownNames_bindFunction {name : String} {procedure : Procedure P}
    (h : r.bindFunction k name procedure = .ok r') (c : ClassNumber) :
    r'.ownNames c = r.ownNames c := by
  obtain ⟨d, hd, h⟩ := except_bind_eq_ok h
  split at h
  · cases h
  · rw [← Except.ok.inj h]
    refine ownNames_setClass_of_eq (demand_eq_ok hd) ?_ c
    rfl

theorem ownNames_bindProperty {name : String} {accessor : Accessor P} {flags : PropertyFlags}
    (h : r.bindProperty k name accessor flags = .ok r') (c : ClassNumber) :
    r'.ownNames c = r.ownNames c ++ (if k = c then some name else none).toList := by
  obtain ⟨-, -, h⟩ := except_bind_eq_ok h
  obtain ⟨d, hd, h⟩ := except_bind_eq_ok h
  dsimp only at h
  by_cases htaken : d.properties.contains name = true
  · rw [if_pos htaken] at h
    cases h
  · rw [if_neg htaken] at h
    have hget := demand_eq_ok hd
    rw [← Except.ok.inj h, ownNames_setClass hget]
    by_cases hkc : k = c
    -- a name that is free comes behind those that have been bound
    · rw [if_pos hkc.symm, if_pos hkc, ← hkc, ownNames_of_get? hget, Table.keys_insert,
        if_neg fun hmem => htaken ((Table.contains_iff _ _).2 hmem)]
      rfl
    · rw [if_neg (Ne.symm hkc), if_neg hkc, Option.toList_none, List.append_nil]

/-- What a registration does to the names that a class declares. -/
theorem ownNames_register {call : Registration P} (h : r.register call = .ok r') (c : ClassNumber) :
    r'.ownNames c = r.ownNames c ++ (call.boundOn? c).toList := by
  have hkept : r'.ownNames c = r.ownNames c → call.boundOn? c = none →
      r'.ownNames c = r.ownNames c ++ (call.boundOn? c).toList := by
    intro hsame hnone
    rw [hnone, Option.toList_none, List.append_nil, hsame]
  cases call with
  | bindProperty k name accessor flags => exact ownNames_bindProperty h c
  | declareClass name parent singleton =>
    refine hkept ?_ rfl
    simp only [register, declareClass] at h
    split at h
    · cases h
    · cases parent with
      | none =>
        rw [← Except.ok.inj h]
        exact ownNames_push r _ c
      | some parentName =>
        simp only at h
        split at h
        · cases h
        · rw [← Except.ok.inj h]
          exact ownNames_push r _ c
  | setFresh k native =>
    refine hkept ?_ rfl
    obtain ⟨d, hd, h⟩ := except_bind_eq_ok h
    rw [← Except.ok.inj h]
    refine ownNames_setClass_of_eq (demand_eq_ok hd) ?_ c
    rfl
  | bindElements k accessor flags =>
    refine hkept ?_ rfl
    obtain ⟨-, -, h⟩ := except_bind_eq_ok h
    obtain ⟨d, hd, h⟩ := except_bind_eq_ok h
    split at h
    · cases h
    · rw [← Except.ok.inj h]
      refine ownNames_setClass_of_eq (demand_eq_ok hd) ?_ c
      rfl
  | bindFunction k name procedure =>
    refine hkept ?_ rfl
    exact ownNames_bindFunction h c
  | bindBuiltinFunction className name procedure =>
    refine hkept ?_ rfl
    simp only [register, bindBuiltinFunction] at h
    split at h
    · cases h
    · split at h
      · split at h
        · exact ownNames_bindFunction h c
        · cases h
      · cases h
  | bindGlobal name procedure =>
    refine hkept ?_ rfl
    simp only [register, bindGlobal] at h
    split at h
    · cases h
    · rw [← Except.ok.inj h]
      rfl

theorem ownNames_foldl_attempt (calls : List (Registration P)) (r : Registry P) (c : ClassNumber) :
    (calls.foldl attempt r).ownNames c = r.ownNames c ++ boundNames c r calls := by
  induction calls generalizing r with
  | nil => exact (List.append_nil _).symm
  | cons call calls ih =>
    rw [List.foldl_cons, ih, boundNames]
    rcases r.attempt_cases call with ⟨r', hcall, hafter⟩ | ⟨⟨error, hcall⟩, hafter⟩
    · rw [hafter, hcall, ownNames_register hcall, List.append_assoc]
    · rw [hafter, hcall]

/-- What a class declares is what has been registered for it, in this order. -/
theorem ownNames_ofCalls (calls : List (Registration P)) (c : ClassNumber) :
    (ofCalls calls).ownNames c = boundNames c builtins calls := by
  have hstart : (builtins : Registry P).ownNames c = [] := by
    rw [builtins, ownNames_push, ownNames_push]
    rfl
  rw [ofCalls, ownNames_foldl_attempt, hstart, List.nil_append]

end

/-! ## A Class and its Parent -/

section

variable {r : Registry P} {a b c j k p : ClassNumber} {d : RegisteredClass P}

theorem derivesFrom_iff_mem : r.derivesFrom c k = true ↔ k ∈ r.hierarchy c := List.contains_iff_mem

theorem exists_of_derivesFrom (h : r.derivesFrom c k = true) : ∃ d, r.get? c = some d := by
  rw [derivesFrom_iff_mem, hierarchy, ClassTree.hierarchy, ClassTree.ancestry, getElem?_outlines] at h
  cases hget : r.get? c with
  | some d => exact ⟨d, rfl⟩
  | none =>
    rw [hget] at h
    cases h

theorem Sound.hierarchy_eq_cons (hr : r.Sound) (hget : r.get? c = some d) :
    r.hierarchy c = c :: d.outline.parent.elim [] r.hierarchy := by
  rw [hierarchy, ClassTree.hierarchy, ClassTree.ancestry, getElem?_outlines, hget, Option.map_some]
  dsimp only
  cases hparent : d.outline.parent with
  | none => rfl
  | some p =>
    -- the parent was registered before, so the way goes on
    dsimp only
    rw [if_pos ((hr.classes c d hget).parent p hparent)]
    rfl

/-- A class derives from itself and from what its parent derives from. -/
theorem Sound.derivesFrom_iff (hr : r.Sound) (hget : r.get? c = some d) :
    r.derivesFrom c k = true ↔ k = c ∨ ∃ p, d.outline.parent = some p ∧ r.derivesFrom p k = true := by
  rw [derivesFrom_iff_mem, hr.hierarchy_eq_cons hget, List.mem_cons]
  cases d.outline.parent with
  | none => simp
  | some p => simp [derivesFrom_iff_mem]

theorem Sound.derivesFrom_self (hr : r.Sound) (hget : r.get? c = some d) :
    r.derivesFrom c c = true := (hr.derivesFrom_iff hget).2 (Or.inl rfl)

theorem Sound.derivesFrom_of_parent (hr : r.Sound) (hget : r.get? c = some d)
    (hparent : d.outline.parent = some p) (h : r.derivesFrom p k = true) : r.derivesFrom c k = true :=
  (hr.derivesFrom_iff hget).2 (Or.inr ⟨p, hparent, h⟩)

theorem Sound.exists_of_parent (hr : r.Sound) (hget : r.get? c = some d)
    (hparent : d.outline.parent = some p) : ∃ e, r.get? p = some e := by
  have hlt := (Array.getElem?_eq_some_iff.1 hget).1
  have hbelow := (hr.classes c d hget).parent p hparent
  exact ⟨r.classes[p.index], Array.getElem?_eq_getElem (Nat.lt_trans hbelow hlt)⟩

/-- What holds of a class once it holds of its parent holds of all classes. -/
theorem Sound.induction (hr : r.Sound) {motive : ClassNumber → Prop}
    (step : ∀ c d, r.get? c = some d → (∀ p, d.outline.parent = some p → motive p) → motive c)
    (hget : r.get? c = some d) : motive c := by
  obtain ⟨index⟩ := c
  -- a parent has a smaller number
  induction index using Nat.strongRecOn generalizing d with
  | ind index ih =>
    refine step _ d hget fun p hparent => ?_
    obtain ⟨e, he⟩ := hr.exists_of_parent hget hparent
    exact ih p.index ((hr.classes _ d hget).parent p hparent) he

theorem Sound.derivesFrom_trans (hr : r.Sound) (hab : r.derivesFrom a b = true)
    (hbc : r.derivesFrom b c = true) : r.derivesFrom a c = true := by
  obtain ⟨d, hget⟩ := exists_of_derivesFrom hab
  revert hab
  refine hr.induction (motive := fun a => r.derivesFrom a b = true → r.derivesFrom a c = true)
    (fun a d hget ih hab => ?_) hget
  rcases (hr.derivesFrom_iff hget).1 hab with rfl | ⟨p, hparent, hpb⟩
  · exact hbc
  · exact hr.derivesFrom_of_parent hget hparent (ih p hparent hpb)

/-- Ancestors have smaller numbers. -/
theorem Sound.eq_or_lt_of_derivesFrom (hr : r.Sound) (h : r.derivesFrom c k = true) :
    k = c ∨ k.index < c.index := by
  obtain ⟨d, hget⟩ := exists_of_derivesFrom h
  revert h
  refine hr.induction (motive := fun c => r.derivesFrom c k = true → k = c ∨ k.index < c.index)
    (fun c d hget ih h => ?_) hget
  refine ((hr.derivesFrom_iff hget).1 h).imp_right ?_
  rintro ⟨p, hparent, hpk⟩
  have hbelow := (hr.classes c d hget).parent p hparent
  rcases ih p hparent hpk with rfl | hlt
  · exact hbelow
  · exact Nat.lt_trans hlt hbelow

theorem Sound.derivesFrom_antisymm (hr : r.Sound) (hab : r.derivesFrom a b = true)
    (hba : r.derivesFrom b a = true) : a = b := by
  rcases hr.eq_or_lt_of_derivesFrom hab with heq | hlt
  · exact heq.symm
  -- numbers cannot get smaller both ways
  · rcases hr.eq_or_lt_of_derivesFrom hba with heq | hgt
    · exact heq
    · exact absurd hgt (Nat.lt_asymm hlt)

/-- No ancestor of the parent is the class itself. -/
theorem Sound.ne_of_parent (hr : r.Sound) (hget : r.get? c = some d)
    (hparent : d.outline.parent = some p) (h : r.derivesFrom p k = true) : c ≠ k := by
  have hbelow := (hr.classes c d hget).parent p hparent
  rintro rfl
  rcases hr.eq_or_lt_of_derivesFrom h with rfl | hlt
  · exact Nat.lt_irrefl _ hbelow
  · exact Nat.lt_asymm hlt hbelow

theorem Sound.lineage_eq_cons (hr : r.Sound) (hget : r.get? c = some d) :
    r.lineage c = d :: d.outline.parent.elim [] r.lineage := by
  rw [lineage, hr.hierarchy_eq_cons hget, List.filterMap_cons_some hget]
  cases d.outline.parent <;> rfl

/-- What is found along the way up is what the class declares or else what is found from its parent on. -/
theorem Sound.findSome?_lineage (hr : r.Sound) (hget : r.get? c = some d) {α : Type}
    (member? : RegisteredClass P → Option α) :
    (r.lineage c).findSome? member? =
      (member? d).or (d.outline.parent.bind fun p => (r.lineage p).findSome? member?) := by
  rw [hr.lineage_eq_cons hget, List.findSome?_cons]
  cases member? d with
  | some _ => rfl
  | none => cases d.outline.parent <;> rfl

/-- The members of a class are its own and those of its parent. -/
structure Inherits (r : Registry P) (c : ClassNumber) (d : RegisteredClass P) : Prop where
  /-- A class derives from itself and from what its parent derives from. -/
  ancestor : ∀ k, r.derivesFrom c k = true ↔
    k = c ∨ ∃ p, d.outline.parent = some p ∧ r.derivesFrom p k = true
  /-- A property that the class does not declare is that of its parent. -/
  property : ∀ name, r.resolveProperty? c name =
    (d.properties.find? name).or (d.outline.parent.bind (r.resolveProperty? · name))
  /-- A function that the class does not declare is that of its parent. -/
  function : ∀ name, r.resolveFunction? c name =
    (d.functions.find? name).or (d.outline.parent.bind (r.resolveFunction? · name))
  /-- Elements that the class does not declare are those of its parent. -/
  elements : r.resolveElements? c = d.elements.or (d.outline.parent.bind r.resolveElements?)
  /-- What fresh instances start with, if the class does not say so, is as for its parent. -/
  fresh : r.resolveFresh? c = d.fresh.or (d.outline.parent.bind r.resolveFresh?)

theorem Sound.inherits (hr : r.Sound) (hget : r.get? c = some d) : r.Inherits c d where
  ancestor _ := hr.derivesFrom_iff hget
  property name := hr.findSome?_lineage hget fun d => d.properties.find? name
  function name := hr.findSome?_lineage hget fun d => d.functions.find? name
  elements := hr.findSome?_lineage hget RegisteredClass.elements
  fresh := hr.findSome?_lineage hget RegisteredClass.fresh

end

/-! ## The Listing -/

/-- The names of the visible properties of a class, in the order in which these are listed. -/
def visibleNames (r : Registry P) (c : ClassNumber) : List String :=
  (r.visibleProperties c).map BoundProperty.name

/-- The nearest class that declares a name, from `c` upwards. -/
def Decides (r : Registry P) (c k : ClassNumber) (name : String) : Prop :=
  r.derivesFrom c k = true ∧ name ∈ r.ownNames k ∧
    ∀ j, r.derivesFrom c j = true → name ∈ r.ownNames j → r.derivesFrom k j = true

/-- The most distant class that declares a name, from `c` upwards. -/
def Introduces (r : Registry P) (c k : ClassNumber) (name : String) : Prop :=
  r.derivesFrom c k = true ∧ name ∈ r.ownNames k ∧
    ∀ j, r.derivesFrom c j = true → name ∈ r.ownNames j → r.derivesFrom j k = true

/-- A name is introduced by an ancestor of the class that introduces another one, or by the same class
and before it. -/
def ListedBefore (r : Registry P) (c : ClassNumber) (x y : String) : Prop :=
  ∃ j k, r.Introduces c j x ∧ r.Introduces c k y ∧
    (r.derivesFrom k j = true ∧ k ≠ j ∨ k = j ∧ [x, y].Sublist (r.ownNames k))

/-- A write for each of some entries appends the keys that are new. -/
theorem keys_foldl_insert {α : Type} {entries : List (String × α)}
    (hnodup : (entries.map Prod.fst).Nodup) (t : Table α) :
    (entries.foldl (fun found entry => found.insert entry.1 entry.2) t).keys =
      t.keys ++ (entries.map Prod.fst).filter fun name => name ∉ t.keys := by
  induction entries generalizing t with
  | nil => exact (List.append_nil _).symm
  | cons entry entries ih =>
    rw [List.map_cons, List.nodup_cons] at hnodup
    rw [List.foldl_cons, ih hnodup.2, Table.keys_insert, List.map_cons]
    by_cases hmem : entry.1 ∈ t.keys
    · rw [if_pos hmem, List.filter_cons_of_neg (by simpa using hmem)]
    · rw [if_neg hmem, List.filter_cons_of_pos (by simpa using hmem), List.append_assoc,
        List.singleton_append]
      -- the key that has been appended does not come again
      have hrest : (entries.map Prod.fst).filter (fun name => name ∉ t.keys ++ [entry.1]) =
          (entries.map Prod.fst).filter fun name => name ∉ t.keys := by
        refine List.filter_congr fun name hname => ?_
        have hne : name ≠ entry.1 := fun heq => hnodup.1 (heq ▸ hname)
        simp [hne]
      rw [hrest]

section

variable {r : Registry P} {c j k p : ClassNumber} {d : RegisteredClass P} {name x y : String}

theorem Sound.visibleTable_eq (hr : r.Sound) (hget : r.get? c = some d) :
    r.visibleTable c = d.properties.entries.foldl (fun found entry => found.insert entry.1 entry.2)
      (d.outline.parent.elim .empty r.visibleTable) := by
  rw [visibleTable, hr.lineage_eq_cons hget, List.reverse_cons, List.foldl_append]
  cases d.outline.parent <;> rfl

/-- A class lists what its parent lists, and then what it declares beside that. -/
theorem Sound.visibleNames_eq (hr : r.Sound) (hget : r.get? c = some d) :
    r.visibleNames c = d.outline.parent.elim [] r.visibleNames ++
      (r.ownNames c).filter fun name => name ∉ d.outline.parent.elim [] r.visibleNames := by
  have hkeys : ∀ k, r.visibleNames k = (r.visibleTable k).keys := hr.map_name_visibleProperties
  have hparent : (d.outline.parent.elim .empty r.visibleTable).keys =
      d.outline.parent.elim [] r.visibleNames := by
    cases d.outline.parent with
    | none => rfl
    | some p => exact (hkeys p).symm
  rw [hkeys, hr.visibleTable_eq hget, keys_foldl_insert d.properties.nodup, hparent,
    ownNames_of_get? hget]
  rfl

theorem Sound.mem_visibleNames_iff_isSome (hr : r.Sound) :
    name ∈ r.visibleNames c ↔ (r.resolveProperty? c name).isSome = true := by
  rw [visibleNames, hr.map_name_visibleProperties, ← Table.contains_iff, Table.contains, visibleTable,
    find?_visible]
  rfl

theorem mem_ownNames_iff (hget : r.get? c = some d) :
    name ∈ r.ownNames c ↔ (d.properties.find? name).isSome = true := by
  rw [ownNames_of_get? hget, ← Table.contains_iff, Table.contains]

/-- A name that is listed is declared by a class of the hierarchy. -/
theorem Sound.mem_visibleNames_iff (hr : r.Sound) :
    name ∈ r.visibleNames c ↔ ∃ k, r.derivesFrom c k = true ∧ name ∈ r.ownNames k := by
  rw [hr.mem_visibleNames_iff_isSome, resolveProperty?, List.findSome?_isSome_iff]
  -- the lineage holds the classes of the hierarchy, and only those that are there declare anything
  constructor
  · rintro ⟨d, hd, hname⟩
    obtain ⟨k, hk, hget⟩ := List.mem_filterMap.1 hd
    exact ⟨k, derivesFrom_iff_mem.2 hk, (mem_ownNames_iff hget).2 hname⟩
  · rintro ⟨k, hk, hname⟩
    cases hget : r.get? k with
    | none =>
      rw [ownNames, hget] at hname
      cases hname
    | some d =>
      exact ⟨d, List.mem_filterMap.2 ⟨k, derivesFrom_iff_mem.1 hk, hget⟩, (mem_ownNames_iff hget).1 hname⟩

/-- The nearest class that declares a name decides what is found. -/
theorem Sound.decides_of_resolveProperty? (hr : r.Sound) (hget : r.get? c = some d)
    {binding : BoundProperty P} (h : r.resolveProperty? c name = some binding) :
    ∃ k e, r.Decides c k name ∧ r.get? k = some e ∧ e.properties.find? name = some binding := by
  revert h
  refine hr.induction (motive := fun c => r.resolveProperty? c name = some binding →
    ∃ k e, r.Decides c k name ∧ r.get? k = some e ∧ e.properties.find? name = some binding)
    (fun c d hget ih h => ?_) hget
  rw [(hr.inherits hget).property, Option.or_eq_some_iff] at h
  rcases h with hown | ⟨hnone, hinherited⟩
  -- nothing is nearer than the class itself
  · exact ⟨c, d, ⟨hr.derivesFrom_self hget, (mem_ownNames_iff hget).2 (by rw [hown]; rfl),
      fun j hj _ => hj⟩, hget, hown⟩
  · obtain ⟨p, hparent, hinherited⟩ := Option.bind_eq_some_iff.1 hinherited
    obtain ⟨k, e, ⟨hpk, hname, hnearest⟩, hk, hfind⟩ := ih p hparent hinherited
    refine ⟨k, e, ⟨hr.derivesFrom_of_parent hget hparent hpk, hname, fun j hj hjname => ?_⟩, hk, hfind⟩
    -- the class itself does not declare the name
    rcases (hr.derivesFrom_iff hget).1 hj with rfl | ⟨p', hparent', hpj⟩
    · rw [mem_ownNames_iff hget, hnone] at hjname
      cases hjname
    · obtain rfl := Option.some.inj (hparent.symm.trans hparent')
      exact hnearest j hpj hjname

/-- What introduces a name for the parent introduces it for the class. -/
theorem Sound.introduces_of_parent (hr : r.Sound) (hget : r.get? c = some d)
    (hparent : d.outline.parent = some p) (h : r.Introduces p k name) : r.Introduces c k name := by
  obtain ⟨hpk, hname, hdistant⟩ := h
  have hck := hr.derivesFrom_of_parent hget hparent hpk
  refine ⟨hck, hname, fun j hj hjname => ?_⟩
  rcases (hr.derivesFrom_iff hget).1 hj with rfl | ⟨p', hparent', hpj⟩
  · exact hck
  · obtain rfl := Option.some.inj (hparent.symm.trans hparent')
    exact hdistant j hpj hjname

/-- A name that the parent does not list is introduced by the class. -/
theorem Sound.introduces_self (hr : r.Sound) (hget : r.get? c = some d) (hname : name ∈ r.ownNames c)
    (hnew : name ∉ d.outline.parent.elim [] r.visibleNames) : r.Introduces c c name := by
  refine ⟨hr.derivesFrom_self hget, hname, fun j hj hjname => ?_⟩
  rcases (hr.derivesFrom_iff hget).1 hj with rfl | ⟨p, hparent, hpj⟩
  · exact hj
  · rw [hparent] at hnew
    exact absurd (hr.mem_visibleNames_iff.2 ⟨j, hpj, hjname⟩) hnew

theorem Sound.exists_introduces (hr : r.Sound) (hget : r.get? c = some d)
    (h : name ∈ r.visibleNames c) : ∃ k, r.Introduces c k name := by
  revert h
  refine hr.induction (motive := fun c => name ∈ r.visibleNames c → ∃ k, r.Introduces c k name)
    (fun c d hget ih h => ?_) hget
  rw [hr.visibleNames_eq hget, List.mem_append] at h
  rcases h with hinherited | hown
  · cases hparent : d.outline.parent with
    | none =>
      rw [hparent] at hinherited
      cases hinherited
    | some p =>
      rw [hparent] at hinherited
      obtain ⟨k, hk⟩ := ih p hparent hinherited
      exact ⟨k, hr.introduces_of_parent hget hparent hk⟩
  · rw [List.mem_filter, decide_eq_true_iff] at hown
    exact ⟨c, hr.introduces_self hget hown.1 hown.2⟩

/-- Names are listed with those of ancestors first, and those of one class as they have been bound. -/
theorem Sound.pairwise_visibleNames (hr : r.Sound) (hget : r.get? c = some d) :
    (r.visibleNames c).Pairwise (r.ListedBefore c) := by
  refine hr.induction (motive := fun c => (r.visibleNames c).Pairwise (r.ListedBefore c))
    (fun c d hget ih => ?_) hget
  -- what is inherited is in order, what is new is in order, and what is new comes later
  rw [hr.visibleNames_eq hget, List.pairwise_append]
  refine ⟨?inherited, ?own, ?across⟩
  case inherited =>
    cases hparent : d.outline.parent with
    | none => exact List.Pairwise.nil
    | some p =>
      refine (ih p hparent).imp ?_
      rintro x y ⟨j, k, hx, hy, horder⟩
      exact ⟨j, k, hr.introduces_of_parent hget hparent hx, hr.introduces_of_parent hget hparent hy,
        horder⟩
  case own =>
    rw [List.pairwise_iff_forall_sublist]
    intro x y hxy
    -- the parent lists neither of the two
    have hnew : ∀ name ∈ [x, y], r.Introduces c c name := by
      intro name hname
      have hmem := hxy.subset hname
      rw [List.mem_filter, decide_eq_true_iff] at hmem
      exact hr.introduces_self hget hmem.1 hmem.2
    exact ⟨c, c, hnew x (by simp), hnew y (by simp), Or.inr ⟨rfl, hxy.trans List.filter_sublist⟩⟩
  case across =>
    intro x hx y hy
    rw [List.mem_filter, decide_eq_true_iff] at hy
    cases hparent : d.outline.parent with
    | none =>
      rw [hparent] at hx
      cases hx
    | some p =>
      rw [hparent] at hx
      obtain ⟨e, he⟩ := hr.exists_of_parent hget hparent
      obtain ⟨j, hj⟩ := hr.exists_introduces he hx
      exact ⟨j, c, hr.introduces_of_parent hget hparent hj, hr.introduces_self hget hy.1 hy.2,
        Or.inl ⟨hr.derivesFrom_of_parent hget hparent hj.1, hr.ne_of_parent hget hparent hj.1⟩⟩

end

/-- The listing of the properties of a class against the search for one of them. -/
structure ListsMembers (r : Registry P) (c : ClassNumber) : Prop where
  /-- A name is listed once. -/
  nodup : (r.visibleNames c).Nodup
  /-- The names that are listed are those that are found. -/
  complete : ∀ name, name ∈ r.visibleNames c ↔ (r.resolveProperty? c name).isSome = true
  /-- What is listed under a name is what is found. -/
  binding : ∀ b ∈ r.visibleProperties c, r.resolveProperty? c b.name = some b
  /-- What is found comes from the nearest class that declares the name. -/
  nearest : ∀ name b, r.resolveProperty? c name = some b →
    ∃ k d, r.Decides c k name ∧ r.get? k = some d ∧ d.properties.find? name = some b
  /-- A name has the place that the most distant class gives it. -/
  places : (r.visibleNames c).Pairwise (r.ListedBefore c)

theorem Sound.listsMembers {r : Registry P} (hr : r.Sound) {c : ClassNumber} {d : RegisteredClass P}
    (hget : r.get? c = some d) : r.ListsMembers c where
  nodup := hr.nodup_visibleProperties c
  complete _ := hr.mem_visibleNames_iff_isSome
  binding b hb := by
    obtain ⟨entry, hentry, rfl⟩ := List.mem_map.1 (show b ∈ (r.visibleTable c).values from hb)
    rw [← hr.byName_visibleTable c entry hentry, resolveProperty?, ← find?_visible]
    exact Table.find?_eq_some_iff.2 hentry
  nearest _ _ h := hr.decides_of_resolveProperty? hget h
  places := hr.pairwise_visibleNames hget

/-- **Listing and search agree.** Whatever is registered in whatever order: a class declares the names
that have been bound to it, in this order; the properties of a class are listed once each, in the order in
which they have been introduced, and are those that are found from the class upwards; classes are ordered
by descent; and a class has its own members and, where it has none of its own, those of its parent. -/
theorem members_resolve_consistently (calls : List (Registration P)) :
    let r := ofCalls calls
    (∀ c, r.ownNames c = boundNames c builtins calls) ∧
    (∀ c d, r.get? c = some d → r.ListsMembers c ∧ r.Inherits c d ∧ r.derivesFrom c c = true) ∧
    (∀ a b c, r.derivesFrom a b = true → r.derivesFrom b c = true → r.derivesFrom a c = true) ∧
    ∀ a b, r.derivesFrom a b = true → r.derivesFrom b a = true → a = b := by
  intro r
  have hr : r.Sound := (Declared.builtins.foldl_attempt calls).sound
  exact ⟨ownNames_ofCalls calls,
    fun c d hget => ⟨hr.listsMembers hget, hr.inherits hget, hr.derivesFrom_self hget⟩,
    fun a b c => hr.derivesFrom_trans, fun a b => hr.derivesFrom_antisymm⟩

/-- Three classes, each of which extends the one before. The last one declares `sides` and `name` again, and
the second time that the one between declares `sides` fails. -/
def figureCalls : List (Registration Scenario.platform) :=
  let reads (value : Value) : Accessor Scenario.platform := ⟨value.tag, fun _ => .ok value, none⟩
  [.declareClass "Figure" none false, .declareClass "Polygon" (some "Figure") false,
    .declareClass "Square" (some "Polygon") false,
    .bindProperty ⟨4⟩ "sides" (reads (.byte 4)) .none, .bindProperty ⟨4⟩ "width" (reads (.int 1)) .none,
    .bindProperty ⟨2⟩ "name" (reads (.string "figure")) .none,
    .bindProperty ⟨3⟩ "corners" (reads (.int 3)) .none, .bindProperty ⟨3⟩ "sides" (reads (.int 3)) .none,
    .bindProperty ⟨3⟩ "sides" (reads (.int 5)) .none,
    .bindProperty ⟨4⟩ "name" (reads (.string "square")) .none]

theorem members_of_square :
    let r := ofCalls figureCalls
    ∃ d, r.get? ⟨4⟩ = some d ∧ r.ListsMembers ⟨4⟩ ∧ r.Inherits ⟨4⟩ d ∧
      r.ownNames ⟨4⟩ = ["sides", "width", "name"] ∧
      r.visibleNames ⟨4⟩ = ["name", "corners", "sides", "width"] ∧
      (r.visibleProperties ⟨4⟩).map (fun b => b.accessor.tag) = [.string, .int, .byte, .int] ∧
      r.derivesFrom ⟨4⟩ ⟨2⟩ = true := by
  obtain ⟨-, hclasses, htrans, -⟩ := members_resolve_consistently figureCalls
  have hget : ((ofCalls figureCalls).get? ⟨4⟩).isSome = true := by cbv
  obtain ⟨d, hd⟩ := Option.isSome_iff_exists.1 hget
  obtain ⟨hlists, hinherits, -⟩ := hclasses _ d hd
  exact ⟨d, hd, hlists, hinherits, by cbv, by cbv, by cbv, htrans ⟨4⟩ ⟨3⟩ ⟨2⟩ (by cbv) (by cbv)⟩

end ScriptBridge.Registry
