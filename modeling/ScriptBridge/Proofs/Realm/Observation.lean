import ScriptBridge.Proofs.Heap.WriteBack
import ScriptBridge.Proofs.Realm.Protection
import ScriptBridge.Scenario.Property
import ScriptBridge.Snapshot.Saving

/-!
# What can be Seen of an Object

Reading a property or an element, expanding a value and saving a graph all follow handles: those in
fields, in arrays, and those that native state answers with. A collection follows handles, too. As
long as native state reports the handles that it answers with, these are the same ones, so nothing
that can be seen of an object that is kept changes with a collection.

Main statement: `Reachable.sameView_collect`.
-/

namespace ScriptBridge

variable {P : Platform}

section

variable {m : Type → Type} [Monad m] {α β : Type} {xs : List α}

theorem mapM_congr [LawfulMonad m] {f g : α → m β} (h : ∀ x ∈ xs, f x = g x) :
    xs.mapM f = xs.mapM g := by
  induction xs with
  | nil => rfl
  | cons x xs ih =>
    rw [List.mapM_cons, List.mapM_cons, h x List.mem_cons_self,
      ih fun y hy => h y (List.mem_cons_of_mem _ hy)]

theorem foldlM_congr {f g : β → α → m β} (h : ∀ x ∈ xs, ∀ b, f b x = g b x) (b : β) :
    xs.foldlM f b = xs.foldlM g b := by
  induction xs generalizing b with
  | nil => rfl
  | cons x xs ih =>
    rw [List.foldlM_cons, List.foldlM_cons, h x List.mem_cons_self]
    exact bind_congr fun b' => ih (fun y hy => h y (List.mem_cons_of_mem _ hy)) b'

end

/-- All handles in a value lie in a part of the heap. -/
def Value.Within (part : Handle → Prop) (v : Value) : Prop := ∀ h ∈ v.handles, part h

namespace Realm

/-- The handles that native state answers with are among those that it keeps alive: for every
object, those in a property that its class binds. Elements need not be considered, since nothing
is followed from there. -/
def Reports (r : Realm P) : Prop :=
  ∀ h object native, r.heap.get? h = some object → object.native? = some native →
    ∀ name binding v, r.binding? object name = some binding →
      binding.accessor.get native = .ok v → v.Within (· ∈ P.handlesOf native)

/-- A part of the heap from which no handle leads out is the same in two realms of the same
classes. -/
structure Shares (part : Handle → Prop) (r r' : Realm P) : Prop where
  registry : r'.registry = r.registry
  options : r'.options = r.options
  same : ∀ h, part h → r'.heap.get? h = r.heap.get? h
  closed : ∀ h object, part h → r.heap.get? h = some object → ∀ k ∈ object.handles, part k

section

variable {part : Handle → Prop} {r r' : Realm P} {h : Handle} {object : ScriptObject P}
  {path : List Handle} {v : Value}

/-! ## Values within a part -/

theorem within_item {origin : Option Handle} {items : List Value}
    (harray : Value.Within part (.array origin items)) : ∀ v ∈ items, v.Within part := by
  intro v hv k hk
  refine harray k (List.mem_append_right _ ?_)
  rw [Value.handlesList_eq_flatMap]
  exact List.mem_flatMap.2 ⟨v, hv, hk⟩

theorem within_array {origin : Option Handle} {items : List Value}
    (horigin : ∀ h ∈ origin, part h) (hitems : ∀ v ∈ items, v.Within part) :
    Value.Within part (.array origin items) := by
  intro k hk
  rcases List.mem_append.1 hk with hk | hk
  · exact horigin k (Option.mem_toList.1 hk)
  · rw [Value.handlesList_eq_flatMap] at hk
    obtain ⟨v, hv, hk⟩ := List.mem_flatMap.1 hk
    exact hitems v hv k hk

namespace Shares

theorem within_field (hs : Shares part r r') (hh : part h) (hget : r.heap.get? h = some object)
    {key : String} (hkey : (key, v) ∈ object.fields.entries) : v.Within part := by
  intro k hk
  refine hs.closed h object hh hget k (List.mem_append_left _ ?_)
  rw [Value.handlesList_eq_flatMap]
  exact List.mem_flatMap.2 ⟨v, List.mem_map.2 ⟨(key, v), hkey, rfl⟩, hk⟩

theorem within_items (hs : Shares part r r') (hh : part h) {items : Array Value}
    (hitems : r.heap.items? h = some items) : ∀ v ∈ items.toList, v.Within part := by
  intro v hv k hk
  obtain ⟨fields, hget⟩ := Heap.get?_of_items? hitems
  refine hs.closed h _ hh hget k (List.mem_append_right _ ?_)
  simp only [Value.handlesList_eq_flatMap]
  exact List.mem_flatMap.2 ⟨v, hv, hk⟩

theorem within_native (hs : Shares part r r') (hh : part h) (hget : r.heap.get? h = some object)
    {native : Native P.Layer} (hnative : object.native? = some native)
    (hv : v.Within (· ∈ P.handlesOf native)) : v.Within part := by
  intro k hk
  refine hs.closed h object hh hget k (List.mem_append_right _ ?_)
  obtain ⟨form, fields⟩ := object
  cases form with
  | instanceOf c state =>
    obtain rfl : state = some native := hnative
    exact hv k hk
  | _ => cases hnative

theorem items?_eq (hs : Shares part r r') (hh : part h) : r'.heap.items? h = r.heap.items? h := by
  rw [Heap.items?, Heap.items?, hs.same h hh]

/-! ## Reading -/

/-- A value is expanded in the same way, and the handles that this uncovers lie in the part as
well. -/
theorem expandOn (hs : Shares part r r') (hunfolds : r.heap.Unfolds path v) (hv : v.Within part) :
    r'.heap.expandOn path v = r.heap.expandOn path v ∧ (r.heap.expandOn path v).Within part := by
  induction hunfolds with
  | @leaf path v hinline hnone =>
    have hnone' : ∀ k, v = .object k → r'.heap.items? k = none := by
      rintro k rfl
      rw [hs.items?_eq (hv k List.mem_cons_self), hnone k rfl]
    rw [Heap.expandOn_of_items?_eq_none hinline hnone,
      Heap.expandOn_of_items?_eq_none hinline hnone']
    exact ⟨rfl, hv⟩
  | @cut path a items hitems hpath =>
    have hitems' : r'.heap.items? a = some items := by
      rw [hs.items?_eq (hv a List.mem_cons_self), hitems]
    rw [Heap.expandOn_of_mem hitems hpath, Heap.expandOn_of_mem hitems' hpath]
    exact ⟨rfl, by simp [Value.Within, Value.handles]⟩
  | @enter path a items hitems hpath _ ih =>
    have ha : part a := hv a List.mem_cons_self
    have hitems' : r'.heap.items? a = some items := by rw [hs.items?_eq ha, hitems]
    have hall := hs.within_items ha hitems
    rw [Heap.expandOn_of_not_mem hitems hpath, Heap.expandOn_of_not_mem hitems' hpath]
    constructor
    · rw [List.map_congr_left fun w hw => (ih w hw (hall w hw)).1]
    · refine within_array (by simpa using ha) fun w hw => ?_
      obtain ⟨u, hu, rfl⟩ := List.mem_map.1 hw
      exact (ih u hu (hall u hu)).2

theorem expand (hs : Shares part r r') (hslotted : r.heap.Slotted) (hinline : v.isInline = false)
    (hv : v.Within part) : r'.expand v = r.expand v ∧ (r.expand v).Within part :=
  hs.expandOn (Heap.unfolds hslotted [] hinline) hv

/-- What stands in a field, or nothing. -/
theorem expand_field (hs : Shares part r r') (hslotted : r.heap.Slotted) (hh : part h)
    (hget : r.heap.get? h = some object) (key : String) :
    (object.fields.find? key).elim .undefined r'.expand =
        (object.fields.find? key).elim .undefined r.expand ∧
      ((object.fields.find? key).elim .undefined r.expand).Within part := by
  cases hfind : object.fields.find? key with
  | none => exact ⟨rfl, by simp [Value.Within, Value.handles]⟩
  | some slot =>
    exact hs.expand hslotted (Heap.isInline_of_field hslotted hget hfind)
      (hs.within_field hh hget (Table.find?_eq_some_iff.1 hfind))

theorem property (hs : Shares part r r') (hslotted : r.heap.Slotted) (hh : part h) (name : String) :
    r'.property h name = r.property h name := by
  unfold Realm.property Realm.binding?
  rw [hs.same h hh, hs.registry]
  cases hget : r.heap.get? h with
  | none => rfl
  | some object =>
    dsimp only
    cases object.class?.bind (r.registry.resolveProperty? · name) with
    | some binding => rfl
    | none =>
      dsimp only
      split
      · rfl
      · exact congrArg _ (hs.expand_field hslotted hh hget _).1

theorem within_property (hs : Shares part r r') (hslotted : r.heap.Slotted) (hreports : r.Reports)
    (hh : part h) {name : String} (hread : r.property h name = .ok v) : v.Within part := by
  unfold Realm.property at hread
  cases hget : r.heap.get? h with
  | none =>
    rw [hget] at hread
    cases hread
  | some object =>
    rw [hget] at hread
    dsimp only at hread
    cases hbinding : r.binding? object name with
    | some binding =>
      rw [hbinding] at hread
      dsimp only at hread
      cases hnative : object.native? with
      | none =>
        rw [hnative] at hread
        cases hread
      | some native =>
        rw [hnative] at hread
        exact hs.within_native hh hget hnative
          (hreports h object native hget hnative name binding v hbinding hread)
    | none =>
      rw [hbinding] at hread
      dsimp only at hread
      split at hread
      · rw [← Except.ok.inj hread]
        simp [Value.Within, Value.handles]
      · rw [← Except.ok.inj hread]
        exact (hs.expand_field hslotted hh hget _).2

theorem element (hs : Shares part r r') (hslotted : r.heap.Slotted) (hh : part h) (i : Nat) :
    r'.element h i = r.element h i := by
  unfold Realm.element Realm.elements?
  rw [hs.same h hh, hs.registry]
  cases hget : r.heap.get? h with
  | none => rfl
  | some object =>
    dsimp only
    cases object.class?.bind r.registry.resolveElements? with
    | some elements => rfl
    | none =>
      dsimp only
      cases hitems : object.items? with
      | some items =>
        dsimp only
        have harray : r.heap.items? h = some items := by
          rw [Heap.items?, hget, Option.bind_some, hitems]
        cases hslot : items[i]? with
        | none => rfl
        | some slot =>
          have hmem : slot ∈ items.toList :=
            Array.mem_toList_iff.2 (Array.mem_of_getElem? hslot)
          simp only [Option.elim_some, (hs.expand hslotted
            (Heap.isInline_of_item hslotted harray hmem) (hs.within_items hh harray slot hmem)).1]
      | none =>
        exact congrArg _ (hs.expand_field hslotted hh hget _).1

theorem listedNames (hs : Shares part r r') (hh : part h) : r'.listedNames h = r.listedNames h := by
  unfold Realm.listedNames
  rw [hs.same h hh, hs.registry]

end Shares

end

end Realm

/-! ## Saving -/

namespace Saving

open Realm (Shares)

section

variable {part : Handle → Prop} {r r' : Realm P} {mask? : Option (List String)}
  {inner inner' : Inner} {inner? inner'? : Option Inner} {path : List Handle} {v : Value}
  {h : Handle}

/-- Two ways to save what lies inside of a value do the same for the values of a part. -/
def Alike (part : Handle → Prop) (inner inner' : Inner) : Prop :=
  ∀ path v, v.Within part → inner' path v = inner path v

theorem addEntry_eq (halike : Alike part inner inner') (hv : v.Within part)
    (entries : Table Snapshot.Entry) (name : String) :
    addEntry mask? (inner' path) entries name v = addEntry mask? (inner path) entries name v := by
  unfold addEntry
  rw [halike path v hv]

theorem addProperties_eq (hs : Shares part r r') (hslotted : r.heap.Slotted)
    (hreports : r.Reports) (halike : Alike part inner inner') (hh : part h) (c : ClassNumber)
    (entries : Table Snapshot.Entry) :
    addProperties r' mask? (inner' path) h c entries =
      addProperties r mask? (inner path) h c entries := by
  unfold addProperties
  rw [hs.registry]
  refine foldlM_congr (fun binding _ entries => ?_) entries
  rw [hs.property hslotted hh]
  cases hread : r.property h binding.name with
  | error error => rfl
  | ok v =>
    dsimp only
    rw [addEntry_eq halike (hs.within_property hslotted hreports hh hread)]

theorem addFields_eq (hs : Shares part r r') (halike : Alike part inner inner') (hh : part h)
    {object : ScriptObject P} (hget : r.heap.get? h = some object)
    (entries : Table Snapshot.Entry) :
    addFields r' mask? (inner' path) object entries =
      addFields r mask? (inner path) object entries := by
  unfold addFields
  refine foldlM_congr (fun entry hentry entries => ?_) entries
  obtain ⟨key, v⟩ := entry
  have hv := hs.within_field hh hget hentry
  cases v with
  | function f =>
    dsimp only
    rw [hs.same f (hv f List.mem_cons_self)]
  | _ =>
    dsimp only
    rw [addEntry_eq halike hv]

theorem saveArray_eq (hs : Shares part r r') (halike : Option.Rel (Alike part) inner? inner'?)
    {origin : Option Handle} {items : List Value} (hitems : ∀ v ∈ items, v.Within part) :
    saveArray r' inner'? path origin items = saveArray r inner? path origin items := by
  unfold saveArray
  cases halike with
  | none =>
    dsimp only
    rw [hs.options]
  | @some inner inner' halike =>
    dsimp only
    have hall : ∀ path, (items.mapM fun item => do return (← inner' path item).getD .null) =
        items.mapM fun item => do return (← inner path item).getD .null :=
      fun path => mapM_congr fun item hitem => by rw [halike path item (hitems item hitem)]
    rw [hall]

theorem isSingletonInstance_eq (hs : Shares part r r') (hh : part h) :
    r'.isSingletonInstance h = r.isSingletonInstance h := by
  unfold Realm.isSingletonInstance Realm.classOf?
  rw [hs.same h hh, hs.registry]

theorem saveObject_eq (hs : Shares part r r') (hslotted : r.heap.Slotted) (hreports : r.Reports)
    (halike : Option.Rel (Alike part) inner? inner'?) (hh : part h) (force : Bool) :
    saveObject r' mask? inner'? path h force = saveObject r mask? inner? path h force := by
  unfold saveObject
  refine bind_congr fun s => ?_
  cases s.saved.lookup h with
  | some index => rfl
  | none =>
    dsimp only
    cases halike with
    | none =>
      dsimp only
      rw [hs.options]
    | @some inner inner' halike =>
      dsimp only
      rw [hs.same h hh, isSingletonInstance_eq hs hh, hs.registry]
      cases hget : r.heap.get? h with
      | none => rfl
      | some object =>
        dsimp only
        simp only [addProperties_eq hs hslotted hreports halike hh,
          addFields_eq hs halike hh hget]

theorem saveWith_eq (hs : Shares part r r') (hslotted : r.heap.Slotted) (hreports : r.Reports)
    (halike : Option.Rel (Alike part) inner? inner'?) (hv : v.Within part) :
    saveWith r' mask? inner'? path v = saveWith r mask? inner? path v := by
  cases v with
  | array origin items =>
    simp only [saveWith, saveArray_eq hs halike (Realm.within_item hv)]
  | object h =>
    have hh : part h := hv h List.mem_cons_self
    simp only [saveWith]
    rw [hs.same h hh]
    cases hget : r.heap.get? h with
    | none => rfl
    | some object =>
      dsimp only
      cases hitems : object.items? with
      | none => exact saveObject_eq hs hslotted hreports halike hh false
      | some items =>
        have harray : r.heap.items? h = some items := by
          rw [Heap.items?, hget, Option.bind_some, hitems]
        dsimp only
        rw [saveArray_eq hs halike (hs.within_items hh harray)]
  | _ => rfl

/-- However much room there is, the values of a part are saved in the same way. -/
theorem alike_save (hs : Shares part r r') (hslotted : r.heap.Slotted) (hreports : r.Reports)
    (mask? : Option (List String)) (room : Nat) :
    Alike part (save r mask? room) (save r' mask? room) := by
  induction room with
  | zero => exact fun path v hv => saveWith_eq hs hslotted hreports .none hv
  | succ room ih => exact fun path v hv => saveWith_eq hs hslotted hreports (.some ih) hv

theorem alike_inner? (hs : Shares part r r') (hslotted : r.heap.Slotted) (hreports : r.Reports)
    (mask? : Option (List String)) (room : Nat) :
    Option.Rel (Alike part) (Saving.inner? r mask? room) (Saving.inner? r' mask? room) := by
  cases room with
  | zero => exact .none
  | succ room => exact .some (alike_save hs hslotted hreports mask? room)

theorem saveRoot_eq (hs : Shares part r r') (hslotted : r.heap.Slotted) (hreports : r.Reports)
    (hv : v.Within part) (force : Bool) : saveRoot r' mask? force v = saveRoot r mask? force v := by
  have hvalue := alike_save hs hslotted hreports mask? r.options.depthLimit [] v hv
  unfold saveRoot
  rw [hs.options]
  cases v with
  | object h =>
    have hh : part h := hv h List.mem_cons_self
    have hinner := alike_inner? hs hslotted hreports mask? r.options.depthLimit
    simp only [Value.object?, Option.filter_some, hs.same h hh]
    cases ((r.heap.get? h).bind ScriptObject.items?).isNone with
    | true => exact saveObject_eq hs hslotted hreports hinner hh force
    | false => exact hvalue
  | _ => exact hvalue

end

end Saving

namespace Realm

section

variable {r : Realm P}

/-- What can be seen of an object is the same in two realms. -/
structure SameView (r r' : Realm P) (h : Handle) : Prop where
  property : ∀ name, r'.property h name = r.property h name
  element : ∀ i, r'.element h i = r.element h i
  listedNames : r'.listedNames h = r.listedNames h
  expand : r'.expand (.object h) = r.expand (.object h)
  save : ∀ force mask?, r'.save (.object h) force mask? = r.save (.object h) force mask?

/-- What a collection keeps, and what was not there before. -/
def Settled (r : Realm P) (h : Handle) : Prop :=
  r.heap.Reaches r.collector.roots.handles h ∨ r.heap.get? h = none

theorem shares_collect (hwf : r.heap.WellFormed) : Shares r.Settled r r.collect.2 where
  registry := rfl
  options := rfl
  same := by
    rintro h (hreach | hdead)
    · exact (get?_collect hwf h).1 hreach
    -- what was not there is not reached, and does not come to be there
    · rw [hdead]
      refine (get?_collect hwf h).2 fun hreach => ?_
      obtain ⟨object, hget⟩ := hreach.resolves
      rw [hdead] at hget
      cases hget
  closed := by
    rintro h object (hreach | hdead) hget k hk
    · cases hkget : r.heap.get? k with
      | none => exact Or.inr hkget
      | some target => exact Or.inl (.step hreach hget hk hkget)
    · rw [hdead] at hget
      cases hget

/-- **Collections are not seen.** When native state reports the handles that it answers with,
whatever can be seen of an object that is reached from a protected one is the same before and
after a collection: its properties, elements and names, the value that it expands to, and what is
saved of it. -/
theorem Reachable.sameView_collect (hr : r.Reachable) (hreports : r.Reports) {h : Handle}
    (hreach : r.heap.Reaches r.collector.roots.handles h) : SameView r r.collect.2 h := by
  have hs := shares_collect hr.sound.wellFormed
  have hslotted := hr.sound.slotted
  have hh : r.Settled h := Or.inl hreach
  have hvalue : Value.Within r.Settled (.object h) := fun k hk => List.mem_singleton.1 hk ▸ hh
  constructor
  case property => exact hs.property hslotted hh
  case element => exact hs.element hslotted hh
  case listedNames => exact hs.listedNames hh
  case expand => exact (hs.expand hslotted rfl hvalue).1
  case save =>
    intro force mask?
    unfold Realm.save
    rw [Saving.saveRoot_eq hs hslotted hreports hvalue]

end

end Realm

/-- A class with a property that reads a slot of a bag. -/
def RegisteredClass.ofBags : RegisteredClass Scenario.platform :=
  let next : Scenario.PropertySpec := ⟨"next", .alpha, "next", .dynamic .object none none⟩
  let bag : RegisteredClass Scenario.platform := .ofOutline ⟨"Bag", none, false, false⟩
  { bag with properties := bag.properties.insert "next" ⟨"next", .readonly, next.accessor⟩ }

/-- The built-in classes, and the class of bags. -/
def Registry.withBags : Registry Scenario.platform :=
  (Registry.builtins.push ⟨"Bag", none, false, false⟩).setClass ⟨2⟩ .ofBags

theorem Registry.declared_withBags : Registry.withBags.Declared := by
  have hclass : (Registry.builtins (P := Scenario.platform)).register
      (.declareClass "Bag" none false) =
        .ok (Registry.builtins.push ⟨"Bag", none, false, false⟩) := by cbv
  have hproperty : ((Registry.builtins (P := Scenario.platform)).push
      ⟨"Bag", none, false, false⟩).register (.bindProperty ⟨2⟩ "next"
        (Scenario.PropertySpec.accessor ⟨"next", .alpha, "next", .dynamic .object none none⟩)
        .readonly) = .ok withBags := by cbv
  exact .register (.register .builtins hclass) hproperty

namespace Realm

/-- A realm with an object that only native state refers to, and an object that nothing refers to.
-/
def ofBags : Realm Scenario.platform :=
  let r := (ofRegistry .withBags .standard Scenario.Stage.empty).newObject.2.newObject.2
  let bag := Scenario.Bag.ofSlots .alpha "bag" [("next", .object ⟨1, 0⟩)] [] false
  after (putProperty ⟨0, 0⟩ "bag" (.object ⟨3, 0⟩) false) (after (wrapNative "Bag" (.base bag)) r)

theorem reachable_ofBags : ofBags.Reachable := by
  have hsteps : Steps (ofRegistry .withBags .standard Scenario.Stage.empty) ofBags :=
    .tail (.tail (.tail (.single (.newObject _)) (.newObject _)) (.wrapNative "Bag" _ _))
      (.putProperty ⟨0, 0⟩ "bag" (.object ⟨3, 0⟩) false _)
  have hcapacity : ofBags.heap.capacity = 4 := by cbv
  exact ⟨.withBags, .standard, Scenario.Stage.empty, Registry.declared_withBags, hsteps,
    by rw [hcapacity]; decide⟩

theorem reports_ofBags : ofBags.Reports := by
  have hlive : ofBags.heap.handles = [⟨0, 0⟩, ⟨1, 0⟩, ⟨2, 0⟩, ⟨3, 0⟩] := by cbv
  have hglobals : ofBags.heap.get? ⟨0, 0⟩ =
      some ⟨.plain, ⟨[("bag", .object ⟨3, 0⟩)], by decide⟩⟩ := by cbv
  have hkept : ofBags.heap.get? ⟨1, 0⟩ = some (.ofForm .plain) := by cbv
  have hlost : ofBags.heap.get? ⟨2, 0⟩ = some (.ofForm .plain) := by cbv
  have hbag : ofBags.heap.get? ⟨3, 0⟩ = some (.ofForm (.instanceOf ⟨2⟩
      (some (.base ⟨.alpha, "bag", [("next", .object ⟨1, 0⟩)], [], false⟩)))) := by cbv
  intro h object native hget hnative name binding v hbinding hread
  have hmem := Heap.mem_handles_of_get? hget
  rw [hlive] at hmem
  simp only [List.mem_cons, List.not_mem_nil, or_false] at hmem
  rcases hmem with rfl | rfl | rfl | rfl
  · rw [← Option.some.inj (hglobals.symm.trans hget)] at hnative
    cases hnative
  · rw [← Option.some.inj (hkept.symm.trans hget)] at hnative
    cases hnative
  · rw [← Option.some.inj (hlost.symm.trans hget)] at hnative
    cases hnative
  · obtain rfl := Option.some.inj (hbag.symm.trans hget)
    obtain rfl := Option.some.inj hnative
    have hlineage : ofBags.registry.lineage ⟨2⟩ = [.ofBags] := by cbv
    have hfind : RegisteredClass.ofBags.properties.find? name = some binding := by
      simpa [binding?, ScriptObject.ofForm, ScriptObject.class?, Registry.resolveProperty?,
        hlineage] using hbinding
    -- the class has one property, which answers with the object in the slot
    obtain ⟨rfl, rfl⟩ := Prod.mk.inj (List.mem_singleton.1 (Table.find?_eq_some_iff.1 hfind))
    have hnext : v = .object ⟨1, 0⟩ := (Except.ok.inj hread).symm
    intro k hk
    rw [hnext] at hk
    exact hk

/-- An object is collected, and the one that native state refers to is still answered. -/
theorem sameView_collect_ofBags :
    ofBags.Reachable ∧ ofBags.Reports ∧
    ofBags.heap.Reaches ofBags.collector.roots.handles ⟨3, 0⟩ ∧
    ofBags.collect.1 = 1 ∧
    ofBags.property ⟨3, 0⟩ "next" = .ok (.object ⟨1, 0⟩) ∧
    SameView ofBags ofBags.collect.2 ⟨3, 0⟩ := by
  have hglobals : ofBags.heap.get? ⟨0, 0⟩ =
      some ⟨.plain, ⟨[("bag", .object ⟨3, 0⟩)], by decide⟩⟩ := by cbv
  have hbag : ofBags.heap.get? ⟨3, 0⟩ = some (.ofForm (.instanceOf ⟨2⟩
      (some (.base ⟨.alpha, "bag", [("next", .object ⟨1, 0⟩)], [], false⟩)))) := by cbv
  have hroots : ofBags.collector.roots.handles = [⟨0, 0⟩] := by cbv
  have hreach : ofBags.heap.Reaches ofBags.collector.roots.handles ⟨3, 0⟩ :=
    .step (.start (hroots ▸ List.mem_cons_self) hglobals) hglobals List.mem_cons_self hbag
  exact ⟨reachable_ofBags, reports_ofBags, hreach, by cbv, by cbv,
    reachable_ofBags.sameView_collect reports_ofBags hreach⟩

end Realm

end ScriptBridge
