import ScriptBridge.Proofs.Heap.WriteBack
import ScriptBridge.Proofs.Snapshot.PlainGraph
import ScriptBridge.Proofs.Snapshot.Separation
import ScriptBridge.Proofs.Snapshot.Awakening
import ScriptBridge.Proofs.Snapshot.Loading

/-!
# Copies of Graphs without Classes

A copy goes through a snapshot, which holds live objects where the graph has fields with a name of the
mask, and nowhere else. So what a copy of plain objects, arrays and functions leads to, apart from
these fields, has been made for it, and whatever is written into it later on is not seen through the
original, nor the other way round.

Main statements: `Shows.sharesUnder` and `Host.clone_apart`.
-/

namespace ScriptBridge

open Realm (after)

variable {P : Platform}

/-! ## Graphs -/

namespace Value

mutual

/-- The objects and functions that stand in a value. The arrays that items come from are not among
them. -/
def leaves : Value → List Handle
  | object h => [h]
  | function h => [h]
  | array _ items => leavesList items
  | _ => []

/-- The objects and functions that stand in a list of values. -/
def leavesList : List Value → List Handle
  | [] => []
  | v :: vs => leaves v ++ leavesList vs

end

theorem mem_leavesList {vs : List Value} {k : Handle} :
    k ∈ leavesList vs ↔ ∃ v ∈ vs, k ∈ v.leaves := by
  induction vs with
  | nil => simp [leavesList]
  | cons v vs ih => simp [leavesList, ih]

theorem leaves_of_isInline {v : Value} (hv : v.isInline = false) : v.leaves = v.handles := by
  cases v <;> first | rfl | cases hv

end Value

namespace Heap

/-- The objects of the graph that a value starts, through fields and items, have no classes: they are
plain objects, arrays and functions. -/
def ClasslessFrom (heap : Heap P) (v : Value) : Prop :=
  ∀ h object, heap.Reaches v.leaves h → heap.get? h = some object → object.class? = none

/-- A value that stands in the graph that `v` starts. -/
def Belongs (heap : Heap P) (v w : Value) : Prop :=
  ∀ k ∈ w.leaves, ∀ object, heap.get? k = some object → heap.Reaches v.leaves k

variable {heap : Heap P} {v w : Value}

theorem belongs_self (heap : Heap P) (v : Value) : heap.Belongs v v :=
  fun _ hk _ hget => .start hk hget

theorem belongs_slot (hslotted : heap.Slotted) {h : Handle} {object : ScriptObject P}
    (hreach : heap.Reaches v.leaves h) (hget : heap.get? h = some object) (hw : w ∈ object.slots) :
    heap.Belongs v w := by
  intro k hk target htarget
  rw [Value.leaves_of_isInline (hslotted h object hget w hw)] at hk
  refine .step hreach hget ?_ htarget
  rw [ScriptObject.slots, List.mem_append] at hw
  rw [ScriptObject.handles, List.mem_append, Value.handlesList_eq_flatMap, List.mem_flatMap]
  rcases hw with hw | hw
  · exact Or.inl ⟨w, hw, hk⟩
  · obtain ⟨form, fields⟩ := object
    cases form with
    | array items =>
      right
      show k ∈ Value.handlesList items.toList
      rw [Value.handlesList_eq_flatMap, List.mem_flatMap]
      exact ⟨w, hw, hk⟩
    | _ => simp [ScriptObject.items?] at hw

end Heap

/-! ## Snapshots for Copying -/

namespace Saving

open Snapshot (Entry Node idAt?)

section

variable {r : Realm P} {mask : List String} {nodes : Array Node} {sites : List Site} {v : Value}

/-- The node at a position shows an object of the graph that a value starts. -/
def InGraph (r : Realm P) (sites : List Site) (v : Value) (i : Nat) : Prop :=
  ∃ site, sites[i]? = some site ∧
    ∀ object, r.heap.get? site.owner = some object → r.heap.Reaches v.leaves site.owner

/-- An entry without live objects, whose nodes show objects of the graph. -/
structure Detached (r : Realm P) (sites : List Site) (v : Value) (entry : Entry) : Prop where
  lifeless : entry.isLive = false
  inside : ∀ i ∈ entry.positions, InGraph r sites v i

theorem detached_of_isLeaf {entry : Entry} (hlive : entry.isLive = false)
    (hleaf : entry.isLeaf = true) : Detached r sites v entry :=
  ⟨hlive, fun i hi => by rw [Snapshot.Entry.positions_of_isLeaf hleaf] at hi; cases hi⟩

/-- What lies inside of a value is shown without live objects. -/
theorem Image.detached {path : List Handle} {w : Value} {image? : Option Entry}
    (h : Image r nodes sites path w image?) (hw : r.heap.Belongs v w) {entry : Entry}
    (hentry : image? = some entry) : Detached r sites v entry := by
  cases h with
  | scalar hscalar =>
    obtain rfl := Option.some.inj hentry
    cases w <;> simp only [scalar?, Option.some.injEq, reduceCtorEq] at hscalar <;>
      (subst hscalar; exact detached_of_isLeaf rfl rfl)
  | undefined => cases hentry
  | function => cases hentry
  | transient => cases hentry
  | dead => exact Option.some.inj hentry ▸ detached_of_isLeaf rfl rfl
  | singleton => exact Option.some.inj hentry ▸ detached_of_isLeaf rfl rfl
  | stub => exact Option.some.inj hentry ▸ detached_of_isLeaf rfl rfl
  | cut => exact Option.some.inj hentry ▸ detached_of_isLeaf rfl rfl
  | @node h index hsite =>
    obtain rfl := Option.some.inj hentry
    refine ⟨rfl, fun i hi => ?_⟩
    obtain rfl := List.mem_singleton.1 hi
    exact ⟨_, hsite, fun object hget => hw h List.mem_cons_self object hget⟩

theorem belongs_item (hslotted : r.heap.Slotted) {w : Value} {origin : Option Handle}
    {items : List Value} (harray : arrayOf? r w = some (origin, items)) (hw : r.heap.Belongs v w)
    {item : Value} (hitem : item ∈ items) : r.heap.Belongs v item := by
  cases w with
  | array origin' items' =>
    obtain ⟨-, rfl⟩ := Prod.mk.inj (Option.some.inj harray)
    exact fun k hk object hget => hw k (Value.mem_leavesList.2 ⟨item, hitem, hk⟩) object hget
  | object a =>
    rw [arrayOf?, Option.map_eq_some_iff] at harray
    obtain ⟨slots, hslots, heq⟩ := harray
    obtain ⟨-, rfl⟩ := Prod.mk.inj heq
    obtain ⟨object, hget, hitems⟩ := Option.bind_eq_some_iff.1 hslots
    refine Heap.belongs_slot hslotted (hw a List.mem_cons_self object hget) hget ?_
    rw [ScriptObject.slots, hitems]
    exact List.mem_append_right _ hitem
  | _ => simp [arrayOf?] at harray

/-- What values of the graph are shown as holds no live objects. -/
theorem Images.detached (hslotted : r.heap.Slotted) {path : List Handle} {values : List Value}
    {images : List (Option Entry)} (h : Images r nodes sites path values images)
    (hvalues : ∀ w ∈ values, r.heap.Belongs v w) :
    ∀ entry, some entry ∈ images → Detached r sites v entry := by
  induction h with
  | nil => simp
  | cons himage _ ih =>
    intro entry hentry
    rcases List.mem_cons.1 hentry with heq | hentry
    · exact himage.detached (hvalues _ List.mem_cons_self) heq.symm
    · exact ih (fun w hw => hvalues w (List.mem_cons_of_mem _ hw)) entry hentry
  | @array path value origin items values inside images harray _ _ _ ihitems ihrest =>
    intro entry hentry
    rcases List.mem_cons.1 hentry with heq | hentry
    · obtain rfl := Option.some.inj heq
      have hinside := ihitems fun item hitem =>
        belongs_item hslotted harray (hvalues _ List.mem_cons_self) hitem
      have heach : ∀ item ∈ inside.map (·.getD .null), Detached r sites v item := by
        intro item hitem
        obtain ⟨image?, himage, rfl⟩ := List.mem_map.1 hitem
        cases image? with
        | none => exact detached_of_isLeaf rfl rfl
        | some item => exact hinside item himage
      refine ⟨anyLive_eq_false fun item hitem => (heach item hitem).lifeless, fun i hi => ?_⟩
      obtain ⟨item, hitem, hi⟩ := Entry.mem_positionsOf_iff.1 hi
      exact (heach item hitem).inside i hi
    · exact ihrest (fun w hw => hvalues w (List.mem_cons_of_mem _ hw)) entry hentry

/-- A field is shown without live objects, unless its name is in the mask. -/
theorem FieldImage.detached (hslotted : r.heap.Slotted) {site : Site} {present : List String}
    {field : String × Value} {key : String} {entry : Entry}
    (h : FieldImage r (some mask) nodes sites site present field (some (key, entry)))
    (hfield : r.heap.Belongs v field.2) :
    Detached r sites v entry ∨ key ∈ mask ∧ ∃ k, entry = .reference k := by
  generalize hout : some (key, entry) = out at h
  cases h with
  | skipped => cases hout
  | @function name f =>
    cases hsource : sourceOf? r f with
    | none => simp [hsource] at hout
    | some source =>
      simp only [hsource, Option.map_some, Option.some.injEq, Prod.mk.injEq] at hout
      rw [hout.2]
      exact Or.inl (detached_of_isLeaf rfl rfl)
  | @value name w image? _ _ _ _ hmember =>
    cases image? with
    | none => cases hout
    | some entry' =>
      simp only [Option.map_some, Option.some.injEq, Prod.mk.injEq] at hout
      obtain ⟨rfl, rfl⟩ := hout
      cases hmember with
      | @shared k hshared =>
        refine Or.inr ⟨?_, k, rfl⟩
        unfold shared? at hshared
        split at hshared
        · next hmask => simpa using hmask
        · cases hshared
      | own _ himages =>
        refine Or.inl (himages.detached hslotted (v := v) ?_ entry List.mem_cons_self)
        exact fun w hw => List.mem_singleton.1 hw ▸ hfield

/-- A node of an object without a class holds live objects under names of the mask only. -/
theorem Content.detached (hslotted : r.heap.Slotted) {site : Site} {node : Node}
    {object : ScriptObject P} (h : Content r (some mask) nodes sites site node object)
    (hreach : r.heap.Reaches v.leaves site.owner) (hclass : object.class? = none) :
    node.className = none ∧ ∀ entry ∈ node.entries.entries,
      Detached r sites v entry.2 ∨ entry.1 ∈ mask ∧ ∃ k, entry.2 = .reference k := by
  have hregistered : registered? r object = none := by rw [registered?, hclass, Option.bind_none]
  refine ⟨by rw [h.className, hregistered, Option.map_none], ?_⟩
  obtain ⟨properties, fields, hproperties, hfields, hentries⟩ := h.entries
  have hnil : properties = [] := by
    rw [propertiesOf, hregistered] at hproperties
    exact List.forall₂_nil_left_iff.1 hproperties
  subst hnil
  rw [hentries]
  rintro ⟨key, entry⟩ hentry
  obtain ⟨field, hfield, himage⟩ :=
    exists_of_forall₂_right hfields (List.reduceOption_mem_iff.1 hentry)
  refine himage.detached hslotted (Heap.belongs_slot hslotted hreach h.alive ?_)
  exact List.mem_append_left _ (List.mem_map_of_mem hfield)

end

/-- The snapshot of a graph without classes that is made for a copy holds live objects under names of
the mask only. -/
theorem Shows.sharesUnder {r : Realm P} {mask : List String} {v : Value} {s : Snapshot}
    {sites : List Site} {room : Nat} (h : Shows r (some mask) v s sites) (horderly : s.Orderly room)
    (hslotted : r.heap.Slotted) (hgraph : r.heap.ClasslessFrom v) : s.SharesUnder mask := by
  have hroot : Detached r sites v s.root := by
    obtain ⟨image?, hroot, himages⟩ := h.root
    rw [hroot]
    cases image? with
    | none => exact detached_of_isLeaf rfl rfl
    | some entry =>
      refine himages.detached hslotted (fun w hw => ?_) entry List.mem_cons_self
      exact List.mem_singleton.1 hw ▸ r.heap.belongs_self v
  -- the node of a site in the graph
  have hcontent : ∀ i, InGraph r sites v i → ∀ node, s.nodes[i]? = some node →
      node.className = none ∧ ∀ entry ∈ node.entries.entries,
        Detached r sites v entry.2 ∨ entry.1 ∈ mask ∧ ∃ k, entry.2 = .reference k := by
    rintro i ⟨site, hsite, hreach⟩ node hnode
    obtain ⟨object, hobject⟩ := h.content i node site hnode hsite
    have hreach := hreach object hobject.alive
    exact hobject.detached hslotted hreach (hgraph _ object hreach hobject.alive)
  have hreached : ∀ i, s.Reached i → InGraph r sites v i := by
    intro i hi
    induction hi with
    | root hi => exact hroot.inside _ hi
    | @inside i j node _ hnode hi ih =>
      obtain ⟨entry, hentry, hi⟩ := Entry.mem_positionsOf_iff.1 hi
      obtain ⟨named, hnamed, rfl⟩ := List.mem_map.1 hentry
      rcases (hcontent j ih node hnode).2 named hnamed with hdetached | ⟨-, k, hk⟩
      · exact hdetached.inside i hi
      · rw [hk] at hi
        cases hi
  have hnodes : ∀ node ∈ s.nodes, ∃ i, InGraph r sites v i ∧ s.nodes[i]? = some node := by
    intro node hnode
    obtain ⟨i, hi⟩ := Array.mem_iff_getElem?.1 hnode
    refine ⟨i, hreached i ((horderly.preorder.mem_iff_reached i).1 ?_), hi⟩
    exact List.mem_range.2 (Array.getElem?_eq_some_iff.1 hi).1
  constructor
  case root => exact hroot.lifeless
  case noClass =>
    intro node hnode
    obtain ⟨i, hi, hget⟩ := hnodes node hnode
    exact (hcontent i hi node hget).1
  case entries =>
    intro node hnode entry hentry
    obtain ⟨i, hi, hget⟩ := hnodes node hnode
    exact ((hcontent i hi node hget).2 entry hentry).imp_left Detached.lifeless

end Saving

/-! ## What a Copy Leads to -/

namespace Heap

/-- The handles that can be met on the way from some handles, through fields whose names are not in the
mask, and through items and native states. -/
inductive ReachesOutside (heap : Heap P) (mask : List String) (start : List Handle) : Handle → Prop
  | start {k : Handle} : k ∈ start → ReachesOutside heap mask start k
  | field {h k : Handle} {object : ScriptObject P} {field : String × Value} :
      ReachesOutside heap mask start h → heap.get? h = some object →
      field ∈ object.fields.entries → field.1 ∉ mask → k ∈ field.2.handles →
      ReachesOutside heap mask start k
  | item {h k : Handle} {object : ScriptObject P} {items : Array Value} {v : Value} :
      ReachesOutside heap mask start h → heap.get? h = some object →
      object.items? = some items → v ∈ items → k ∈ v.handles → ReachesOutside heap mask start k
  | native {h k : Handle} {object : ScriptObject P} {native : Native P.Layer} :
      ReachesOutside heap mask start h → heap.get? h = some object →
      object.native? = some native → k ∈ P.handlesOf native → ReachesOutside heap mask start k

variable {old heap : Heap P} {mask : List String}

/-- From new objects that are kept apart one gets to new objects only. -/
theorem ReachesOutside.isNew {start : List Handle} {k : Handle}
    (h : heap.ReachesOutside mask start k) (hstart : ∀ k ∈ start, old.IsNew heap k)
    (hseparate : ∀ h object, heap.get? h = some object → ¬ old.Issued h →
      object.Separate old heap mask) : old.IsNew heap k := by
  induction h with
  | start hk => exact hstart _ hk
  | @field h k object field _ hget hfield hname hk ih =>
    exact (hseparate h object hget ih.1).fields field hfield hname k hk
  | @item h k object items v _ hget hitems hv hk ih =>
    exact (hseparate h object hget ih.1).items items hitems v hv k hk
  | @native h k object native _ hget hnative hk ih =>
    -- only an instance of a class has a native state
    have hclass := (hseparate h object hget ih.1).classless
    obtain ⟨form, fields⟩ := object
    cases form with
    | instanceOf => cases hclass
    | _ => cases hnative

/-- Reading out a value that leads to new objects only meets no others. -/
theorem Unfolds.onlyNew {path : List Handle} {v : Value} (h : heap.Unfolds path v)
    (hv : old.OnlyNew heap v)
    (hitems : ∀ a items, old.IsNew heap a → heap.items? a = some items →
      ∀ w ∈ items, old.OnlyNew heap w) :
    old.OnlyNew heap (heap.expandOn path v) := by
  induction h with
  | leaf hslot hnone =>
    rw [expandOn_of_items?_eq_none hslot hnone]
    exact hv
  | cut hget hpath =>
    rw [expandOn_of_mem hget hpath]
    exact onlyNew_of_handles rfl
  | @enter path a items hget hpath _ ih =>
    have ha : old.IsNew heap a := onlyNew_object.1 hv
    rw [expandOn_of_not_mem hget hpath]
    intro k hk
    rw [Value.handles, Value.handlesList_eq_flatMap, List.mem_append, List.mem_flatMap] at hk
    rcases hk with hk | ⟨copy, hcopy, hk⟩
    · obtain rfl := List.mem_singleton.1 hk
      exact ha
    · obtain ⟨w, hw, rfl⟩ := List.mem_map.1 hcopy
      exact ih w hw (hitems a items ha hget w (Array.mem_toList_iff.1 hw)) k hk

end Heap

/-! ## Copies -/

namespace Heap

/-- A heap after a copy has been made: apart from fields with a name of the mask, the copy leads to
nothing that was there before, so that neither is changed by writing into the other. -/
structure CopiedApart (old heap : Heap P) (mask : List String) (copy : Value) : Prop where
  /-- What the copy leads to has been made for it. -/
  fresh : ∀ k, heap.ReachesOutside mask copy.handles k → old.IsNew heap k
  /-- What was there before is what it was. -/
  kept : ∀ h object, old.get? h = some object → heap.get? h = some object
  /-- It still is when the copy is written to, and when more is made. -/
  forth : ∀ later : Heap P,
    heap.Changes (fun k => heap.ReachesOutside mask copy.handles k ∨ ¬ heap.Issued k)
      (fun _ => True) later → later.capacity ≤ UInt32.size →
    ∀ h object, old.get? h = some object → later.get? h = some object
  /-- The copy is what it was when what was there before is written to, and when more is made. -/
  back : ∀ later : Heap P,
    heap.Changes (fun k => old.Issued k ∨ ¬ heap.Issued k) (fun _ => True) later →
    later.capacity ≤ UInt32.size →
    ∀ k, heap.ReachesOutside mask copy.handles k → later.get? k = heap.get? k

variable {old heap : Heap P} {mask : List String} {copy : Value}

/-- It is enough that the copy leads to new objects only, and that everything else is as it was. -/
theorem CopiedApart.of_issued (hwf : heap.WellFormed)
    (hfresh : ∀ k, heap.ReachesOutside mask copy.handles k → old.IsNew heap k)
    (hissued : ∀ h, old.Issued h → heap.Issued h ∧ heap.get? h = old.get? h) :
    old.CopiedApart heap mask copy := by
  constructor
  case fresh => exact hfresh
  case kept =>
    intro h object hget
    rw [(hissued h (issued_of_get? hget)).2, hget]
  case forth =>
    intro later hchanges hbound h object hget
    obtain ⟨hh, hsame⟩ := hissued h (issued_of_get? hget)
    have hedits : ¬ (heap.ReachesOutside mask copy.handles h ∨ ¬ heap.Issued h) := by
      rintro (hreach | hnew)
      · exact (hfresh h hreach).1 (issued_of_get? hget)
      · exact hnew hh
    rw [(hchanges.get?_of_issued hwf hbound hh hedits).2, hsame, hget]
  case back =>
    intro later hchanges hbound k hreach
    obtain ⟨object, hget⟩ := contains_iff.1 (hfresh k hreach).2
    have hk := issued_of_get? hget
    have hedits : ¬ (old.Issued k ∨ ¬ heap.Issued k) := by
      rintro (hold | hnew)
      · exact (hfresh k hreach).1 hold
      · exact hnew hk
    exact (hchanges.get?_of_issued hwf hbound hk hedits).2

end Heap

/-- What is built from a snapshot that shares under the names of a mask only is a copy that is kept
apart. -/
theorem Loading.copiedApart_build {s : Snapshot} {mask : List String} (hshares : s.SharesUnder mask)
    {r : Realm P} (hr : r.Reachable) {root : Value} {built : Loading P}
    (hbuild : Runs (build s) (start r) root built) (hbound : built.Bounded) :
    r.heap.CopiedApart built.heap mask (built.heap.expand root) := by
  have hwf := hr.sound.wellFormed
  obtain ⟨hseparated, hroot⟩ := (separates_build hshares hwf root built hbuild).2 hbound
  obtain rfl : after (build s) (start r) = built := congrArg Prod.snd hbuild
  obtain ⟨hmoves, -, hanswer⟩ := builds_build s r
  have hslot : root.isInline = false := hanswer root (congrArg Prod.fst hbuild)
  have hsteps : r.Steps (after (build s) (start r)).realm := hmoves.operates
  have hslotted : (after (build s) (start r)).heap.Slotted := (hr.steps hsteps hbound).sound.slotted
  apply Heap.CopiedApart.of_issued hseparated.wellFormed
  · intro k hreach
    refine hreach.isNew ?_ hseparated.objects
    refine (Heap.unfolds hslotted [] hslot).onlyNew hroot fun a items ha hitems => ?_
    obtain ⟨fields, hget⟩ := Heap.get?_of_items? hitems
    exact (hseparated.objects a _ hget ha.1).items items rfl
  · exact (apart_build s hwf hbound).issued

namespace Host

open Loading (build start awaken)

/-- A copy comes from loading a snapshot of the graph. -/
theorem exists_of_run_clone {host : Host P} {r r' : Realm P} {value copy : Value}
    {mask : List String} (hclone : Id.run ((host.clone value mask).run.run r) = (.ok copy, r')) :
    ∃ s, r.save value true (some mask) = .ok s ∧
      Id.run ((host.load s true).run.run r) = (.ok copy, r') := by
  have hrun : Id.run (((liftM (r.save value true (some mask)) : SnapshotAction P Snapshot) >>=
    fun s => host.load s true).run.run r) = (.ok copy, r') := hclone
  cases hsave : r.save value true (some mask) with
  | error error =>
    rw [hsave] at hrun
    cases hrun
  | ok s =>
    rw [hsave] at hrun
    exact ⟨s, rfl, hrun⟩

/-- A load that succeeds builds a graph, awakens its instances and reads its answer. -/
theorem exists_of_run_load {host : Host P} {r r' : Realm P} {s : Snapshot} {copying : Bool}
    (hadmitted : (!copying && s.holdsLiveObjects) = false) {answer : Value}
    (hload : Id.run ((host.load s copying).run.run r) = (.ok answer, r')) :
    ∃ root built awoken, Loading.Runs (build s) (start r) root built ∧
      Loading.Runs (awaken host) built ⟨⟩ awoken ∧ answer = awoken.realm.expand root ∧
      r' = awoken.realm.unprotectAll awoken.made := by
  cases hrun : Id.run ((Loading.load host s).run.run (start r)) with
  | mk outcome t =>
    obtain ⟨rfl, rfl⟩ := Prod.mk.inj ((host.run_load hadmitted hrun).symm.trans hload)
    rw [Loading.load_eq] at hrun
    obtain ⟨root, built, hbuild, hrest⟩ := Realm.exists_of_run_bind hrun
    obtain ⟨⟨⟩, awoken, hawaken, hanswer⟩ := Realm.exists_of_run_bind hrest
    obtain ⟨hvalue, rfl⟩ := Prod.mk.inj hanswer
    exact ⟨root, built, awoken, hbuild, hawaken, (Except.ok.inj hvalue).symm, rfl⟩

/-- **Copies are isolated.** A copy of a graph of plain objects, arrays and functions leads, apart from
fields with a name of the mask, to objects only that have been made for it, and leaves what was there
before as it was. -/
theorem clone_apart (host : Host P) {r r' : Realm P} (hr : r.Reachable) {value copy : Value}
    (hgraph : r.heap.ClasslessFrom value) (mask : List String)
    (hclone : Id.run ((host.clone value mask).run.run r) = (.ok copy, r'))
    (hbound : r'.heap.capacity ≤ UInt32.size) : r.heap.CopiedApart r'.heap mask copy := by
  obtain ⟨s, hsave, hload⟩ := exists_of_run_clone hclone
  have hshares : s.SharesUnder mask := by
    obtain ⟨horderly, sites, hs⟩ :=
      Realm.shows_of_save hr.sound.registry.nodup_visibleProperties hsave
    exact hs.sharesUnder horderly hr.sound.slotted hgraph
  obtain ⟨root, built, awoken, hbuild, hawaken, rfl, rfl⟩ := exists_of_run_load rfl hload
  -- there are no instances to be awakened
  have hsleepers : built.sleepers = [] :=
    (Loading.separates_build hshares hr.sound.wellFormed root built hbuild).1.sleepers
  have hheap : awoken.realm.heap = built.heap :=
    congrArg (·.2.heap) (hawaken.symm.trans (Loading.runs_awaken host hsleepers))
  rw [Realm.heap_unprotectAll, hheap] at hbound ⊢
  rw [Realm.expand, hheap]
  exact Loading.copiedApart_build hshares hr hbuild hbound

end Host

namespace Realm

/-- A realm in which an object refers to itself, to an array that holds it, and to the global object. -/
def ofAlbum : Realm Scenario.platform :=
  let r := (ofRegistry .builtins .standard Scenario.Stage.empty).newObject.2
  let r := (r.newArray [.object ⟨1, 0⟩]).2
  let r := after (putProperty ⟨1, 0⟩ "me" (.object ⟨1, 0⟩) false) r
  let r := after (putProperty ⟨1, 0⟩ "all" (.object ⟨2, 0⟩) false) r
  after (putProperty ⟨1, 0⟩ "top" (.object ⟨0, 0⟩) false) r

theorem reachable_ofAlbum : ofAlbum.Reachable := by
  have hsteps : Steps (ofRegistry .builtins .standard Scenario.Stage.empty) ofAlbum :=
    .tail (.tail (.tail (.tail (.single (.newObject _)) (.newArray [.object ⟨1, 0⟩] _))
      (.putProperty ⟨1, 0⟩ "me" (.object ⟨1, 0⟩) false _))
      (.putProperty ⟨1, 0⟩ "all" (.object ⟨2, 0⟩) false _))
      (.putProperty ⟨1, 0⟩ "top" (.object ⟨0, 0⟩) false _)
  have hcapacity : ofAlbum.heap.capacity = 3 := by cbv
  exact ⟨.builtins, .standard, Scenario.Stage.empty, .builtins, hsteps, by rw [hcapacity]; decide⟩

theorem classless_ofAlbum : ofAlbum.heap.ClasslessFrom (.object ⟨1, 0⟩) := by
  have hclass : (ofAlbum.heap.handles.map fun h =>
      (ofAlbum.heap.get? h).bind ScriptObject.class?) = [none, none, none] := by cbv
  intro h object _ hget
  have hmem := List.mem_map_of_mem (f := fun h => (ofAlbum.heap.get? h).bind ScriptObject.class?)
    (Heap.mem_handles_of_get? hget)
  rw [hclass] at hmem
  simpa [hget] using hmem

end Realm

/-- The copy refers to itself, to an array of its own and to the same global object. -/
theorem Host.clone_apart_album :
    Realm.ofAlbum.Reachable ∧ Realm.ofAlbum.heap.ClasslessFrom (.object ⟨1, 0⟩) ∧
    ∃ r', Id.run (((Scenario.hostWithin false 1).clone (.object ⟨1, 0⟩) ["top"]).run.run
        Realm.ofAlbum) = (.ok (.object ⟨3, 0⟩), r') ∧
      r'.heap.capacity = 5 ∧
      (r'.heap.get? ⟨3, 0⟩).map (·.fields.entries) = some [("me", .object ⟨3, 0⟩),
        ("all", .object ⟨4, 0⟩), ("top", .object ⟨0, 0⟩)] ∧
      Realm.ofAlbum.heap.CopiedApart r'.heap ["top"] (.object ⟨3, 0⟩) := by
  have hrun : Id.run (((Scenario.hostWithin false 1).clone (.object ⟨1, 0⟩) ["top"]).run.run
      Realm.ofAlbum) = (.ok (.object ⟨3, 0⟩), after ((Scenario.hostWithin false 1).clone
        (.object ⟨1, 0⟩) ["top"]) Realm.ofAlbum) := Realm.run_of_answer (by cbv)
  have hcapacity : (after ((Scenario.hostWithin false 1).clone (.object ⟨1, 0⟩) ["top"])
      Realm.ofAlbum).heap.capacity = 5 := by cbv
  have hfields : ((after ((Scenario.hostWithin false 1).clone (.object ⟨1, 0⟩) ["top"])
      Realm.ofAlbum).heap.get? ⟨3, 0⟩).map (·.fields.entries) = some [("me", .object ⟨3, 0⟩),
        ("all", .object ⟨4, 0⟩), ("top", .object ⟨0, 0⟩)] := by cbv
  exact ⟨Realm.reachable_ofAlbum, Realm.classless_ofAlbum, _, hrun, hcapacity, hfields,
    clone_apart _ Realm.reachable_ofAlbum Realm.classless_ofAlbum ["top"] hrun
      (Nat.le_trans (Nat.le_of_eq hcapacity) (by decide))⟩

end ScriptBridge
