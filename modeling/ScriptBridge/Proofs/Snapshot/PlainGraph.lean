import ScriptBridge.Proofs.Snapshot.Saving
import ScriptBridge.Proofs.Snapshot.Progress

/-!
# Snapshots of Plain Graphs

A plain graph is made of plain objects and arrays only, holds nothing that a snapshot leaves out, and
has no array inside of itself. Its snapshot shows every object and every value of it: the ways in
which something can be missing from a picture are all closed.

Main statements: `Shows.depicts` and `Depicts.classless`.
-/

namespace ScriptBridge

open Relation (ReflTransGen TransGen)

variable {P : Platform}

/-! ## Plain graphs -/

namespace Heap

/-- An object refers to another one in one of its slots. -/
def Refers (heap : Heap P) (h k : Handle) : Prop :=
  ∃ object, heap.get? h = some object ∧ .object k ∈ object.slots

/-- The objects that are reached from a root by slots make a plain graph. -/
structure PlainGraph (heap : Heap P) (root : Handle) : Prop where
  start : ∃ fields, heap.get? root = some ⟨.plain, fields⟩
  /-- There are only plain objects and arrays without fields. -/
  forms : ∀ h, ReflTransGen heap.Refers root h →
    (∃ fields, heap.get? h = some ⟨.plain, fields⟩) ∨
      ∃ items, heap.get? h = some ⟨.array items, .empty⟩
  /-- Nothing is undefined, and there are no functions. -/
  slots : ∀ h object, ReflTransGen heap.Refers root h → heap.get? h = some object →
    ∀ v ∈ object.slots, v ≠ .undefined ∧ ∀ f, v ≠ .function f
  /-- No field has a name with a meaning of its own. -/
  names : ∀ h fields, ReflTransGen heap.Refers root h → heap.get? h = some ⟨.plain, fields⟩ →
    ∀ name ∈ fields.keys, name ≠ Snapshot.transientField ∧ Snapshot.isReserved name = false
  /-- No array is inside of itself. -/
  acyclic : ∀ h items fields, ReflTransGen heap.Refers root h →
    heap.get? h = some ⟨.array items, fields⟩ → ¬TransGen heap.Refers h h

end Heap

namespace Saving

open Snapshot (Entry Node Visits idAt?)

/-- A value that stands in a plain graph, inside the arrays of `path`. -/
structure Lies (heap : Heap P) (root : Handle) (path : List Handle) (v : Value) : Prop where
  present : v ≠ .undefined
  noFunction : ∀ f, v ≠ .function f
  slotted : v.isInline = false
  reached : ∀ k, v = .object k →
    ReflTransGen heap.Refers root k ∧ ∀ a ∈ path, TransGen heap.Refers a k

section

variable {heap : Heap P} {root : Handle} {path : List Handle}

theorem Lies.of_slot (hslotted : heap.Slotted) (hgraph : heap.PlainGraph root) {h : Handle}
    {object : ScriptObject P} (hreach : ReflTransGen heap.Refers root h)
    (hget : heap.get? h = some object) (hpath : ∀ a ∈ path, ReflTransGen heap.Refers a h) {v : Value}
    (hv : v ∈ object.slots) : Lies heap root path v := by
  obtain ⟨hpresent, hfunction⟩ := hgraph.slots h object hreach hget v hv
  refine ⟨hpresent, hfunction, hslotted h object hget v hv, ?_⟩
  rintro k rfl
  have hrefers : heap.Refers h k := ⟨object, hget, hv⟩
  exact ⟨hreach.tail hrefers, fun a ha => TransGen.tail' (hpath a ha) hrefers⟩

theorem mem_slots_of_item {items : Array Value} {fields : Table Value} {i : Nat} {v : Value}
    (hitem : items[i]? = some v) : v ∈ (⟨.array items, fields⟩ : ScriptObject P).slots := by
  refine List.mem_append_right _ ?_
  exact Array.mem_toList_iff.2 (Array.mem_of_getElem? hitem)

theorem mem_slots_of_field {form : ObjectForm P} {fields : Table Value} {field : String × Value}
    (hfield : field ∈ fields.entries) : field.2 ∈ (⟨form, fields⟩ : ScriptObject P).slots :=
  List.mem_append_left _ (List.mem_map_of_mem hfield)

end

/-! ## What is shown -/

/-- What a value of a plain graph is shown as inside the arrays of `path`. -/
inductive Shown (heap : Heap P) (nodes : Array Node) (sites : List Site) :
    List Handle → Value → Entry → Prop
  | scalar {path : List Handle} {v : Value} {entry : Entry} :
      scalar? v = some entry → Shown heap nodes sites path v entry
  | node {path : List Handle} {h : Handle} {i : Nat} :
      sites[i]? = some ⟨h, path⟩ → Shown heap nodes sites path (.object h) (.node i)
  | stub {path : List Handle} {i : Nat} {site : Site} {id : String} :
      sites[i]? = some site → idAt? nodes i = some id →
      Shown heap nodes sites path (.object site.owner) (.stub id)
  | array {path : List Handle} {a : Handle} {items : Array Value} {entries : List Entry} :
      heap.get? a = some ⟨.array items, .empty⟩ → entries.length = items.size →
      (∀ (i : Nat) v entry, items[i]? = some v → entries[i]? = some entry →
        Shown heap nodes sites (a :: path) v entry) →
      Shown heap nodes sites path (.object a) (.array entries)

section

variable {r : Realm P} {root : Handle} {nodes : Array Node} {sites : List Site} {path : List Handle}

theorem isSingletonInstance_eq_false (hr : r.registry.Sound) {h : Handle} {object : ScriptObject P}
    (hget : r.heap.get? h = some object) (hclass : object.class? = none) :
    r.isSingletonInstance h = false := by
  obtain ⟨plain, hplain, houtline⟩ := hr.object
  obtain ⟨array, harray, haoutline⟩ := hr.array
  obtain ⟨form, fields⟩ := object
  cases form with
  | plain => simp [Realm.isSingletonInstance, Realm.classOf?, hget, hplain, houtline]
  | array items => simp [Realm.isSingletonInstance, Realm.classOf?, hget, harray, haoutline]
  | instanceOf cls native => simp [ScriptObject.class?] at hclass
  | function f => simp [Realm.isSingletonInstance, Realm.classOf?, hget]

/-- A value whose items are shown is the handle of an array. -/
theorem array_of_arrayOf? (hgraph : r.heap.PlainGraph root) {v : Value}
    (hv : Lies r.heap root path v) {origin : Option Handle} {items : List Value}
    (harray : arrayOf? r v = some (origin, items)) :
    ∃ a slots, v = .object a ∧ origin = some a ∧ items = slots.toList ∧
      r.heap.get? a = some ⟨.array slots, .empty⟩ := by
  cases v with
  | object a =>
    obtain ⟨slots, hslots, heq⟩ := Option.map_eq_some_iff.1 harray
    rw [Prod.mk.injEq] at heq
    rcases hgraph.forms a (hv.reached a rfl).1 with ⟨fields, hget⟩ | ⟨slots', hget⟩
    · simp [hget, ScriptObject.items?] at hslots
    · simp only [hget, Option.bind_some, ScriptObject.items?, Option.some.injEq] at hslots
      exact ⟨a, slots', rfl, heq.1.symm, by rw [hslots, heq.2], hget⟩
  | array origin items => exact absurd hv.slotted (by simp [Value.isInline])
  | _ => simp [arrayOf?] at harray

/-- A value that nothing lies inside of, and that can be shown by itself only. -/
theorem Image.shown (hr : r.registry.Sound) (hgraph : r.heap.PlainGraph root) {v : Value}
    {image? : Option Entry} (h : Image r nodes sites path v image?)
    (hv : Lies r.heap root path v) :
    ∃ entry, image? = some entry ∧ Shown r.heap nodes sites path v entry := by
  cases h with
  | scalar hscalar => exact ⟨_, rfl, .scalar hscalar⟩
  | undefined => exact absurd rfl hv.present
  | function => exact absurd rfl (hv.noFunction _)
  | @dead h hdead =>
    rcases hgraph.forms h (hv.reached h rfl).1 with ⟨fields, hget⟩ | ⟨items, hget⟩ <;>
      simp [hget] at hdead
  | @singleton h hsingleton =>
    rcases hgraph.forms h (hv.reached h rfl).1 with ⟨fields, hget⟩ | ⟨items, hget⟩ <;>
      simp [isSingletonInstance_eq_false hr hget rfl] at hsingleton
  | @transient h object hget htransient =>
    have hreach := (hv.reached h rfl).1
    rcases hgraph.forms h hreach with ⟨fields, hget'⟩ | ⟨items, hget'⟩
    · obtain rfl := Option.some.inj (hget.symm.trans hget')
      have hnone : fields.find? Snapshot.transientField = none := by
        rw [Option.eq_none_iff_forall_ne_some]
        intro w hw
        have hmem := (Table.contains_iff fields Snapshot.transientField).1 (by simp [Table.contains, hw])
        exact (hgraph.names h fields hreach hget' _ hmem).1 rfl
      simp [isTransient, ScriptObject.native?, hnone] at htransient
    · obtain rfl := Option.some.inj (hget.symm.trans hget')
      simp [isTransient, ScriptObject.native?] at htransient
  | node hsite => exact ⟨_, rfl, .node hsite⟩
  | stub hsite hid => exact ⟨_, rfl, .stub hsite hid⟩
  | cut harray hmem =>
    obtain ⟨a, slots, rfl, horigin, -, hget⟩ := array_of_arrayOf? hgraph hv harray
    obtain rfl := Option.some.inj horigin
    obtain ⟨hreach, hinside⟩ := hv.reached _ rfl
    exact absurd (hinside _ hmem) (hgraph.acyclic _ slots .empty hreach hget)

theorem forall₂_getElem? {α β : Type} {R : α → β → Prop} {as : List α} {bs : List β}
    (h : List.Forall₂ R as bs) {i : Nat} {a : α} {b : β} (ha : as[i]? = some a)
    (hb : bs[i]? = some b) : R a b := by
  induction h generalizing i with
  | nil => simp at ha
  | cons hab _ ih =>
    cases i with
    | zero =>
      rw [List.getElem?_cons_zero] at ha hb
      exact Option.some.inj ha ▸ Option.some.inj hb ▸ hab
    | succ i =>
      rw [List.getElem?_cons_succ] at ha hb
      exact ih ha hb

/-- Nothing is missing from the picture of the values of a plain graph. -/
theorem Images.shown (hr : r.registry.Sound) (hslotted : r.heap.Slotted)
    (hgraph : r.heap.PlainGraph root) {values : List Value} {images : List (Option Entry)}
    (h : Images r nodes sites path values images) (hvalues : ∀ v ∈ values, Lies r.heap root path v) :
    List.Forall₂ (fun v image? => ∃ entry, image? = some entry ∧
      Shown r.heap nodes sites path v entry) values images := by
  induction h with
  | nil => exact .nil
  | cons himage _ ih =>
    exact .cons (himage.shown hr hgraph (hvalues _ List.mem_cons_self))
      (ih fun v hv => hvalues v (List.mem_cons_of_mem _ hv))
  | @array path value origin items values inside entries harray hcut _ _ ihitems ihrest =>
    have hvalue := hvalues value List.mem_cons_self
    obtain ⟨a, slots, rfl, rfl, rfl, hget⟩ := array_of_arrayOf? hgraph hvalue harray
    obtain ⟨hreach, hinside⟩ := hvalue.reached a rfl
    have hpath : ∀ b ∈ a :: path, ReflTransGen r.heap.Refers b a := by
      intro b hb
      rcases List.mem_cons.1 hb with rfl | hb
      · exact .refl
      · exact (hinside b hb).to_reflTransGen
    have hitems := ihitems fun v hv =>
      Lies.of_slot hslotted hgraph hreach hget hpath (List.mem_append_right _ hv)
    refine .cons ⟨_, rfl, .array hget ?_ ?_⟩ (ihrest fun v hv => hvalues v (List.mem_cons_of_mem _ hv))
    · rw [List.length_map, ← hitems.length_eq, Array.length_toList]
    · intro i v entry hv hentry
      rw [List.getElem?_map, Option.map_eq_some_iff] at hentry
      obtain ⟨image?, himage, rfl⟩ := hentry
      rw [← Array.getElem?_toList] at hv
      obtain ⟨entry, rfl, hshown⟩ := forall₂_getElem? hitems hv himage
      exact hshown

/-! ## Nodes -/

/-- A field of a plain object is shown by an entry of its own name. -/
theorem FieldImage.shown (hr : r.registry.Sound) (hslotted : r.heap.Slotted)
    (hgraph : r.heap.PlainGraph root) {site : Site} {field : String × Value}
    {image? : Option (String × Entry)} (h : FieldImage r none nodes sites site [] field image?)
    (hname : field.1 ≠ Snapshot.transientField ∧ Snapshot.isReserved field.1 = false)
    (hvalue : Lies r.heap root site.path field.2) :
    ∃ entry, image? = some (field.1, entry) ∧ Shown r.heap nodes sites site.path field.2 entry := by
  cases h with
  | skipped hskipped =>
    rcases hskipped with htransient | hpresent | hreserved
    · exact absurd htransient hname.1
    · simp at hpresent
    · rw [hname.2] at hreserved
      exact Bool.noConfusion hreserved
  | @function key f => exact absurd rfl (hvalue.noFunction f)
  | @value key v image? _ _ _ _ hmember =>
    cases hmember with
    | shared hshared => simp [shared?] at hshared
    | own _ himages =>
      obtain ⟨⟩ | ⟨⟨entry, rfl, hshown⟩, -⟩ := himages.shown hr hslotted hgraph (by simpa using hvalue)
      exact ⟨entry, rfl, hshown⟩

theorem forall₂_reduceOption {α β : Type} {R : α → β → Prop} {as : List α} {bs : List (Option β)}
    (h : List.Forall₂ (fun a b? => ∃ b, b? = some b ∧ R a b) as bs) :
    List.Forall₂ R as bs.reduceOption := by
  induction h with
  | nil => exact .nil
  | cons hab _ ih =>
    obtain ⟨b, rfl, hr⟩ := hab
    rw [List.reduceOption_cons_of_some]
    exact .cons hr ih

/-- A field and the entry that shows it. -/
def ShownAs (heap : Heap P) (nodes : Array Node) (sites : List Site) (path : List Handle)
    (field : String × Value) (entry : String × Entry) : Prop :=
  entry.1 = field.1 ∧ Shown heap nodes sites path field.2 entry.2

/-- The node of a plain object has an entry for each field, and nothing else. -/
def NodeShown (heap : Heap P) (nodes : Array Node) (sites : List Site) (site : Site) (node : Node) :
    Prop :=
  ∃ fields, heap.get? site.owner = some ⟨.plain, fields⟩ ∧ node.className = none ∧
    List.Forall₂ (ShownAs heap nodes sites site.path) fields.entries node.entries.entries

/-- A site is where a walk from the root can be. -/
def Site.Within (heap : Heap P) (root : Handle) (site : Site) : Prop :=
  ReflTransGen heap.Refers root site.owner ∧ ∀ a ∈ site.path, TransGen heap.Refers a site.owner

theorem Content.shown (hr : r.Sound) (hgraph : r.heap.PlainGraph root) {site : Site} {node : Node}
    {object : ScriptObject P} (h : Content r none nodes sites site node object)
    (hsite : site.Within r.heap root) : NodeShown r.heap nodes sites site node := by
  obtain ⟨fields, hget⟩ : ∃ fields, r.heap.get? site.owner = some ⟨.plain, fields⟩ := by
    rcases hgraph.forms site.owner hsite.1 with hplain | ⟨items, hget⟩
    · exact hplain
    · obtain rfl := Option.some.inj (h.alive.symm.trans hget)
      exact absurd h.container (by simp [ScriptObject.items?])
  obtain rfl := Option.some.inj (h.alive.symm.trans hget)
  have hclass : registered? r (⟨.plain, fields⟩ : ScriptObject P) = none := by
    simp [registered?, ScriptObject.class?]
  refine ⟨fields, hget, by rw [h.className, hclass]; rfl, ?_⟩
  obtain ⟨properties, images, hproperties, himages, hentries⟩ := h.entries
  have hnil : properties = [] := by
    rw [propertiesOf, hclass] at hproperties
    exact List.forall₂_nil_left_iff.1 hproperties
  subst hnil
  rw [hentries]
  refine forall₂_reduceOption
    (((List.forall₂_and_left _ _).2 ⟨fun field hfield => hfield, himages⟩).imp ?_)
  rintro field image? ⟨hfield, himage⟩
  obtain ⟨entry, himage, hshown⟩ := himage.shown hr.registry hr.slotted hgraph
    (hgraph.names site.owner fields hsite.1 hget field.1 (List.mem_map_of_mem hfield))
    (Lies.of_slot hr.slotted hgraph hsite.1 hget (fun a ha => (hsite.2 a ha).to_reflTransGen)
      (mem_slots_of_field hfield))
  exact ⟨_, himage, rfl, hshown⟩

/-- Whatever node a walk meets is at the site of an object that a walk through the graph meets. -/
theorem visited_within (hr : r.Sound) (hgraph : r.heap.PlainGraph root)
    (hcontent : ∀ (i : Nat) node site, nodes[i]? = some node → sites[i]? = some site →
      ∃ object, Content r none nodes sites site node object)
    {room : Nat} {entries : List Entry} {met : List Nat} (h : Visits nodes room entries met)
    (hentries : ∀ entry ∈ entries, ∃ path v, Lies r.heap root path v ∧
      Shown r.heap nodes sites path v entry) :
    ∀ i ∈ met, ∀ site, sites[i]? = some site → site.Within r.heap root := by
  -- along the walk; its values lie where their sites say
  induction h with
  | nil => simp
  | leaf _ _ ih => exact ih fun entry hentry => hentries entry (List.mem_cons_of_mem _ hentry)
  | @array room items rest inside after _ _ ihitems ihrest =>
    obtain ⟨path, v, hv, hshown⟩ := hentries _ List.mem_cons_self
    have hinside : ∀ item ∈ items, ∃ path v, Lies r.heap root path v ∧
        Shown r.heap nodes sites path v item := by
      cases hshown with
      | scalar hscalar => cases v <;> simp [scalar?] at hscalar
      | @array _ a slots _ hget hsize hitems =>
        intro item hitem
        obtain ⟨i, hi⟩ := List.mem_iff_getElem?.1 hitem
        have hlt : i < slots.size := hsize ▸ (List.getElem?_eq_some_iff.1 hi).1
        have hslot : slots[i]? = some slots[i] := Array.getElem?_eq_getElem hlt
        obtain ⟨hreach, hpath⟩ := hv.reached a rfl
        refine ⟨a :: path, slots[i], ?_, hitems i _ _ hslot hi⟩
        refine Lies.of_slot hr.slotted hgraph hreach hget ?_ (mem_slots_of_item hslot)
        intro b hb
        rcases List.mem_cons.1 hb with rfl | hb
        · exact .refl
        · exact (hpath b hb).to_reflTransGen
    intro i hi
    rcases List.mem_append.1 hi with hi | hi
    · exact ihitems hinside i hi
    · exact ihrest (fun entry hentry => hentries entry (List.mem_cons_of_mem _ hentry)) i hi
  | @node room index node rest inside after hnode _ _ ihvalues ihrest =>
    obtain ⟨path, v, hv, hshown⟩ := hentries _ List.mem_cons_self
    obtain ⟨site, hsite, hwithin⟩ : ∃ site, sites[index]? = some site ∧ site.Within r.heap root := by
      cases hshown with
      | scalar hscalar => cases v <;> simp [scalar?] at hscalar
      | node hsite => exact ⟨_, hsite, hv.reached _ rfl⟩
    obtain ⟨object, hobject⟩ := hcontent index node site hnode hsite
    obtain ⟨fields, hget, -, hfields⟩ := hobject.shown hr hgraph hwithin
    have hinside : ∀ entry ∈ node.entries.values, ∃ path v, Lies r.heap root path v ∧
        Shown r.heap nodes sites path v entry := by
      intro entry hentry
      obtain ⟨named, hnamed, rfl⟩ := List.mem_map.1 hentry
      obtain ⟨field, hfield, -, hshown⟩ := exists_of_forall₂_right hfields hnamed
      refine ⟨site.path, field.2, ?_, hshown⟩
      exact Lies.of_slot hr.slotted hgraph hwithin.1 hget
        (fun a ha => (hwithin.2 a ha).to_reflTransGen) (mem_slots_of_field hfield)
    intro i hi
    rcases List.mem_cons.1 hi with rfl | hi
    · intro site' hsite'
      rw [hsite] at hsite'
      exact Option.some.inj hsite' ▸ hwithin
    · rcases List.mem_append.1 hi with hi | hi
      · exact ihvalues hinside i hi
      · exact ihrest (fun entry hentry => hentries entry (List.mem_cons_of_mem _ hentry)) i hi

end

/-! ## Snapshots -/

/-- A snapshot shows a plain graph completely: the plain objects of the graph have one node each, with
an entry for each field. -/
structure Depicts (heap : Heap P) (root : Handle) (s : Snapshot) (sites : List Site) : Prop where
  size : sites.length = s.nodes.size
  nodup : (sites.map Site.owner).Nodup
  node : ∀ (i : Nat) node site, s.nodes[i]? = some node → sites[i]? = some site →
    ReflTransGen heap.Refers root site.owner ∧ NodeShown heap s.nodes sites site node
  start : ∃ i, s.root = .node i ∧ sites[i]? = some ⟨root, []⟩
  /-- No plain object is missing. -/
  all : ∀ h fields, ReflTransGen heap.Refers root h → heap.get? h = some ⟨.plain, fields⟩ →
    ∃ (i : Nat) (site : Site), sites[i]? = some site ∧ site.owner = h

section

variable {r : Realm P} {root : Handle} {s : Snapshot} {sites : List Site} {room : Nat}

theorem lies_root (root : Handle) (heap : Heap P) : Lies heap root [] (.object root) := by
  refine ⟨by simp, by simp, rfl, fun k hk => ?_⟩
  rw [← Value.object.inj hk]
  exact ⟨.refl, by simp⟩

/-- The root of a plain graph has a node. -/
theorem Shows.root_node (hr : r.Sound) (hgraph : r.heap.PlainGraph root)
    (hshows : Shows r none (.object root) s sites) (horderly : s.Orderly room) :
    ∃ i, s.root = .node i ∧ sites[i]? = some ⟨root, []⟩ := by
  obtain ⟨image?, hroot, himages⟩ := hshows.root
  obtain ⟨⟩ | ⟨⟨entry, rfl, hshown⟩, -⟩ := himages.shown hr.registry hr.slotted hgraph
    (by simpa using lies_root root r.heap)
  rw [Option.getD_some] at hroot
  subst hroot
  generalize hentry : s.root = entry at hshown
  cases hshown with
  | scalar hscalar => simp [scalar?] at hscalar
  | node hsite => exact ⟨_, rfl, hsite⟩
  | @stub _ i site id hsite =>
    -- a walk that starts with a stub meets nothing
    have hvisits := horderly.preorder
    rw [hentry] at hvisits
    generalize hmet : List.range s.nodes.size = met at hvisits
    cases hvisits with
    | leaf _ hrest =>
      cases hrest
      have hlt := (List.getElem?_eq_some_iff.1 hsite).1
      rw [hshows.size] at hlt
      simp only [List.range_eq_nil] at hmet
      omega
  | array hget =>
    obtain ⟨fields, hplain⟩ := hgraph.start
    rw [hget] at hplain
    simp at hplain

theorem exists_of_forall₂_left {α β : Type} {R : α → β → Prop} {as : List α} {bs : List β}
    (h : List.Forall₂ R as bs) {a : α} (ha : a ∈ as) : ∃ b ∈ bs, R a b :=
  exists_of_forall₂_right (List.Forall₂.flip h) ha

/-- With an object all that it refers to is shown. -/
theorem Shown.slot {heap : Heap P} {nodes : Array Node} {path : List Handle} {h : Handle} {entry : Entry}
    (hshown : Shown heap nodes sites path (.object h) entry)
    (hsites : ∀ (i : Nat) site, sites[i]? = some site → ∃ node, NodeShown heap nodes sites site node)
    {object : ScriptObject P} (hget : heap.get? h = some object) {v : Value} (hv : v ∈ object.slots) :
    ∃ path' entry', Shown heap nodes sites path' v entry' := by
  have hplain : ∀ (i : Nat) site, sites[i]? = some site → site.owner = h →
      ∃ path' entry', Shown heap nodes sites path' v entry' := by
    rintro i site hsite rfl
    obtain ⟨node, fields, hfields, -, hentries⟩ := hsites i site hsite
    obtain rfl := Option.some.inj (hget.symm.trans hfields)
    simp only [ScriptObject.slots, ScriptObject.items?, Option.elim_none, List.append_nil] at hv
    obtain ⟨field, hfield, rfl⟩ := List.mem_map.1 hv
    obtain ⟨named, -, -, hshown⟩ := exists_of_forall₂_left hentries hfield
    exact ⟨site.path, named.2, hshown⟩
  cases hshown with
  | scalar hscalar => simp [scalar?] at hscalar
  | node hsite => exact hplain _ _ hsite rfl
  | stub hsite => exact hplain _ _ hsite rfl
  | @array _ a items entries hget' hsize hitems =>
    obtain rfl := Option.some.inj (hget.symm.trans hget')
    have hitem : v ∈ items := Array.mem_toList_iff.1 hv
    obtain ⟨i, hi⟩ := Array.mem_iff_getElem?.1 hitem
    have hlt : i < entries.length := hsize ▸ (Array.getElem?_eq_some_iff.1 hi).1
    exact ⟨_, _, hitems i v _ hi (List.getElem?_eq_getElem hlt)⟩

/-- A snapshot of a plain graph shows the graph completely. -/
theorem Shows.depicts (hr : r.Sound) (hgraph : r.heap.PlainGraph root)
    (hshows : Shows r none (.object root) s sites) (horderly : s.Orderly room) :
    Depicts r.heap root s sites := by
  obtain ⟨start, hroot, hstart⟩ := hshows.root_node hr hgraph horderly
  have hshown : Shown r.heap s.nodes sites [] (.object root) s.root := by
    rw [hroot]
    exact .node hstart
  have hwithin : ∀ (i : Nat) site, sites[i]? = some site → site.Within r.heap root := by
    intro i site hsite
    refine visited_within hr hgraph hshows.content horderly.preorder ?_ i ?_ site hsite
    · intro entry hentry
      rw [List.mem_singleton] at hentry
      exact ⟨[], _, lies_root root r.heap, hentry ▸ hshown⟩
    · rw [List.mem_range, ← hshows.size]
      exact (List.getElem?_eq_some_iff.1 hsite).1
  have hnode : ∀ (i : Nat) node site, s.nodes[i]? = some node → sites[i]? = some site →
      ReflTransGen r.heap.Refers root site.owner ∧ NodeShown r.heap s.nodes sites site node := by
    intro i node site hnode hsite
    obtain ⟨object, hobject⟩ := hshows.content i node site hnode hsite
    exact ⟨(hwithin i site hsite).1, hobject.shown hr hgraph (hwithin i site hsite)⟩
  have hsites : ∀ (i : Nat) site, sites[i]? = some site →
      ∃ node, NodeShown r.heap s.nodes sites site node := by
    intro i site hsite
    have hlt : i < s.nodes.size := hshows.size ▸ (List.getElem?_eq_some_iff.1 hsite).1
    exact ⟨_, (hnode i _ site (Array.getElem?_eq_getElem hlt) hsite).2⟩
  -- whatever the graph leads to is shown somewhere, by induction on the way to it
  have hreached : ∀ h, ReflTransGen r.heap.Refers root h →
      ∃ path entry, Shown r.heap s.nodes sites path (.object h) entry := by
    intro h hreach
    induction hreach with
    | refl => exact ⟨[], s.root, hshown⟩
    | tail _ hrefers ih =>
      obtain ⟨path, entry, hshown⟩ := ih
      obtain ⟨object, hget, hslot⟩ := hrefers
      exact hshown.slot hsites hget hslot
  refine ⟨hshows.size, hshows.nodup, hnode, ⟨start, hroot, hstart⟩, fun h fields hreach hget => ?_⟩
  obtain ⟨path, entry, hshown⟩ := hreached h hreach
  -- a plain object is shown by its node, or by a stub that names the node
  cases hshown with
  | scalar hscalar => simp [scalar?] at hscalar
  | node hsite => exact ⟨_, _, hsite, rfl⟩
  | stub hsite => exact ⟨_, _, hsite, rfl⟩
  | array hget' =>
    rw [hget] at hget'
    simp at hget'

/-! ## What loading may rely on -/

theorem anyLive_eq_false {entries : List Entry} (h : ∀ entry ∈ entries, entry.isLive = false) :
    Entry.anyLive entries = false := by
  induction entries with
  | nil => rfl
  | cons entry entries ih =>
    rw [Entry.anyLive, h entry List.mem_cons_self, Bool.false_or]
    exact ih fun entry hentry => h entry (List.mem_cons_of_mem _ hentry)

theorem Shown.isLive {heap : Heap P} {nodes : Array Node} {path : List Handle} {v : Value}
    {entry : Entry} (h : Shown heap nodes sites path v entry) : entry.isLive = false := by
  induction h with
  | @scalar path v entry hscalar =>
    cases v <;> simp only [scalar?, Option.some.injEq, reduceCtorEq] at hscalar <;>
      (rw [← hscalar]; rfl)
  | node => rfl
  | stub => rfl
  | @array path a items entries _ hsize _ ih =>
    refine anyLive_eq_false fun entry hentry => ?_
    obtain ⟨i, hi⟩ := List.mem_iff_getElem?.1 hentry
    have hlt : i < items.size := hsize ▸ (List.getElem?_eq_some_iff.1 hi).1
    exact ih i _ entry (Array.getElem?_eq_getElem hlt) hi

theorem functionOf?_eq_none {entry : String × Entry} (h : Snapshot.isReserved entry.1 = false) :
    Snapshot.functionOf? entry = none := by
  obtain ⟨key, entry⟩ := entry
  have hname := (Snapshot.isReserved_eq_false_iff.1 h).2.2.2
  cases entry <;> simp [Snapshot.functionOf?, hname]

theorem keys_of_forall₂ {heap : Heap P} {nodes : Array Node} {path : List Handle}
    {fields : List (String × Value)} {entries : List (String × Entry)}
    (h : List.Forall₂ (ShownAs heap nodes sites path) fields entries) :
    entries.map Prod.fst = fields.map Prod.fst := by
  induction h with
  | nil => rfl
  | cons hshown _ ih => rw [List.map_cons, List.map_cons, hshown.1, ih]

/-- No entry of a node is about a function. -/
theorem Depicts.functionOf? {heap : Heap P} (h : Depicts heap root s sites)
    (hgraph : heap.PlainGraph root)
    {i : Nat} {node : Node} (hnode : s.nodes[i]? = some node) {entry : String × Entry}
    (hentry : entry ∈ node.entries.entries) : Snapshot.functionOf? entry = none := by
  have hlt : i < sites.length := h.size ▸ (Array.getElem?_eq_some_iff.1 hnode).1
  obtain ⟨hreach, fields, hget, -, hfields⟩ := h.node i node _ hnode (List.getElem?_eq_getElem hlt)
  have hmem : entry.1 ∈ fields.keys := by
    rw [Table.keys, ← keys_of_forall₂ hfields]
    exact List.mem_map_of_mem hentry
  exact functionOf?_eq_none (hgraph.names _ fields hreach hget entry.1 hmem).2

/-- Nothing is lost when the snapshot of a plain graph is read. -/
theorem Depicts.classless {heap : Heap P} (h : Depicts heap root s sites)
    (hgraph : heap.PlainGraph root) (horderly : s.Orderly room) : s.Classless := by
  have hsite : ∀ (i : Nat) node, s.nodes[i]? = some node →
      ∃ site, NodeShown heap s.nodes sites site node := by
    intro i node hnode
    have hlt : i < sites.length := h.size ▸ (Array.getElem?_eq_some_iff.1 hnode).1
    exact ⟨_, (h.node i node _ hnode (List.getElem?_eq_getElem hlt)).2⟩
  constructor
  case distinct => exact horderly.distinct
  case noClass =>
    intro node hnode
    obtain ⟨i, hi⟩ := Array.mem_iff_getElem?.1 hnode
    obtain ⟨site, fields, -, hclass, -⟩ := hsite i node hi
    exact hclass
  case lifeless =>
    obtain ⟨start, hroot, -⟩ := h.start
    have hlive : (Entry.node start).isLive = false := rfl
    rw [Snapshot.holdsLiveObjects, hroot, hlive, Bool.false_or, Array.any_eq_false]
    intro i hi
    obtain ⟨site, fields, -, -, hfields⟩ := hsite i _ (Array.getElem?_eq_getElem hi)
    rw [Bool.not_eq_true, List.any_eq_false]
    intro entry hentry
    obtain ⟨named, hnamed, rfl⟩ := List.mem_map.1 hentry
    obtain ⟨field, -, -, hshown⟩ := exists_of_forall₂_right hfields hnamed
    rw [hshown.isLive]
    exact Bool.false_ne_true
  case names =>
    intro node hnode
    obtain ⟨i, hi⟩ := Array.mem_iff_getElem?.1 hnode
    have hkeys : node.entries.entries.map Snapshot.fieldName = node.entries.keys := by
      refine List.map_congr_left fun entry hentry => ?_
      exact Loading.fieldName_of_none (h.functionOf? hgraph hi hentry)
    rw [hkeys]
    exact node.entries.nodup

end

end Saving

end ScriptBridge
