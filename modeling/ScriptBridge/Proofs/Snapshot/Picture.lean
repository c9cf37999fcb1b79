import ScriptBridge.Proofs.Snapshot.Layout
import ScriptBridge.Snapshot.Saving
import Mathlib.Data.List.ReduceOption

/-!
# What Snapshots Show

The picture that a snapshot gives of a graph, told without the order in which it was made. A site
says of a node which object it shows and inside of which arrays that object was met. Entries show
values: the node of an object or a stub that names it, an array by its items, everything else by
itself, and null in place of what is dead, of a singleton and of an array inside of itself.

Main statement: `Images.mono`, by which a picture stays right when nodes are added and receive
identifiers.
-/

namespace ScriptBridge.Saving

open Snapshot (Entry idAt?)

variable {P : Platform}

/-- Where the object of a node was met. -/
structure Site where
  /-- The object. -/
  owner : Handle
  /-- The arrays around it, since the last object with a node. -/
  path : List Handle

/-- The entry of a value that nothing lies inside of. -/
def scalar? : Value → Option Entry
  | .null => some .null
  | .bool b => some (.bool b)
  | .byte n => some (.int (.ofNat n.toNat))
  | .int n => some (.int (.ofInt n.toInt))
  | .float x => some (.double (Number.asWritten x))
  | .double x => some (.double x)
  | .string text => some (.string text)
  | _ => none

/-- The items of a value that is an array, and the heap array that they come from. -/
def arrayOf? (r : Realm P) : Value → Option (Option Handle × List Value)
  | .array origin items => some (origin, items)
  | .object h => ((r.heap.get? h).bind ScriptObject.items?).map fun items => (some h, items.toList)
  | _ => none

/-! ## Values -/

section

variable (r : Realm P) (nodes : Array Snapshot.Node) (sites : List Site)

/-- What a value is shown as inside the arrays of `path`, unless its items are shown; `none` if it
is left out. -/
inductive Image (path : List Handle) : Value → Option Entry → Prop
  | scalar {value : Value} {entry : Entry} :
      scalar? value = some entry → Image path value (some entry)
  | undefined : Image path .undefined none
  | function {f : Handle} : Image path (.function f) none
  | dead {h : Handle} : r.heap.get? h = none → Image path (.object h) (some .null)
  | singleton {h : Handle} :
      r.isSingletonInstance h = true → Image path (.object h) (some .null)
  | transient {h : Handle} {object : ScriptObject P} :
      r.heap.get? h = some object → isTransient object = true → Image path (.object h) none
  | node {h : Handle} {index : Nat} :
      sites[index]? = some ⟨h, path⟩ → Image path (.object h) (some (.node index))
  | stub {index : Nat} {site : Site} {id : String} :
      sites[index]? = some site → idAt? nodes index = some id →
      Image path (.object site.owner) (some (.stub id))
  | cut {value : Value} {h : Handle} {items : List Value} :
      arrayOf? r value = some (some h, items) → h ∈ path → Image path value (some .null)

/-- What values are shown as, one by one. -/
inductive Images : List Handle → List Value → List (Option Entry) → Prop
  | nil {path : List Handle} : Images path [] []
  | cons {path : List Handle} {value : Value} {image? : Option Entry} {values : List Value}
      {entries : List (Option Entry)} :
      Image r nodes sites path value image? → Images path values entries →
      Images path (value :: values) (image? :: entries)
  | array {path : List Handle} {value : Value} {origin : Option Handle} {items values : List Value}
      {inside entries : List (Option Entry)} :
      arrayOf? r value = some (origin, items) → (∀ h, origin = some h → h ∉ path) →
      Images (origin.toList ++ path) items inside → Images path values entries →
      Images path (value :: values)
        (some (.array (inside.map fun image? => image?.getD .null)) :: entries)

end

section

variable {r : Realm P} {nodes nodes' : Array Snapshot.Node} {sites sites' : List Site}

private theorem site_kept (hsites : sites <+: sites') {i : Nat} {site : Site}
    (hsite : sites[i]? = some site) : sites'[i]? = some site := by
  obtain ⟨more, rfl⟩ := hsites
  rw [List.getElem?_append_left (List.getElem?_eq_some_iff.1 hsite).1]
  exact hsite

theorem Image.mono {path : List Handle} {value : Value} {image? : Option Entry}
    (h : Image r nodes sites path value image?) (hsites : sites <+: sites')
    (hids : ∀ i id, idAt? nodes i = some id → idAt? nodes' i = some id) :
    Image r nodes' sites' path value image? := by
  cases h with
  | scalar hscalar => exact .scalar hscalar
  | undefined => exact .undefined
  | function => exact .function
  | dead hdead => exact .dead hdead
  | singleton hsingleton => exact .singleton hsingleton
  | transient hget htransient => exact .transient hget htransient
  | node hsite => exact .node (site_kept hsites hsite)
  | stub hsite hid => exact .stub (site_kept hsites hsite) (hids _ _ hid)
  | cut harray hmem => exact .cut harray hmem

/-- A picture stays right when nodes are added and receive identifiers. -/
theorem Images.mono {path : List Handle} {values : List Value} {entries : List (Option Entry)}
    (h : Images r nodes sites path values entries) (hsites : sites <+: sites')
    (hids : ∀ i id, idAt? nodes i = some id → idAt? nodes' i = some id) :
    Images r nodes' sites' path values entries := by
  induction h with
  | nil => exact .nil
  | cons himage _ ih => exact .cons (himage.mono hsites hids) ih
  | array harray hpath _ _ ihitems ihrest => exact .array harray hpath ihitems ihrest

theorem Images.single {path : List Handle} {value : Value} {image? : Option Entry}
    (h : Image r nodes sites path value image?) : Images r nodes sites path [value] [image?] :=
  .cons h .nil

theorem Images.append {path : List Handle} {values more : List Value}
    {entries rest : List (Option Entry)} (h : Images r nodes sites path values entries)
    (h' : Images r nodes sites path more rest) :
    Images r nodes sites path (values ++ more) (entries ++ rest) := by
  induction h with
  | nil => exact h'
  | cons himage _ ih => exact .cons himage (ih h')
  | array harray hpath hitems _ _ ih => exact .array harray hpath hitems (ih h')

end

/-! ## Nodes -/

/-- The registered class that a node names. -/
def registered? (r : Realm P) (object : ScriptObject P) : Option (ClassNumber × String) :=
  object.class?.bind fun c =>
    (r.registry.get? c).bind fun d => if d.outline.builtin then none else some (c, d.outline.name)

/-- The properties that an object has by its class. -/
def propertiesOf (r : Realm P) (object : ScriptObject P) : List (BoundProperty P) :=
  (registered? r object).elim [] fun named => r.registry.visibleProperties named.1

/-- The source text of the function behind a handle. -/
def sourceOf? (r : Realm P) (f : Handle) : Option String :=
  (r.heap.get? f).bind fun object => object.function?.bind FunctionObject.source?

section

variable (r : Realm P) (mask? : Option (List String)) (nodes : Array Snapshot.Node)
  (sites : List Site)

/-- What a value under a name is shown as. -/
inductive Member (path : List Handle) (name : String) (value : Value) : Option Entry → Prop
  | shared {h : Handle} :
      shared? mask? name value = some h → Member path name value (some (.reference h))
  | own {image? : Option Entry} :
      shared? mask? name value = none → Images r nodes sites path [value] [image?] →
      Member path name value image?

/-- What a property is shown as. -/
inductive PropertyImage (site : Site) (binding : BoundProperty P) : Option (String × Entry) → Prop
  | skipped : (isSaved mask? binding && !Snapshot.isReserved binding.name) = false →
      PropertyImage site binding none
  | saved {value : Value} {image? : Option Entry} :
      (isSaved mask? binding && !Snapshot.isReserved binding.name) = true →
      r.property site.owner binding.name = .ok value →
      Member r mask? nodes sites site.path binding.name value image? →
      PropertyImage site binding (image?.map (binding.name, ·))

/-- What a field is shown as, beside the entries of the keys `present`. -/
inductive FieldImage (site : Site) (present : List String) :
    String × Value → Option (String × Entry) → Prop
  | skipped {key : String} {value : Value} :
      key = Snapshot.transientField ∨ key ∈ present ∨ Snapshot.isReserved key = true →
      FieldImage site present (key, value) none
  | function {key : String} {f : Handle} :
      key ≠ Snapshot.transientField → key ∉ present → Snapshot.isReserved key = false →
      FieldImage site present (key, .function f)
        ((sourceOf? r f).map fun source => (Snapshot.functionKey key, .string source))
  | value {key : String} {value : Value} {image? : Option Entry} :
      key ≠ Snapshot.transientField → key ∉ present → Snapshot.isReserved key = false →
      value.function? = none → Member r mask? nodes sites site.path key value image? →
      FieldImage site present (key, value) (image?.map (key, ·))

/-- A node shows an object: the properties of its class first, then its fields. -/
structure Content (site : Site) (node : Snapshot.Node) (object : ScriptObject P) : Prop where
  /-- The object is alive. -/
  alive : r.heap.get? site.owner = some object
  /-- It is not an array. -/
  container : object.items? = none
  /-- The node names its class, if that is a registered one. -/
  className : node.className = (registered? r object).map Prod.snd
  /-- The entries come from its properties and its fields, in their order. -/
  entries : ∃ properties fields : List (Option (String × Entry)),
    List.Forall₂ (PropertyImage r mask? nodes sites site) (propertiesOf r object) properties ∧
    List.Forall₂ (FieldImage r mask? nodes sites site (properties.reduceOption.map Prod.fst))
      object.fields.entries fields ∧
    node.entries.entries = properties.reduceOption ++ fields.reduceOption

end

section

variable {r : Realm P} {mask? : Option (List String)} {nodes nodes' : Array Snapshot.Node}
  {sites sites' : List Site}

theorem exists_of_forall₂_right {α β : Type} {R : α → β → Prop} {as : List α} {bs : List β}
    (h : List.Forall₂ R as bs) {b : β} (hb : b ∈ bs) : ∃ a ∈ as, R a b := by
  induction h with
  | nil => simp at hb
  | @cons a b' as bs hab _ ih =>
    rcases List.mem_cons.1 hb with rfl | hb
    · exact ⟨a, List.mem_cons_self, hab⟩
    · obtain ⟨a', ha', hr⟩ := ih hb
      exact ⟨a', List.mem_cons_of_mem _ ha', hr⟩

theorem Member.mono {path : List Handle} {name : String} {value : Value} {image? : Option Entry}
    (h : Member r mask? nodes sites path name value image?) (hsites : sites <+: sites')
    (hids : ∀ i id, idAt? nodes i = some id → idAt? nodes' i = some id) :
    Member r mask? nodes' sites' path name value image? := by
  cases h with
  | shared hshared => exact .shared hshared
  | own hown himages => exact .own hown (himages.mono hsites hids)

theorem PropertyImage.mono {site : Site} {binding : BoundProperty P}
    {out : Option (String × Entry)} (h : PropertyImage r mask? nodes sites site binding out)
    (hsites : sites <+: sites')
    (hids : ∀ i id, idAt? nodes i = some id → idAt? nodes' i = some id) :
    PropertyImage r mask? nodes' sites' site binding out := by
  cases h with
  | skipped hskipped => exact .skipped hskipped
  | saved hsaved hvalue hmember => exact .saved hsaved hvalue (hmember.mono hsites hids)

theorem FieldImage.mono {site : Site} {present : List String} {field : String × Value}
    {out : Option (String × Entry)} (h : FieldImage r mask? nodes sites site present field out)
    (hsites : sites <+: sites')
    (hids : ∀ i id, idAt? nodes i = some id → idAt? nodes' i = some id) :
    FieldImage r mask? nodes' sites' site present field out := by
  cases h with
  | skipped hskipped => exact .skipped hskipped
  | function hkey hnew hfree => exact .function hkey hnew hfree
  | value hkey hnew hfree hvalue hmember =>
    exact .value hkey hnew hfree hvalue (hmember.mono hsites hids)

theorem Content.mono {site : Site} {node : Snapshot.Node} {object : ScriptObject P}
    (h : Content r mask? nodes sites site node object) (hsites : sites <+: sites')
    (hids : ∀ i id, idAt? nodes i = some id → idAt? nodes' i = some id) :
    Content r mask? nodes' sites' site node object := by
  obtain ⟨properties, fields, hproperties, hfields, hentries⟩ := h.entries
  refine ⟨h.alive, h.container, h.className, properties, fields, ?_, ?_, hentries⟩
  · exact hproperties.imp fun _ _ himage => himage.mono hsites hids
  · exact hfields.imp fun _ _ himage => himage.mono hsites hids

theorem Content.congr {site : Site} {node node' : Snapshot.Node} {object : ScriptObject P}
    (h : Content r mask? nodes sites site node object) (hclass : node'.className = node.className)
    (hentries : node'.entries = node.entries) :
    Content r mask? nodes sites site node' object :=
  ⟨h.alive, h.container, by rw [hclass, h.className], by rw [hentries]; exact h.entries⟩

theorem PropertyImage.key {site : Site} {binding : BoundProperty P} {key : String} {entry : Entry}
    (h : PropertyImage r mask? nodes sites site binding (some (key, entry))) :
    key = binding.name ∧ Snapshot.isReserved key = false := by
  generalize hout : some (key, entry) = out at h
  cases h with
  | skipped => simp at hout
  | @saved value image? hsaved _ _ =>
    cases image? with
    | none => simp at hout
    | some entry' =>
      simp only [Option.map_some, Option.some.injEq, Prod.mk.injEq] at hout
      rw [hout.1]
      refine ⟨rfl, ?_⟩
      simp only [Bool.and_eq_true, Bool.not_eq_true'] at hsaved
      exact hsaved.2

theorem FieldImage.key {site : Site} {present : List String} {field : String × Value}
    {key : String} {entry : Entry}
    (h : FieldImage r mask? nodes sites site present field (some (key, entry))) :
    Snapshot.isReserved field.1 = false ∧ (key = field.1 ∨
      key = Snapshot.functionKey field.1 ∧ ∃ text, entry = .string text) := by
  generalize hout : some (key, entry) = out at h
  cases h with
  | skipped => simp at hout
  | @function name f _ _ hfree =>
    cases hsource : sourceOf? r f with
    | none => simp [hsource] at hout
    | some source =>
      simp only [hsource, Option.map_some, Option.some.injEq, Prod.mk.injEq] at hout
      exact ⟨hfree, Or.inr ⟨hout.1, source, hout.2⟩⟩
  | @value name value image? _ _ hfree _ _ =>
    cases image? with
    | none => simp at hout
    | some entry' =>
      simp only [Option.map_some, Option.some.injEq, Prod.mk.injEq] at hout
      exact ⟨hfree, Or.inl hout.1⟩

/-- A snapshot shows the graph of a value: each node the object of its site, no object twice, and the
root the value itself, which may be left out. -/
structure Shows (r : Realm P) (mask? : Option (List String)) (value : Value) (s : Snapshot)
    (sites : List Site) : Prop where
  /-- Each node has a site. -/
  size : sites.length = s.nodes.size
  /-- No object has two nodes. -/
  nodup : (sites.map Site.owner).Nodup
  /-- The node of a site shows the object. -/
  content : ∀ (i : Nat) (node : Snapshot.Node) (site : Site), s.nodes[i]? = some node →
    sites[i]? = some site → ∃ object, Content r mask? s.nodes sites site node object
  /-- The root shows the value. -/
  root : ∃ image?, s.root = image?.getD .null ∧ Images r s.nodes sites [] [value] [image?]

/-- No key of a node has a meaning of its own, except that it may hold the source of a function. -/
theorem Content.keys {site : Site} {node : Snapshot.Node} {object : ScriptObject P}
    (h : Content r mask? nodes sites site node object) {key : String} {entry : Entry}
    (hmem : (key, entry) ∈ node.entries.entries) :
    Snapshot.isReserved key = false ∨
      ∃ name text, key = Snapshot.functionKey name ∧ entry = .string text := by
  obtain ⟨properties, fields, hproperties, hfields, hentries⟩ := h.entries
  rw [hentries, List.mem_append, List.reduceOption_mem_iff, List.reduceOption_mem_iff] at hmem
  rcases hmem with hmem | hmem
  · obtain ⟨binding, -, himage⟩ := exists_of_forall₂_right hproperties hmem
    exact Or.inl himage.key.2
  · obtain ⟨field, -, himage⟩ := exists_of_forall₂_right hfields hmem
    obtain ⟨hfree, rfl | ⟨rfl, text, rfl⟩⟩ := himage.key
    · exact Or.inl hfree
    · exact Or.inr ⟨field.1, text, rfl, rfl⟩

end

end ScriptBridge.Saving
