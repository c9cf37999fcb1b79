import ScriptBridge.Proofs.Realm.Copying
import ScriptBridge.Proofs.Registry.Resolution
import ScriptBridge.Proofs.Snapshot.Functions
import ScriptBridge.Proofs.Snapshot.Lending
import ScriptBridge.Scenario.Property

/-!
# What Copies Share

Where a graph has a live object or an array under a name of the mask, the snapshot for a copy holds
the object itself, and the property of the copy is handed this object and nothing after it. So a field
of the copy refers to it, and a property of a class does if it keeps what it is handed. A function is
not shared: one in a field is copied by its source, and left out if it has none.

Main statements: `Saving.Content.lends` (what is saved), `Loading.Mirroring.refers` (what is built) and
`Host.clone_shares`.
-/

namespace ScriptBridge

open Realm (after)

variable {P : Platform}

/-! ## Sharing -/

namespace Realm

/-- A property reads as a live object, or as an array with its items. -/
def Refers (r : Realm P) (h : Handle) (name : String) (k : Handle) : Prop :=
  ∃ v, r.property h name = .ok v ∧ v.slot = .object k

/-- What an object refers to under a name of the mask, by a field or by a property that copies take
along. -/
structure Lends (r : Realm P) (mask : List String) (o : Handle) (name : String) (k : Handle) :
    Prop where
  masked : name ∈ mask
  /-- The name has no meaning of its own in snapshots. -/
  free : Snapshot.isReserved name = false
  refers : r.Refers o name k
  alive : r.resolves k = true
  /-- A field must not be the one that keeps objects out of snapshots. -/
  member : ∀ object, r.heap.get? o = some object →
    (r.binding? object name = none ∧ name ≠ Snapshot.transientField) ∨
      ∃ b ∈ Saving.propertiesOf r object, b.name = name ∧ Saving.isSaved (some mask) b = true

/-- An object keeps what refers to another one under a name: if the name is that of a property, the
class has to. -/
def Retains (r : Realm P) (o : Handle) (name : String) (k : Handle) : Prop :=
  ∀ object c b, r.heap.get? o = some object → object.class? = some c →
    r.registry.resolveProperty? c name = some b →
      ∃ Kind, ∀ v, r.heap.Presents k v → r.registry.Retains c name Kind v

section

variable {r r' : Realm P} {h k : Handle} {name : String} {object : ScriptObject P}

theorem Refers.congr (hrefers : r.Refers h name k) (hheap : r'.heap = r.heap)
    (hregistry : r'.registry = r.registry) : r'.Refers h name k := by
  have hexpand : r'.expand = r.expand := by
    funext v
    simp only [expand, hheap]
  have hsame : r'.property h name = r.property h name := by
    simp only [property, binding?, hexpand, hheap, hregistry]
  obtain ⟨v, hread, hslot⟩ := hrefers
  exact ⟨v, hsame.trans hread, hslot⟩

/-- A field refers to the object that it holds. -/
theorem refers_of_field (hget : r.heap.get? h = some object) (hitems : object.items? = none)
    (hfree : r.binding? object name = none) (hfield : object.fields.find? name = some (.object k)) :
    r.Refers h name k := by
  refine ⟨_, property_of_field hget hfree (fun harray => ?_) hfield, r.heap.slot_expand rfl⟩
  rw [hitems] at harray
  cases harray

/-- A field that refers to an object holds it. -/
theorem Refers.field (hrefers : r.Refers h name k) (hslotted : r.heap.Slotted)
    (hget : r.heap.get? h = some object) (hitems : object.items? = none)
    (hfree : r.binding? object name = none) : object.fields.find? name = some (.object k) := by
  obtain ⟨v, hread, hslot⟩ := hrefers
  unfold property at hread
  simp only [hget, hfree, hitems] at hread
  cases hfind : object.fields.find? name with
  | none =>
    rw [hfind] at hread
    obtain rfl : Value.undefined = v := Except.ok.inj hread
    cases hslot
  | some slot =>
    rw [hfind] at hread
    obtain rfl : r.expand slot = v := Except.ok.inj hread
    have hinline := Heap.isInline_of_field hslotted hget hfind
    have hslot : (r.heap.expand slot).slot = .object k := hslot
    rw [Heap.slot_expand _ hinline] at hslot
    rw [hslot]

/-- A property of a class refers to the object that its getter makes of the native state. -/
theorem refers_of_reads (hget : r.heap.get? h = some object) {b : BoundProperty P}
    (hb : r.binding? object name = some b) {native : Native P.Layer}
    (hnative : object.native? = some native) {v : Value} (hslot : v.slot = .object k)
    (hreads : b.Reads native v) : r.Refers h name k := by
  obtain ⟨read, hread, hsame⟩ := hreads
  refine ⟨read, ?_, hsame.trans hslot⟩
  unfold property
  simp only [hget, hb, hnative]
  exact hread

end

end Realm

/-! ## What is Saved -/

namespace Saving

open Snapshot (Entry fieldName)
open Loading (Alone classFor singletonName?)

section

variable {r : Realm P} {mask : List String} {nodes : Array Snapshot.Node} {sites : List Site}
  {site : Site} {path : List Handle} {name : String} {k : Handle} {v : Value}
  {object : ScriptObject P} {node : Snapshot.Node}

theorem shared?_of_slot (hmask : name ∈ mask) (hslot : v.slot = .object k) :
    shared? (some mask) name v = some k := by
  have hcontains : ((some mask).any fun mask => mask.contains name) = true := by simpa using hmask
  unfold shared?
  rw [if_pos hcontains]
  cases v with
  | object h => rw [Value.object.inj hslot]
  | array origin items =>
    cases origin with
    | none => cases hslot
    | some a => rw [Value.object.inj hslot]
  | _ => cases hslot

/-- What refers to an object under a name of the mask is saved as this object. -/
theorem Member.eq_reference {image? : Option Entry}
    (h : Member r (some mask) nodes sites path name v image?) (hmask : name ∈ mask)
    (hslot : v.slot = .object k) : image? = some (.reference k) := by
  have hshared := shared?_of_slot hmask hslot
  cases h with
  | shared hother => rw [Option.some.inj (hother.symm.trans hshared)]
  | own hnone _ => exact nomatch hnone.symm.trans hshared

theorem PropertyImage.eq_reference {b : BoundProperty P} {out : Option (String × Entry)}
    (h : PropertyImage r (some mask) nodes sites site b out) (hl : r.Lends mask site.owner b.name k)
    (hsaved : isSaved (some mask) b = true) : out = some (b.name, .reference k) := by
  obtain ⟨v, hread, hslot⟩ := hl.refers
  cases h with
  | skipped hskipped =>
    rw [hsaved, hl.free] at hskipped
    cases hskipped
  | @saved value image? _ hvalue hmember =>
    obtain rfl : value = v := Except.ok.inj (hvalue.symm.trans hread)
    rw [hmember.eq_reference hl.masked hslot, Option.map_some]

/-- A field that a property goes before is passed over. -/
theorem FieldImage.not_mem_present {present : List String} {entry : String × Entry}
    (h : FieldImage r (some mask) nodes sites site present (name, v) (some entry)) :
    name ∉ present := by
  generalize hout : some entry = out at h
  cases h with
  | skipped => cases hout
  | function _ hnew => exact hnew
  | value _ hnew => exact hnew

theorem FieldImage.eq_reference {present : List String} {out : Option (String × Entry)}
    (h : FieldImage r (some mask) nodes sites site present (name, .object k) out)
    (hmask : name ∈ mask) (hfree : Snapshot.isReserved name = false)
    (hmark : name ≠ Snapshot.transientField) (hnew : name ∉ present) :
    out = some (name, .reference k) := by
  cases h with
  | skipped hskipped =>
    rcases hskipped with hskipped | hskipped | hskipped
    · exact absurd hskipped hmark
    · exact absurd hskipped hnew
    · rw [hfree] at hskipped
      cases hskipped
  | value _ _ _ _ hmember => rw [hmember.eq_reference hmask rfl, Option.map_some]

/-- A registered class is found under the name that the node has. -/
theorem registered?_eq_some {c : ClassNumber} {className : String}
    (h : registered? r object = some (c, className)) :
    object.class? = some c ∧ ∃ d, r.registry.get? c = some d ∧ d.outline.builtin = false ∧
      d.outline.name = className := by
  obtain ⟨k, hclass, hfound⟩ := Option.bind_eq_some_iff.1 h
  obtain ⟨d, hget, houtline⟩ := Option.bind_eq_some_iff.1 hfound
  split at houtline
  · cases houtline
  · next hbuiltin =>
    obtain ⟨rfl, rfl⟩ := Prod.mk.inj (Option.some.inj houtline)
    exact ⟨hclass, d, hget, Bool.eq_false_iff.2 hbuiltin, rfl⟩

/-- The class of an object has each of its properties under the name that it is listed by. -/
theorem binding?_of_mem_propertiesOf (hr : r.registry.Sound) {b : BoundProperty P}
    (hb : b ∈ propertiesOf r object) : r.binding? object b.name = some b := by
  unfold propertiesOf at hb
  cases hregistered : registered? r object with
  | none =>
    rw [hregistered] at hb
    cases hb
  | some named =>
    obtain ⟨hclass, d, hget, -⟩ := registered?_eq_some hregistered
    rw [hregistered] at hb
    rw [Realm.binding?, hclass, Option.bind_some]
    exact (hr.listsMembers hget).binding b hb

/-- A node holds what its object lends, and in no other entry anything under this name. -/
theorem Content.lends (hr : r.Sound) (h : Content r (some mask) nodes sites site node object)
    (hl : r.Lends mask site.owner name k) :
    (name, .reference k) ∈ node.entries.entries ∧ Alone node.entries.entries name := by
  obtain ⟨properties, fields, hproperties, hfields, hentries⟩ := h.entries
  -- the entry of a property is about a property of the class
  have hproperty : ∀ entry ∈ properties.reduceOption,
      fieldName entry = entry.1 ∧ r.binding? object entry.1 ≠ none := by
    intro entry hentry
    obtain ⟨b, hb, himage⟩ :=
      exists_of_forall₂_right hproperties (List.reduceOption_mem_iff.1 hentry)
    obtain ⟨hname, hfree⟩ := himage.key
    refine ⟨fieldName_of_free hfree, ?_⟩
    rw [hname, binding?_of_mem_propertiesOf hr.registry hb]
    exact Option.some_ne_none b
  rw [hentries]
  rcases hl.member object h.alive with ⟨hbinding, hmark⟩ | ⟨b, hb, rfl, hsaved⟩
  · have hnew : name ∉ properties.reduceOption.map Prod.fst := by
      intro hmem
      obtain ⟨entry, hentry, rfl⟩ := List.mem_map.1 hmem
      exact (hproperty entry hentry).2 hbinding
    have hfield := hl.refers.field hr.slotted h.alive h.container hbinding
    -- the field is the only one of its name, and it is shown as the object
    have himage : ∀ value out, FieldImage r (some mask) nodes sites site
        (properties.reduceOption.map Prod.fst) (name, value) out →
        (name, value) ∈ object.fields.entries → out = some (name, .reference k) := by
      intro value out himage hmem
      obtain rfl : Value.object k = value :=
        Option.some.inj (hfield.symm.trans (Table.find?_eq_some_iff.2 hmem))
      exact himage.eq_reference hl.masked hl.free hmark hnew
    constructor
    · have hmem := Table.find?_eq_some_iff.1 hfield
      obtain ⟨out, hout, hshown⟩ := exists_of_forall₂_left hfields hmem
      obtain rfl := himage _ out hshown hmem
      exact List.mem_append_right _ (List.reduceOption_mem_iff.2 hout)
    · intro entry hentry hname
      rcases List.mem_append.1 hentry with hentry | hentry
      · exact (hproperty entry hentry).1.symm.trans hname
      · obtain ⟨⟨key, value⟩, hmem, hshown⟩ :=
          exists_of_forall₂_right hfields (List.reduceOption_mem_iff.1 hentry)
        obtain rfl : key = name := hshown.fieldName_eq.symm.trans hname
        rw [Option.some.inj (himage value _ hshown hmem)]
  · obtain ⟨out, hout, hshown⟩ := exists_of_forall₂_left hproperties hb
    obtain rfl := hshown.eq_reference hl hsaved
    have hmem : (b.name, Entry.reference k) ∈ properties.reduceOption :=
      List.reduceOption_mem_iff.2 hout
    refine ⟨List.mem_append_left _ hmem, fun entry hentry hname => ?_⟩
    rcases List.mem_append.1 hentry with hentry | hentry
    · exact (hproperty entry hentry).1.symm.trans hname
    · obtain ⟨⟨key, value⟩, -, hshown⟩ :=
        exists_of_forall₂_right hfields (List.reduceOption_mem_iff.1 hentry)
      obtain rfl : key = b.name := hshown.fieldName_eq.symm.trans hname
      exact absurd (List.mem_map_of_mem (f := Prod.fst) hmem) hshown.not_mem_present

/-- The class that a load looks up for a node is that of the object, or that of plain objects. -/
theorem Content.classFor_eq (hr : r.Reachable)
    (h : Content r (some mask) nodes sites site node object) :
    classFor r node.className = ((registered? r object).map Prod.fst).getD .object := by
  rw [h.className, classFor]
  cases hregistered : registered? r object with
  | none => rfl
  | some named =>
    obtain ⟨-, d, hget, -, hname⟩ := registered?_eq_some hregistered
    rw [Option.map_some, Option.bind_some, ← hname, hr.declared.lookup?_outline hget]
    rfl

/-- What is made for the node of an object has its registered class, and is no array. -/
theorem Content.of_nature (hr : r.Reachable)
    (h : Content r (some mask) nodes sites site node object) {copy : ScriptObject P}
    (hnature : copy.nature = (ScriptObject.ofForm (r.freshForm (classFor r node.className))).nature) :
    copy.items? = none ∧ copy.class? = (registered? r object).map Prod.fst := by
  rw [h.classFor_eq hr] at hnature
  obtain ⟨form, fields⟩ := copy
  cases hregistered : registered? r object with
  | none =>
    rw [hregistered] at hnature
    cases form <;> first | exact ⟨rfl, rfl⟩ | cases hnature
  | some named =>
    obtain ⟨-, d, hget, hbuiltin, -⟩ := registered?_eq_some hregistered
    have hplain : named.1 ≠ .object := by
      rintro heq
      obtain ⟨plain, hplain, houtline⟩ := hr.sound.registry.object
      rw [heq, hplain] at hget
      rw [← Option.some.inj hget, houtline] at hbuiltin
      cases hbuiltin
    have harray : named.1 ≠ .array := by
      rintro heq
      obtain ⟨array, harray, houtline⟩ := hr.sound.registry.array
      rw [heq, harray] at hget
      rw [← Option.some.inj hget, houtline] at hbuiltin
      cases hbuiltin
    rw [hregistered, Option.map_some, Option.getD_some, Realm.freshForm, if_neg hplain,
      if_neg harray] at hnature
    cases form with
    | instanceOf c native =>
      refine ⟨rfl, ?_⟩
      rw [Option.map_some]
      exact congrArg some (ObjectForm.instanceOf.inj hnature).1
    | _ => cases hnature

/-- The node of an object that is no singleton does not name a singleton class. -/
theorem Content.singletonName?_eq_none (hr : r.Reachable)
    (h : Content r (some mask) nodes sites site node object)
    (hproper : r.isSingletonInstance site.owner = false) : singletonName? r node = none := by
  rw [singletonName?, h.className]
  cases hregistered : registered? r object with
  | none => rfl
  | some named =>
    obtain ⟨hclass, d, hget, -, hname⟩ := registered?_eq_some hregistered
    have hfound : r.registry.registered? named.2 = some d := by
      rw [Registry.registered?, ← hname, hr.declared.lookup?_outline hget, Option.bind_some, hget]
    have hclassOf : r.classOf? site.owner = some named.1 := by
      obtain ⟨form, fields⟩ := object
      cases form with
      | instanceOf c native =>
        obtain rfl := Option.some.inj hclass
        rw [Realm.classOf?, h.alive, Option.bind_some]
      | _ => cases hclass
    rw [Realm.isSingletonInstance, hclassOf, Option.bind_some, hget, Option.any_some] at hproper
    rw [Option.map_some, Option.filter_some, hfound, Option.any_some, hproper]
    exact if_neg Bool.false_ne_true

end

/-- What is saved shows the graph, and no instance of a singleton class has a node. -/
theorem shows_proper {r : Realm P} (hr : r.Reachable) {value : Value} {force : Bool}
    {mask? : Option (List String)} {s : Snapshot} (hsave : r.save value force mask? = .ok s) :
    s.Orderly r.options.depthLimit ∧ ∃ sites, Shows r mask? value s sites ∧
      ∀ site ∈ sites, r.isSingletonInstance site.owner = false := by
  have hnames := hr.sound.registry.nodup_visibleProperties
  unfold Realm.save at hsave
  cases hrun : (saveRoot r mask? force value).run ⟨#[], [], 0⟩ with
  | error error =>
    rw [hrun] at hsave
    cases hsave
  | ok outcome =>
    obtain ⟨image?, s'⟩ := outcome
    rw [hrun] at hsave
    obtain rfl := Except.ok.inj hsave
    obtain ⟨horderly, sites, hlawful, hshows⟩ := shows_of_run hnames hrun
    have hstep : InStep r _ r.options.depthLimit _ _ _ _ _ := inStep_saveRoot mask? hnames force value
    obtain ⟨hgrows, -, -⟩ := hstep image? s' hrun
    refine ⟨horderly, sites, hshows, fun site hsite => ?_⟩
    have hhas : s'.has site.owner := by
      rw [has, Option.isSome_iff_ne_none]
      exact fun hnone => hlawful.not_mem_of_lookup hnone (List.mem_map_of_mem hsite)
    rcases hgrows.proper site.owner hhas with hbefore | hproper
    · cases hbefore
    · exact hproper.2

end Saving

/-! ## What is Built -/

namespace Loading

section

variable {r : Realm P} {s : Snapshot} {root : Value} {b : Loading P} {H : Account}

/-- Where no node names a singleton class, every node that one comes to is read. -/
theorem Supplied.exists_filled (hs : Supplied r s s.root (start r) [] root b H)
    (hproper : ∀ (i : Nat) (node : Snapshot.Node), s.nodes[i]? = some node →
      singletonName? r node = none) {i : Nat} (hi : s.Reached i) :
    ∀ node, s.nodes[i]? = some node → ∃ c, .filled c node ∈ H := by
  induction hi with
  | root hi => exact fun node hnode => hs.covered _ hi node hnode (hproper _ node hnode)
  | @inside i j outer _ houter hi ih =>
    intro node hnode
    obtain ⟨c, hc⟩ := ih outer houter
    obtain ⟨entry, hentry, hi⟩ := Snapshot.Entry.mem_positionsOf_iff.1 hi
    obtain ⟨named, hnamed, rfl⟩ := List.mem_map.1 hentry
    have hequipped := (hs.keeps.filled c outer hc).resolve_left List.not_mem_nil
    exact hequipped.inside named hnamed i hi node hnode (hproper i node hnode)

/-- What has been handed last to a field, or to a property whose class keeps it, is what it refers
to. -/
theorem Mirroring.refers {old r : Realm P} {H : Account} (h : Mirroring old r H) {c k : Handle}
    (hnew : ¬ old.heap.Issued c) {copy : ScriptObject P} (hget : r.heap.get? c = some copy)
    (hitems : copy.items? = none) {name : String} {v : Value} (hlast : H.lastHanded c name = some v)
    (hslot : v.slot = .object k)
    (hretains : ∀ cls b, copy.class? = some cls → old.registry.resolveProperty? cls name = some b →
      ∃ Kind, old.registry.Retains cls name Kind v) : r.Refers c name k := by
  have hmirrors := h.mirrors c copy hnew hget hitems
  have hsame : r.binding? copy name = copy.class?.bind (old.registry.resolveProperty? · name) := by
    rw [Realm.binding?, h.registry]
  cases hbinding : copy.class?.bind (old.registry.resolveProperty? · name) with
  | none =>
    apply Realm.refers_of_field hget hitems (hsame.trans hbinding)
    rw [hmirrors.field name hbinding, hlast, Option.map_some, hslot]
  | some b =>
    obtain ⟨cls, hclass, hb⟩ := Option.bind_eq_some_iff.1 hbinding
    obtain ⟨Kind, hretains⟩ := hretains cls b hclass hb
    obtain ⟨native, hnative, -, hreads⟩ := hmirrors.bound cls name Kind v hclass hretains
    exact Realm.refers_of_reads hget (hsame.trans hbinding) hnative hslot (hreads hlast b hb)

/-- An object has been made from the node that shows another one. -/
def CopiedTo (r : Realm P) (s : Snapshot) (sites : List Saving.Site) (o c : Handle) : Prop :=
  ∃ (i : Nat) (path : List Handle) (node : Snapshot.Node), sites[i]? = some ⟨o, path⟩ ∧
    s.nodes[i]? = some node ∧ .filled c node ∈ account s r

/-- What a copy has been handed when the graph is complete. -/
structure Shared (r : Realm P) (mask : List String) (s : Snapshot) (b : Loading P) (o c : Handle) :
    Prop where
  new : ¬ r.heap.Issued c
  handed : ∀ name k, r.Lends mask o name k →
    ∃ v, (account s r).lastHanded c name = some v ∧ r.heap.Presents k v
  refers : ∀ name k, r.Lends mask o name k → r.Retains o name k → b.realm.Refers c name k

variable {mask : List String} {sites : List Saving.Site} {o c : Handle}

/-- What an object lends is what its copy has been handed last. -/
theorem CopiedTo.shared (hc : CopiedTo r s sites o c) (hr : r.Reachable) {value : Value}
    (hshows : Saving.Shows r (some mask) value s sites) (hrun : Runs (build s) (start r) root b)
    (hbound : b.Bounded) : Shared r mask s b o c := by
  obtain ⟨i, path, node, hsite, hnode, hfilled⟩ := hc
  obtain ⟨object, hcontent⟩ := hshows.content i node _ hnode hsite
  have hsupplied : Supplied r s s.root (start r) [] root b (account s r) :=
    (supplied_build hr.sound.wellFormed s root b _ (exists_told_build hrun) hbound).2 trivial
  have hequipped := (hsupplied.keeps.filled c node hfilled).resolve_left List.not_mem_nil
  have hmirroring : Mirroring r b.realm (account s r) :=
    hsupplied.keeps.effects.mirroring hr.sound.wellFormed hbound (mirroring_start r)
  obtain ⟨copy, hget, hnature⟩ := Option.map_eq_some_iff.1 hequipped.nature
  obtain ⟨hitems, hclass⟩ := hcontent.of_nature hr hnature
  have hhanded : ∀ name k, r.Lends mask o name k →
      ∃ v, (account s r).lastHanded c name = some v ∧ r.heap.Presents k v := by
    intro name k hlends
    obtain ⟨hmem, halone⟩ := hcontent.lends hr.sound hlends
    exact (hequipped.lent name k hmem halone hlends.alive).handed
  refine ⟨hequipped.new, hhanded, fun name k hlends hretains => ?_⟩
  obtain ⟨v, hlast, hpresents⟩ := hhanded name k hlends
  apply hmirroring.refers hequipped.new hget hitems hlast hpresents.slot
  -- the copy has the class of the object, which keeps what it is handed
  intro cls b hcls hb
  obtain ⟨named, hregistered, rfl⟩ := Option.map_eq_some_iff.1 (hclass.symm.trans hcls)
  obtain ⟨hobject, -⟩ := Saving.registered?_eq_some hregistered
  exact (hretains object named.1 b hcontent.alive hobject hb).imp fun Kind h => h v hpresents

end

end Loading

/-! ## Copies -/

/-- A copy shares with an object what the object refers to under names of the mask. -/
structure Host.Shares (host : Host P) (mask : List String) (s : Snapshot) (r : Realm P)
    (o c : Handle) (r' : Realm P) : Prop where
  /-- The copy has been made for it. -/
  new : ¬ r.heap.Issued c
  /-- The property of the copy has been handed the same object, and nothing after it. -/
  handed : ∀ name k, r.Lends mask o name k →
    ∃ v, (Loading.account s r).lastHanded c name = some v ∧ r.heap.Presents k v
  /-- When the graph is complete it refers to this object, if it keeps what it is handed. -/
  built : ∀ name k, r.Lends mask o name k → r.Retains o name k →
    (r.building s true).realm.Refers c name k
  /-- Unless a call that awakens an instance takes it away, it still does in the end. -/
  loaded : ∀ name k, r.Lends mask o name k → r.Retains o name k →
    (∀ call ∈ host.awakeCalls s true r, call.2.Refers c name k →
      (after (host.callMethod call.1 Loading.awakeName []) call.2).Refers c name k) →
    r'.Refers c name k

namespace Host

open Loading (CopiedTo)

variable {host : Host P} {r r' : Realm P} {s : Snapshot} {mask : List String}

/-- What a property refers to when the graph is complete, it refers to in the end, unless a call takes
it away. -/
theorem refers_after_load {c k : Handle} {name : String}
    (hbuilt : (r.building s true).realm.Refers c name k)
    (hcalls : ∀ call ∈ host.awakeCalls s true r, call.2.Refers c name k →
      (after (host.callMethod call.1 Loading.awakeName []) call.2).Refers c name k) :
    (after (host.load s true) r).Refers c name k := by
  let R : Realm P → Realm P → Prop := fun a b => a.Refers c name k → b.Refers c name k
  have hcourse : Course R := ⟨fun _ => id, fun h h' => h' ∘ h⟩
  have hended : (host.ending s true r).realm.Refers c name k :=
    ending_of_calls (R := R) hcalls (fun error r h => h.congr rfl rfl) hbuilt
  rw [after_load]
  exact hended.congr (Realm.heap_unprotectAll _ _) (Realm.steps_unprotectAll _ _).evolves.registry

/-- **Copies share what the mask names.** Where an object of a graph refers to a live object or to an
array under a name of the mask, by a field or by a property that copies take along, its copy has been
handed the very same object, and refers to it: a field does so in any case, and a property if its class
keeps what it is handed. Each object with a node has a copy, and the answer is the copy of the object
that the graph starts with. -/
theorem clone_shares (host : Host P) {r r' : Realm P} (hr : r.Reachable) {value copy : Value}
    {mask : List String} (hclone : Id.run ((host.clone value mask).run.run r) = (.ok copy, r')) :
    ∃ s sites, r.save value true (some mask) = .ok s ∧ Saving.Shows r (some mask) value s sites ∧
      ((r.building s true).realm.heap.capacity ≤ UInt32.size →
        (∀ site ∈ sites, ∃ c, CopiedTo r s sites site.owner c) ∧
        (∀ o i, value = .object o → s.root = .node i →
          ∃ c, copy.slot = .object c ∧ CopiedTo r s sites o c) ∧
        ∀ o c, CopiedTo r s sites o c → host.Shares mask s r o c r') := by
  obtain ⟨s, hsave, hload⟩ := exists_of_run_clone hclone
  obtain ⟨horderly, sites, hshows, hproper⟩ := Saving.shows_proper hr hsave
  refine ⟨s, sites, hsave, hshows, fun hbound => ?_⟩
  obtain ⟨root, built, awoken, hbuild, -, rfl, -⟩ := exists_of_run_load rfl hload
  obtain rfl : r.building s true = built := congrArg Prod.snd hbuild
  obtain rfl : after (host.load s true) r = r' := congrArg Prod.snd hload
  have hsupplied : Loading.Supplied r s s.root (Loading.start r) [] root (r.building s true)
      (Loading.account s r) :=
    (Loading.supplied_build hr.sound.wellFormed s root _ _ (Loading.exists_told_build hbuild)
      hbound).2 trivial
  -- the nodes are those of the sites, and none of them is one of a singleton
  have hsite : ∀ (i : Nat) (node : Snapshot.Node), s.nodes[i]? = some node →
      ∃ site ∈ sites, sites[i]? = some site ∧ Loading.singletonName? r node = none := by
    intro i node hnode
    have hi : i < sites.length := by
      rw [hshows.size]
      exact (Array.getElem?_eq_some_iff.1 hnode).1
    have hget := List.getElem?_eq_getElem hi
    obtain ⟨object, hcontent⟩ := hshows.content i node _ hnode hget
    have hmem := List.getElem_mem hi
    exact ⟨_, hmem, hget, hcontent.singletonName?_eq_none hr (hproper _ hmem)⟩
  have hsingle : ∀ (i : Nat) (node : Snapshot.Node), s.nodes[i]? = some node →
      Loading.singletonName? r node = none := by
    intro i node hnode
    obtain ⟨-, -, -, hnone⟩ := hsite i node hnode
    exact hnone
  refine ⟨fun site hmem => ?_, ?_, fun o c hc => ?_⟩
  · obtain ⟨i, hget⟩ := List.mem_iff_getElem?.1 hmem
    have hi : i < s.nodes.size := by
      rw [← hshows.size]
      exact (List.getElem?_eq_some_iff.1 hget).1
    have hnode := Array.getElem?_eq_getElem hi
    have hreached : s.Reached i := (horderly.preorder.mem_iff_reached i).1 (List.mem_range.2 hi)
    obtain ⟨c, hc⟩ := hsupplied.exists_filled hsingle hreached _ hnode
    exact ⟨c, i, site.path, _, hget, hnode, hc⟩
  · rintro o i rfl hroot
    obtain ⟨path, hget⟩ := hshows.site_of_root hroot
    have hi : i < s.nodes.size := by
      rw [← hshows.size]
      exact (List.getElem?_eq_some_iff.1 hget).1
    have hnode := Array.getElem?_eq_getElem hi
    obtain ⟨c, rfl, hc⟩ := hsupplied.node i _ hroot hnode (hsingle i _ hnode)
    exact ⟨c, awoken.realm.heap.slot_expand rfl, i, path, _, hget, hnode, hc⟩
  · have hshared := hc.shared hr hshows hbuild hbound
    exact ⟨hshared.new, hshared.handed, hshared.refers, fun name k hlends hretains hcalls =>
      refers_after_load (hshared.refers name k hlends hretains) hcalls⟩

end Host

/-! ## A Class that Keeps what it is Handed -/

theorem Scenario.lookup_insertSlot (name : String) (value : Value) (slots : List (String × Value)) :
    (Scenario.insertSlot name value slots).lookup name = some value := by
  induction slots with
  | nil => simp [Scenario.insertSlot]
  | cons slot slots ih =>
    obtain ⟨key, held⟩ := slot
    unfold Scenario.insertSlot
    split
    · simp
    · next hne =>
      split
      · simp
      · rw [List.lookup_cons, beq_false_of_ne (Ne.symm hne)]
        exact ih

/-- A property that reads and writes a slot of a bag. -/
def BoundProperty.link : BoundProperty Scenario.platform :=
  ⟨"link", .standard,
    Scenario.PropertySpec.accessor ⟨"link", .alpha, "link", .dynamic .object none (some .none)⟩⟩

/-- A class of bags with this property. -/
def RegisteredClass.ofTrunk : RegisteredClass Scenario.platform :=
  { RegisteredClass.ofOutline ⟨"Trunk", none, false, false⟩ with
    properties := .insert .empty "link" .link
    fresh := some fun _ => .base (.ofSlots .alpha "trunk" [] [] false) }

namespace Registry

/-- The built-in classes, and this one. -/
def withTrunk : Registry Scenario.platform :=
  (builtins.push ⟨"Trunk", none, false, false⟩).setClass ⟨2⟩ .ofTrunk

theorem declared_withTrunk : withTrunk.Declared := by
  have hclass : (builtins (P := Scenario.platform)).register (.declareClass "Trunk" none false) =
      .ok (builtins.push ⟨"Trunk", none, false, false⟩) := by cbv
  obtain ⟨r, hfresh⟩ : ∃ r, ((builtins (P := Scenario.platform)).push
      ⟨"Trunk", none, false, false⟩).register (.setFresh ⟨2⟩ fun _ =>
        .base (.ofSlots .alpha "trunk" [] [] false)) = .ok r := ⟨_, rfl⟩
  have hproperty : r.register (.bindProperty ⟨2⟩ "link" BoundProperty.link.accessor .standard) =
      .ok withTrunk := by
    obtain rfl := Except.ok.inj hfresh
    cbv
  exact .register (.register (.register .builtins hclass) hfresh) hproperty

theorem get?_withTrunk : withTrunk.get? ⟨2⟩ = some .ofTrunk := by cbv

/-- The class has no other property. -/
theorem resolve_withTrunk {key : String} {b : BoundProperty Scenario.platform}
    (hb : withTrunk.resolveProperty? ⟨2⟩ key = some b) : key = "link" ∧ b = .link := by
  have hparent : RegisteredClass.ofTrunk.outline.parent = none := rfl
  rw [(declared_withTrunk.sound.inherits get?_withTrunk).property key, hparent, Option.bind_none,
    Option.or_none, RegisteredClass.ofTrunk, Table.find?_insert, Table.find?_empty] at hb
  split at hb
  · next hkey => exact ⟨hkey, (Option.some.inj hb).symm⟩
  · cases hb

/-- The slot holds what has been written into it last. -/
theorem retains_withTrunk (v : Value) :
    withTrunk.Retains ⟨2⟩ "link"
      (fun native => ∃ bag : Scenario.Bag, native = .base bag ∧ bag.kind = .alpha) v := by
  have hwritten : ∀ (bag : Scenario.Bag) (w : Value) m world, bag.kind = .alpha →
      BoundProperty.link.written w m (.base bag) world = .base (bag.setSlot "link" w) := by
    rintro ⟨kind, name, slots, items, transient⟩ w m world rfl
    rfl
  have hread : ∀ bag : Scenario.Bag, bag.kind = .alpha →
      BoundProperty.link.accessor.get (.base bag) = .ok ((bag.slot? "link").getD .undefined) := by
    rintro ⟨kind, name, slots, items, transient⟩ rfl
    rfl
  constructor
  case fresh =>
    refine ⟨fun _ => .base (.ofSlots .alpha "trunk" [] [] false), ?_, fun _ => ⟨_, rfl, rfl⟩⟩
    rw [(declared_withTrunk.sound.inherits get?_withTrunk).fresh]
    rfl
  case kind =>
    rintro key b hb w m _ world ⟨bag, rfl, hkind⟩
    obtain ⟨-, rfl⟩ := resolve_withTrunk hb
    exact ⟨_, hwritten bag w m world hkind, hkind⟩
  case writable =>
    intro b hb
    obtain ⟨-, rfl⟩ := resolve_withTrunk hb
    rfl
  case back =>
    rintro b hb m _ world ⟨bag, rfl, hkind⟩
    obtain ⟨-, rfl⟩ := resolve_withTrunk hb
    rw [hwritten bag v m world hkind]
    refine ⟨v, ?_, rfl⟩
    rw [hread (bag.setSlot "link" v) hkind, Scenario.Bag.slot?, Scenario.Bag.setSlot,
      Scenario.lookup_insertSlot]
    rfl
  case apart =>
    intro b hb key other hne hother
    exact absurd (resolve_withTrunk hother).1 hne

end Registry

namespace Realm

/-- A realm with an instance of this class, whose property refers to the global object, and which has
a field that refers to an array. -/
def ofTrunk : Realm Scenario.platform :=
  let r := ((ofRegistry .withTrunk .standard Scenario.Stage.empty).instantiate ⟨2⟩).2
  let r := (r.newArray [.object ⟨1, 0⟩]).2
  let r := after (putProperty ⟨1, 0⟩ "link" (.object ⟨0, 0⟩) false) r
  after (putProperty ⟨1, 0⟩ "all" (.object ⟨2, 0⟩) false) r

theorem steps_ofTrunk : Steps (ofRegistry .withTrunk .standard Scenario.Stage.empty) ofTrunk :=
  .tail (.tail (.tail (.single (.instantiate ⟨2⟩ _)) (.newArray [.object ⟨1, 0⟩] _))
    (.putProperty ⟨1, 0⟩ "link" (.object ⟨0, 0⟩) false _))
    (.putProperty ⟨1, 0⟩ "all" (.object ⟨2, 0⟩) false _)

theorem reachable_ofTrunk : ofTrunk.Reachable := by
  have hcapacity : ofTrunk.heap.capacity = 3 := by cbv
  exact ⟨.withTrunk, .standard, Scenario.Stage.empty, Registry.declared_withTrunk, steps_ofTrunk,
    by rw [hcapacity]; decide⟩

theorem lends_ofTrunk : ofTrunk.Lends ["link", "all"] ⟨1, 0⟩ "link" ⟨0, 0⟩ ∧
    ofTrunk.Lends ["link", "all"] ⟨1, 0⟩ "all" ⟨2, 0⟩ := by
  have hproperties : ((ofTrunk.heap.get? ⟨1, 0⟩).map fun object =>
      (Saving.propertiesOf ofTrunk object).map fun b =>
        (b.name, Saving.isSaved (some ["link", "all"]) b)) = some [("link", true)] := by cbv
  have hbinding : ((ofTrunk.heap.get? ⟨1, 0⟩).bind fun object =>
      ofTrunk.binding? object "all").isNone = true := by cbv
  constructor
  · refine ⟨by decide, by cbv, ⟨.object ⟨0, 0⟩, by cbv, rfl⟩, by cbv, fun object hget => Or.inr ?_⟩
    rw [hget, Option.map_some, Option.some.injEq] at hproperties
    have hmem : ("link", true) ∈ (Saving.propertiesOf ofTrunk object).map fun b =>
        (b.name, Saving.isSaved (some ["link", "all"]) b) := by
      rw [hproperties]
      exact List.mem_cons_self
    obtain ⟨b, hb, heq⟩ := List.mem_map.1 hmem
    exact ⟨b, hb, (Prod.mk.inj heq).1, (Prod.mk.inj heq).2⟩
  · refine ⟨by decide, by cbv, ⟨.array (some ⟨2, 0⟩) [.object ⟨1, 0⟩], by cbv, rfl⟩, by cbv,
      fun object hget => Or.inl ⟨?_, by decide⟩⟩
    rwa [hget, Option.bind_some, Option.isNone_iff_eq_none] at hbinding

theorem retains_ofTrunk (name : String) (k : Handle) : ofTrunk.Retains ⟨1, 0⟩ name k := by
  have hregistry : ofTrunk.registry = .withTrunk := steps_ofTrunk.evolves.registry
  have hclass : (ofTrunk.heap.get? ⟨1, 0⟩).bind ScriptObject.class? = some ⟨2⟩ := by cbv
  intro object c b hget hc hb
  rw [hregistry] at hb ⊢
  rw [hget, Option.bind_some, hc] at hclass
  obtain rfl := Option.some.inj hclass
  obtain ⟨rfl, -⟩ := Registry.resolve_withTrunk hb
  exact ⟨_, fun v _ => Registry.retains_withTrunk v⟩

end Realm

/-- What is saved of the instance for a copy. -/
def Snapshot.ofTrunk : Snapshot :=
  ⟨#[⟨some "Trunk", none, ⟨[("link", .reference ⟨0, 0⟩), ("all", .reference ⟨2, 0⟩)], by decide⟩⟩],
    .node 0⟩

/-- The copy of the instance refers to the same global object and to the same array. -/
theorem Host.clone_shares_trunk :
    Realm.ofTrunk.Reachable ∧
    Realm.ofTrunk.Lends ["link", "all"] ⟨1, 0⟩ "link" ⟨0, 0⟩ ∧
    Realm.ofTrunk.Lends ["link", "all"] ⟨1, 0⟩ "all" ⟨2, 0⟩ ∧
    ∃ r', Id.run (((Scenario.hostWithin false 1).clone (.object ⟨1, 0⟩) ["link", "all"]).run.run
        Realm.ofTrunk) = (.ok (.object ⟨3, 0⟩), r') ∧
      r'.Refers ⟨3, 0⟩ "link" ⟨0, 0⟩ ∧ r'.Refers ⟨3, 0⟩ "all" ⟨2, 0⟩ := by
  have hrun : Id.run (((Scenario.hostWithin false 1).clone (.object ⟨1, 0⟩) ["link", "all"]).run.run
      Realm.ofTrunk) = (.ok (.object ⟨3, 0⟩), after ((Scenario.hostWithin false 1).clone
        (.object ⟨1, 0⟩) ["link", "all"]) Realm.ofTrunk) := Realm.run_of_answer (by cbv)
  have hsave : Realm.ofTrunk.save (.object ⟨1, 0⟩) true (some ["link", "all"]) = .ok .ofTrunk := by
    cbv
  obtain ⟨s, sites, hsaved, -, hshares⟩ :=
    clone_shares (Scenario.hostWithin false 1) Realm.reachable_ofTrunk hrun
  obtain rfl := Except.ok.inj (hsave.symm.trans hsaved)
  have hcapacity : (Realm.ofTrunk.building .ofTrunk true).realm.heap.capacity = 4 := by cbv
  have hquiet : (Scenario.hostWithin false 1).awakeCalls .ofTrunk true Realm.ofTrunk = [] := by cbv
  obtain ⟨-, hroot, hcopies⟩ := hshares (by rw [hcapacity]; decide)
  obtain ⟨c, hslot, hc⟩ := hroot ⟨1, 0⟩ 0 rfl rfl
  obtain rfl := Value.object.inj hslot
  have hloaded : ∀ name k, Realm.ofTrunk.Lends ["link", "all"] ⟨1, 0⟩ name k →
      (after ((Scenario.hostWithin false 1).clone (.object ⟨1, 0⟩) ["link", "all"])
        Realm.ofTrunk).Refers ⟨3, 0⟩ name k := fun name k hlends =>
    (hcopies _ _ hc).loaded name k hlends (Realm.retains_ofTrunk name k) fun call hcall => by
      rw [hquiet] at hcall
      cases hcall
  obtain ⟨hlink, hall⟩ := Realm.lends_ofTrunk
  exact ⟨Realm.reachable_ofTrunk, hlink, hall, _, hrun, hloaded _ _ hlink, hloaded _ _ hall⟩

namespace Realm

/-- A realm in which an object holds a function that was written in a script and a native one. -/
def ofConsole : Realm Scenario.platform :=
  after (putProperty ⟨1, 0⟩ "go" (.function ⟨3, 0⟩) false)
    (ofRunner.newFunction "go" (.native (.callback []))).2

theorem reachable_ofConsole : ofConsole.Reachable := by
  have hcapacity : ofConsole.heap.capacity = 4 := by cbv
  exact reachable_ofSleepers.steps ((steps_ofRunner.tail (.newFunction "go" _ _)).tail
    (.putProperty ⟨1, 0⟩ "go" _ false _)) (by rw [hcapacity]; decide)

end Realm

/-- Functions are not shared: the field of the copy holds a new function of the same source, or nothing
if the function is native. -/
theorem Host.functions_not_shared_console :
    Realm.ofConsole.Reachable ∧
    Snapshot.isReserved "run" = false ∧ Snapshot.isReserved "go" = false ∧
    Realm.ofConsole.property ⟨1, 0⟩ "run" = .ok (.function ⟨2, 0⟩) ∧
    Realm.ofConsole.property ⟨1, 0⟩ "go" = .ok (.function ⟨3, 0⟩) ∧
    ∃ r', Id.run (((Scenario.hostWithin false 1).clone (.object ⟨1, 0⟩) ["run", "go"]).run.run
        Realm.ofConsole) = (.ok (.object ⟨4, 0⟩), r') ∧
      r'.property ⟨4, 0⟩ "run" = .ok (.function ⟨5, 0⟩) ∧
      r'.property ⟨4, 0⟩ "go" = .ok .undefined := by
  exact ⟨Realm.reachable_ofConsole, by cbv, by cbv, by cbv, by cbv, _,
    Realm.run_of_answer (by cbv), by cbv, by cbv⟩

end ScriptBridge
