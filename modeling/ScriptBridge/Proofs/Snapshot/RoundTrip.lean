import ScriptBridge.Proofs.Snapshot.Loading
import ScriptBridge.Proofs.Snapshot.PlainGraph

/-!
# Round Trips

The two halves meet here: a snapshot of a plain graph shows the graph completely, and what is loaded
from a snapshot is what the snapshot asks for. Together they make a copy of the graph, in which an
object that was met in several places is one object again, also when it refers to itself.

Main statement: `Host.load_save`.
-/

namespace ScriptBridge

open Relation (ReflTransGen TransGen)
open Snapshot (Entry Node idAt? costOf)

variable {P : Platform}

/-! ## Copies -/

/-- The number of objects and arrays that a load of a snapshot makes. -/
def Snapshot.objectCount (s : Snapshot) : Nat :=
  s.root.arrays + costOf s.nodes (List.range s.nodes.size)

section

variable (old new : Heap P) (φ : Handle → Handle)

/-- What stands in a copy in the place of a value, when `φ` takes the plain objects to their copies.
Arrays are copied wherever they stand. -/
inductive Corresponds : Value → Value → Prop
  | null : Corresponds .null .null
  | bool (b : Bool) : Corresponds (.bool b) (.bool b)
  | byte (n : UInt8) : Corresponds (.byte n) (.int (.ofNat n.toNat))
  | int (n : Int32) : Corresponds (.int n) (.int n)
  | float (x : Float32) : Corresponds (.float x) (.double (Number.asWritten x))
  | double (x : Float) : Corresponds (.double x) (.double x)
  | string (text : String) : Corresponds (.string text) (.string text)
  | object {h : Handle} {fields : Table Value} :
      old.get? h = some ⟨.plain, fields⟩ → Corresponds (.object h) (.object (φ h))
  | array {a b : Handle} {items slots : Array Value} :
      old.get? a = some ⟨.array items, .empty⟩ → old.contains b = false →
      new.get? b = some ⟨.array slots, .empty⟩ → slots.size = items.size →
      (∀ (i : Nat) v w, items[i]? = some v → slots[i]? = some w → Corresponds v w) →
      Corresponds (.object a) (.object b)

/-- `φ` takes the plain objects of a graph to the objects of a copy, which were not there before. -/
structure Copies (root : Handle) : Prop where
  injective : ∀ h k fields fields', ReflTransGen old.Refers root h → ReflTransGen old.Refers root k →
    old.get? h = some ⟨.plain, fields⟩ → old.get? k = some ⟨.plain, fields'⟩ → φ h = φ k → h = k
  object : ∀ h fields, ReflTransGen old.Refers root h → old.get? h = some ⟨.plain, fields⟩ →
    old.contains (φ h) = false ∧ ∃ copy, new.get? (φ h) = some ⟨.plain, copy⟩ ∧
      copy.keys.Perm fields.keys ∧
      ∀ name v, fields.find? name = some v →
        ∃ w, copy.find? name = some w ∧ Corresponds old new φ v w
  /-- What was there before is as it was. -/
  kept : ∀ h object, old.get? h = some object → new.get? h = some object
  /-- No array of the copy stands in two places of it. -/
  unshared : ∀ p q a, old.contains p.owner = false → old.contains q.owner = false →
    new.kind? a = some (.array #[]) → new.at? p = some (.object a) → new.at? q = some (.object a) →
    p = q

end

/-! ## Values -/

namespace Loading

open Saving (Site Shown scalar? NodeShown Depicts)

theorem intValue_ofInt {n : Int} (hmin : Int32.minValue.toInt ≤ n) (hmax : n ≤ Int32.maxValue.toInt) :
    intValue (.ofInt n) = .int (.ofInt n) := by
  have hlow : (-2 : Int) ^ 31 ≤ n := hmin
  have hhigh : n ≤ 2 ^ 31 - 1 := hmax
  have hsame : (Int64.ofInt n).toInt = n := Int64.toInt_ofInt_of_le (by omega) (by omega)
  unfold intValue
  rw [hsame, if_pos (by rw [Bool.and_eq_true, decide_eq_true_iff, decide_eq_true_iff]; exact ⟨hmin, hmax⟩)]

/-- A value that is shown by itself comes back as itself, up to the width of numbers. -/
theorem corresponds_of_scalar {old new : Heap P} {φ : Handle → Handle} {v w : Value} {entry : Entry}
    (hscalar : scalar? v = some entry) (hleaf : leafValue? entry = some w) :
    Corresponds old new φ v w := by
  cases v with
  | null =>
    obtain rfl := Option.some.inj hscalar
    exact Option.some.inj hleaf ▸ .null
  | bool b =>
    obtain rfl := Option.some.inj hscalar
    exact Option.some.inj hleaf ▸ .bool b
  | byte n =>
    obtain rfl := Option.some.inj hscalar
    have hbound : n.toNat < 256 := n.toNat_lt
    -- a byte is read as an integer of 32 bits, which it fits
    have hint : intValue (.ofNat n.toNat) = .int (.ofNat n.toNat) := by
      rw [← Int64.ofInt_eq_ofNat, ← Int32.ofInt_eq_ofNat]
      refine intValue_ofInt ?_ ?_
      · exact Int.le_trans (by decide) (Int.natCast_nonneg _)
      · rw [Int32.toInt_maxValue]
        omega
    rw [leafValue?, hint] at hleaf
    exact Option.some.inj hleaf ▸ .byte n
  | int n =>
    obtain rfl := Option.some.inj hscalar
    rw [leafValue?, intValue_ofInt n.minValue_le_toInt n.toInt_le, Int32.ofInt_toInt] at hleaf
    exact Option.some.inj hleaf ▸ .int n
  | float x =>
    obtain rfl := Option.some.inj hscalar
    exact Option.some.inj hleaf ▸ .float x
  | double x =>
    obtain rfl := Option.some.inj hscalar
    exact Option.some.inj hleaf ▸ .double x
  | string text =>
    obtain rfl := Option.some.inj hscalar
    exact Option.some.inj hleaf ▸ .string text
  | _ => simp [scalar?] at hscalar

section

variable {s : Snapshot} {sites : List Site} {old new : Heap P} {object? : Nat → Option Handle}
  {φ : Handle → Handle} {path : List Handle} {v w : Value} {entry : Entry}

/-- What stands for the entry that shows a value corresponds to the value. -/
theorem Stands.corresponds (hstands : Stands s old new object? w entry)
    (hshown : Shown old s.nodes sites path v entry)
    (hdistinct : ∀ i j id, idAt? s.nodes i = some id → idAt? s.nodes j = some id → i = j)
    (hφ : ∀ (i : Nat) site, sites[i]? = some site → object? i = some (φ site.owner) ∧
      ∃ fields, old.get? site.owner = some ⟨.plain, fields⟩) :
    Corresponds old new φ v w := by
  induction hshown generalizing w with
  | @scalar path v entry hscalar =>
    cases hstands with
    | leaf hleaf => exact corresponds_of_scalar hscalar hleaf
    | _ => cases v <;> simp [scalar?] at hscalar
  | @node path h i hsite =>
    obtain ⟨hobject, fields, hget⟩ := hφ i _ hsite
    cases hstands with
    | leaf hleaf => simp [leafValue?] at hleaf
    | node hi =>
      rw [hobject] at hi
      exact Option.some.inj hi ▸ .object hget
  | @stub path i site id hsite hid =>
    obtain ⟨hobject, fields, hget⟩ := hφ i site hsite
    cases hstands with
    | leaf hleaf => simp [leafValue?] at hleaf
    | stub hid' hj =>
      -- no two nodes carry the same identifier, so the stub stands for this one
      rw [hdistinct _ _ id hid' hid, hobject] at hj
      exact Option.some.inj hj ▸ .object hget
    | missing hmissing =>
      rw [hmissing i hid] at hobject
      simp at hobject
  | @array path a items entries hget hsize _ ih =>
    cases hstands with
    | leaf hleaf => simp [leafValue?] at hleaf
    | array hnew hget' hsize' hitems =>
      refine .array hget hnew hget' (hsize'.trans hsize) fun i v w hv hw => ?_
      have hlt : i < entries.length := hsize ▸ (Array.getElem?_eq_some_iff.1 hv).1
      have hentry := List.getElem?_eq_getElem hlt
      exact ih i v _ hv hentry (hitems i w _ hw hentry)

/-- The object of each site, by the object that the site is about. -/
theorem exists_copy (hnodup : (sites.map Site.owner).Nodup)
    (hobject : ∀ (i : Nat) site, sites[i]? = some site → ∃ k, object? i = some k) :
    ∃ φ : Handle → Handle, ∀ (i : Nat) site, sites[i]? = some site →
      object? i = some (φ site.owner) := by
  have hpointwise : ∀ h : Handle, ∃ k, ∀ (i : Nat) site, sites[i]? = some site → site.owner = h →
      object? i = some k := by
    intro h
    by_cases hsite : ∃ (i : Nat) (site : Site), sites[i]? = some site ∧ site.owner = h
    · obtain ⟨i, site, hi, rfl⟩ := hsite
      obtain ⟨k, hk⟩ := hobject i site hi
      refine ⟨k, fun j site' hj howner => ?_⟩
      have hlt : j < (sites.map Site.owner).length := by
        rw [List.length_map]
        exact (List.getElem?_eq_some_iff.1 hj).1
      have howners : (sites.map Site.owner)[j]? = (sites.map Site.owner)[i]? := by
        rw [List.getElem?_map, List.getElem?_map, hj, hi, Option.map_some, Option.map_some, howner]
      rw [(List.getElem?_inj hlt hnodup).1 howners, hk]
    · exact ⟨default, fun i site hi howner => absurd ⟨i, site, hi, howner⟩ hsite⟩
  choose φ hφ using hpointwise
  exact ⟨φ, fun i site hi => hφ site.owner i site hi rfl⟩

/-- What is built from a complete picture of a graph is a copy of the graph. -/
theorem Rebuilt.copies {root : Handle} {room : Nat}
    (hrebuilt : Rebuilt s old new object? (List.range s.nodes.size)) (hdepicts : Depicts old root s sites) (hgraph : old.PlainGraph root)
    (horderly : s.Orderly room)
    (hφ : ∀ (i : Nat) site, sites[i]? = some site → object? i = some (φ site.owner)) :
    Copies old new φ root := by
  have hsites : ∀ (i : Nat) site, sites[i]? = some site → ∃ node, s.nodes[i]? = some node ∧
      i ∈ List.range s.nodes.size ∧ NodeShown old s.nodes sites site node := by
    intro i site hsite
    have hlt : i < s.nodes.size := hdepicts.size ▸ (List.getElem?_eq_some_iff.1 hsite).1
    have hnode := Array.getElem?_eq_getElem hlt
    exact ⟨_, hnode, List.mem_range.2 hlt, (hdepicts.node i _ site hnode hsite).2⟩
  constructor
  case kept => exact hrebuilt.kept
  case unshared => exact hrebuilt.unshared
  case injective =>
    intro h k fields fields' hh hk hget hget' heq
    -- each object of the graph has a node of its own
    obtain ⟨i, site, hsite, rfl⟩ := hdepicts.all h fields hh hget
    obtain ⟨j, site', hsite', rfl⟩ := hdepicts.all k fields' hk hget'
    have hobject := hφ i site hsite
    rw [heq] at hobject
    obtain rfl := hrebuilt.distinct i j _ hobject (hφ j site' hsite')
    rw [hsite] at hsite'
    rw [Option.some.inj hsite']
  case object =>
    intro h fields hh hget
    obtain ⟨i, site, hsite, rfl⟩ := hdepicts.all h fields hh hget
    obtain ⟨node, hnode, hi, fields', hget', -, hshown⟩ := hsites i site hsite
    obtain rfl : fields = fields' := by simpa [hget] using hget'
    obtain ⟨k, node', copy, hnode', hk, hnew, hcopy, hkeys, hcarried⟩ := hrebuilt.built i hi
    obtain rfl := Option.some.inj (hnode.symm.trans hnode')
    obtain rfl := Option.some.inj ((hφ i site hsite).symm.trans hk)
    refine ⟨hnew, copy, hcopy, ?_, fun name v hv => ?_⟩
    -- no field of a plain graph holds a function, so the keys are the names of the fields
    · have hnames : node.entries.entries.map Snapshot.fieldName = fields.keys := by
        rw [Table.keys, ← Saving.keys_of_forall₂ hshown]
        exact List.map_congr_left fun entry hentry =>
          fieldName_of_none (hdepicts.functionOf? hgraph hnode hentry)
      exact hnames ▸ hkeys
    · obtain ⟨entry, hentry, hname, hvalue⟩ :=
        Saving.exists_of_forall₂_left hshown (Table.find?_eq_some_iff.1 hv)
      obtain ⟨w, hw, hstands⟩ :=
        (hcarried entry hentry).value (hdepicts.functionOf? hgraph hnode hentry)
      have hplain : ∀ (i : Nat) site, sites[i]? = some site → object? i = some (φ site.owner) ∧
          ∃ fields, old.get? site.owner = some ⟨.plain, fields⟩ := by
        intro j site' hsite'
        obtain ⟨-, -, -, fields', hget', -⟩ := hsites j site' hsite'
        exact ⟨hφ j site' hsite', fields', hget'⟩
      rw [hname] at hw
      exact ⟨w, hw, hstands.corresponds hvalue horderly.distinct hplain⟩

end

end Loading

theorem Heap.expand_plain {heap : Heap P} {h : Handle} {fields : Table Value}
    (hget : heap.get? h = some ⟨.plain, fields⟩) : heap.expand (.object h) = .object h := by
  rw [Heap.expand, Heap.expandOn]
  split
  · rfl
  · next object hobject =>
    obtain rfl := Option.some.inj (hget.symm.trans hobject)
    rfl

/-- A plain graph that has been saved can be loaded, in either mode, when there is room for its
objects, and what is loaded is a copy of it. -/
theorem Host.load_save (host : Host P) {r : Realm P} (hr : r.Reachable) {root : Handle}
    (hgraph : r.heap.PlainGraph root) {s : Snapshot}
    (hsave : r.save (.object root) false none = .ok s) (hroom : r.heap.HasRoom s.objectCount) :
    ∃ φ r', Id.run ((host.load s false).run.run r) = (.ok (.object (φ root)), r') ∧
      Copies r.heap r'.heap φ root := by
  obtain ⟨horderly, sites, hshows⟩ :=
    Realm.shows_of_save hr.sound.registry.nodup_visibleProperties hsave
  have hdepicts := hshows.depicts hr.sound hgraph horderly
  obtain ⟨start, hroot, hstart⟩ := hdepicts.start
  -- every stub has its node, so that strict mode has nothing to complain about
  have hnamed : ∀ id, s.Names id → ∃ i ∈ List.range s.nodes.size, idAt? s.nodes i = some id := by
    intro id hid
    obtain ⟨i, hi⟩ := (horderly.named id).1 hid.mem_stubsOf
    obtain ⟨node, hnode, -⟩ := Option.bind_eq_some_iff.1 hi
    exact ⟨i, List.mem_range.2 (Array.getElem?_eq_some_iff.1 hnode).1, hi⟩
  obtain ⟨v, r', object?, hload, hrebuilt, hstands, -⟩ :=
    host.load_rebuilds (hdepicts.classless hgraph horderly) hr.sound.wellFormed horderly.preorder
      List.nodup_range (by simp [hroot]) hroom (fun _ => hnamed) false
  obtain ⟨φ, hφ⟩ := Loading.exists_copy hdepicts.nodup fun i site hsite => by
    have hlt : i < s.nodes.size := hdepicts.size ▸ (List.getElem?_eq_some_iff.1 hsite).1
    obtain ⟨k, node, fields, -, hk, -⟩ := hrebuilt.built i (List.mem_range.2 hlt)
    exact ⟨k, hk⟩
  have hcopies := hrebuilt.copies hdepicts hgraph horderly hφ
  obtain ⟨fields, hget⟩ := hgraph.start
  obtain ⟨-, copy, hcopy, -⟩ := hcopies.object root fields .refl hget
  have hv : v = .object (φ root) := by
    rw [hroot] at hstands
    cases hstands with
    | leaf hleaf => simp [Loading.leafValue?] at hleaf
    | node hi =>
      rw [hφ start _ hstart] at hi
      rw [Option.some.inj hi]
  refine ⟨φ, r', ?_, hcopies⟩
  rw [hload, hv, Realm.expand, Heap.expand_plain hcopy]

namespace Realm

/-- A realm with an object that refers to itself and to an array of one item. -/
def ofRing : Realm Scenario.platform :=
  let r := ((ofRegistry .builtins .standard Scenario.Stage.empty).newObject.2.newArray [.byte 7]).2
  let r := after (putProperty ⟨1, 0⟩ "self" (.object ⟨1, 0⟩) false) r
  after (putProperty ⟨1, 0⟩ "items" (.object ⟨2, 0⟩) false) r

theorem reachable_ofRing : ofRing.Reachable := by
  have hsteps : Steps (ofRegistry .builtins .standard Scenario.Stage.empty) ofRing :=
    .tail (.tail (.tail (.single (.newObject _)) (.newArray [.byte 7] _))
      (.putProperty ⟨1, 0⟩ "self" (.object ⟨1, 0⟩) false _))
      (.putProperty ⟨1, 0⟩ "items" (.object ⟨2, 0⟩) false _)
  have hcapacity : ofRing.heap.capacity = 3 := by cbv
  exact ⟨.builtins, .standard, Scenario.Stage.empty, .builtins, hsteps, by rw [hcapacity]; decide⟩

theorem plainGraph_ofRing : ofRing.heap.PlainGraph ⟨1, 0⟩ := by
  have hring : ofRing.heap.get? ⟨1, 0⟩ = some ⟨.plain, ⟨[("self", .object ⟨1, 0⟩),
      ("items", .object ⟨2, 0⟩)], by decide⟩⟩ := by cbv
  have hitems : ofRing.heap.get? ⟨2, 0⟩ = some ⟨.array #[.byte 7], .empty⟩ := by cbv
  -- the array leads nowhere, so the ring is all that one comes to
  have hend : ∀ k, ¬ofRing.heap.Refers ⟨2, 0⟩ k := by
    rintro k ⟨object, hget, hk⟩
    obtain rfl := Option.some.inj (hitems.symm.trans hget)
    simp [ScriptObject.slots, ScriptObject.items?, Table.values, Table.empty] at hk
  have hreach : ∀ h, ReflTransGen ofRing.heap.Refers ⟨1, 0⟩ h → h = ⟨1, 0⟩ ∨ h = ⟨2, 0⟩ := by
    intro h hreach
    induction hreach with
    | refl => exact Or.inl rfl
    | tail _ hrefers ih =>
      rcases ih with rfl | rfl
      · obtain ⟨object, hget, hk⟩ := hrefers
        obtain rfl := Option.some.inj (hring.symm.trans hget)
        simpa [ScriptObject.slots, ScriptObject.items?, Table.values] using hk
      · exact absurd hrefers (hend _)
  constructor
  case start => exact ⟨_, hring⟩
  case forms =>
    intro h hh
    rcases hreach h hh with rfl | rfl
    · exact Or.inl ⟨_, hring⟩
    · exact Or.inr ⟨_, hitems⟩
  case slots =>
    intro h object hh hget v hv
    rcases hreach h hh with rfl | rfl
    · obtain rfl := Option.some.inj (hring.symm.trans hget)
      simp only [ScriptObject.slots, ScriptObject.items?, Table.values, List.map_cons, List.map_nil,
        Option.elim_none, List.append_nil, List.mem_cons, List.not_mem_nil, or_false] at hv
      rcases hv with rfl | rfl <;> simp
    · obtain rfl := Option.some.inj (hitems.symm.trans hget)
      obtain rfl : v = .byte 7 := by
        simpa [ScriptObject.slots, ScriptObject.items?, Table.values, Table.empty] using hv
      simp
  case names =>
    intro h fields hh hget name hname
    rcases hreach h hh with rfl | rfl
    · have hobject := Option.some.inj (hring.symm.trans hget)
      rw [ScriptObject.mk.injEq] at hobject
      rw [← hobject.2] at hname
      revert name
      decide
    · simp [hitems] at hget
  case acyclic =>
    intro h items fields hh hget hcycle
    rcases hreach h hh with rfl | rfl
    · simp [hring] at hget
    · obtain ⟨k, hk, -⟩ := TransGen.head'_iff.1 hcycle
      exact hend k hk

end Realm

/-- A reference of an object to itself and an array survive a round trip. -/
theorem Host.load_save_ring :
    Realm.ofRing.Reachable ∧ Realm.ofRing.heap.PlainGraph ⟨1, 0⟩ ∧
    ∃ s, Realm.ofRing.save (.object ⟨1, 0⟩) false none = .ok s ∧
      Realm.ofRing.heap.HasRoom s.objectCount ∧
      ∃ φ r', Id.run (((Scenario.host false).load s false).run.run Realm.ofRing) =
        (.ok (.object (φ ⟨1, 0⟩)), r') ∧ Copies Realm.ofRing.heap r'.heap φ ⟨1, 0⟩ := by
  obtain ⟨s, hsave, hcount⟩ :
      ∃ s, Realm.ofRing.save (.object ⟨1, 0⟩) false none = .ok s ∧ s.objectCount = 2 :=
    ⟨⟨#[⟨none, some "1", ⟨[("self", .stub "1"), ("items", .array [.int 7])], by decide⟩⟩], .node 0⟩,
      by cbv, by cbv⟩
  have hcapacity : Realm.ofRing.heap.capacity = 3 := by cbv
  have hroom : Realm.ofRing.heap.HasRoom s.objectCount := by
    have hsize : UInt32.size = 4294967296 := rfl
    rw [Heap.HasRoom, hcapacity, hcount, hsize]
    omega
  exact ⟨Realm.reachable_ofRing, Realm.plainGraph_ofRing, s, hsave, hroom,
    Host.load_save (Scenario.host false) Realm.reachable_ofRing Realm.plainGraph_ofRing hsave hroom⟩

end ScriptBridge
