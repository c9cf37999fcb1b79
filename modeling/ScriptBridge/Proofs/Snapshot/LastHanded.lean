import ScriptBridge.Proofs.Snapshot.Proceeding

/-!
# Properties Hold what They are Handed Last

Of all that a load does to a realm, a property sees what it is handed, and nothing else. So a field
holds at any time what it has been handed last. A property of a class does so if its accessor lets it:
if what is written is read back, and no other setter of the class interferes. `Registry.Retains` asks
for this, and `Told.Effects` says what a load that is told is made of.

Main statements: `ScriptObject.Mirrors.put` (one write), and `Told.Effect.mirroring` and
`Told.Effects.mirroring` (one effect, and a run of them).
-/

namespace ScriptBridge

open Realm (after)

variable {P : Platform}

/-! ## Values and Accessors -/

/-- A value as slots hold it: an array by its handle, if it has one. -/
def Value.slot : Value → Value
  | .array (some a) _ => .object a
  | value => value

theorem Heap.slot_expand (heap : Heap P) {v : Value} (hinline : v.isInline = false) :
    (heap.expand v).slot = v := by
  have hself : ∀ v : Value, v.isInline = false → v.slot = v := by
    intro v hv
    cases v <;> first | rfl | cases hv
  by_cases hitems : ∃ a items, v = .object a ∧ heap.items? a = some items
  · obtain ⟨a, items, rfl, hitems⟩ := hitems
    rw [Heap.expand, expandOn_of_not_mem hitems List.not_mem_nil]
    rfl
  -- what is no array expands to itself
  · rw [Heap.expand, expandOn_of_items?_eq_none hinline]
    · exact hself v hinline
    · rintro a rfl
      rw [Option.eq_none_iff_forall_ne_some]
      exact fun items hsome => hitems ⟨a, items, rfl, hsome⟩

/-- What an object is seen as from outside of the heap: an array with its items, anything else by its
handle. -/
structure Heap.Presents (heap : Heap P) (k : Handle) (v : Value) : Prop where
  slot : v.slot = .object k
  inline : v.isInline = (heap.items? k).isSome

theorem Heap.presents_expand {heap heap' : Heap P} {k : Handle}
    (hsame : (heap'.items? k).isSome = (heap.items? k).isSome) :
    heap.Presents k (heap'.expand (.object k)) where
  slot := heap'.slot_expand rfl
  inline := by
    rw [← hsame]
    cases hitems : heap'.items? k with
    | none =>
      rw [Heap.expand, expandOn_of_items?_eq_none rfl]
      · rfl
      · intro a ha
        rw [← Value.object.inj ha]
        exact hitems
    | some items =>
      rw [Heap.expand, expandOn_of_not_mem hitems List.not_mem_nil]
      rfl

/-- What a setter makes of native state, whether it fails or not. -/
def BoundProperty.written (b : BoundProperty P) (value : Value) (m : Surroundings P)
    (native : Native P.Layer) (world : P.World) : Native P.Layer :=
  (after (b.accessor.write value m) ⟨native, world⟩).native

/-- A property reads as a value, an array among them by its handle. -/
def BoundProperty.Reads (b : BoundProperty P) (native : Native P.Layer) (value : Value) : Prop :=
  ∃ read, b.accessor.get native = .ok read ∧ read.slot = value.slot

/-- A property of a class keeps a value as long as it is not written again: on native state of a kind
that new instances have and no setter of the class takes away. -/
structure Registry.Retains (registry : Registry P) (c : ClassNumber) (name : String)
    (Kind : Native P.Layer → Prop) (value : Value) : Prop where
  /-- New instances have state of the kind. -/
  fresh : ∃ make, registry.resolveFresh? c = some make ∧ ∀ world, Kind (make world)
  /-- The state is of the kind after each write. -/
  kind : ∀ key b, registry.resolveProperty? c key = some b → ∀ v m native world, Kind native →
    Kind (b.written v m native world)
  /-- The property can be written. -/
  writable : ∀ b, registry.resolveProperty? c name = some b → b.acceptsWrites = true
  /-- The value is read back after it has been written. -/
  back : ∀ b, registry.resolveProperty? c name = some b → ∀ m native world, Kind native →
    b.Reads (b.written value m native world) value
  /-- A write to another property leaves it. -/
  apart : ∀ b, registry.resolveProperty? c name = some b → ∀ key other, key ≠ name →
    registry.resolveProperty? c key = some other → ∀ v m native world, Kind native →
    b.Reads native value → b.Reads (other.written v m native world) value

/-! ## Objects -/

/-- The properties of an object hold what they have been handed last. -/
structure ScriptObject.Mirrors (object : ScriptObject P) (registry : Registry P)
    (last : String → Option Value) : Prop where
  /-- A field does so at any time. -/
  field : ∀ name, object.class?.bind (registry.resolveProperty? · name) = none →
    object.fields.find? name = (last name).map Value.slot
  /-- A property of the class does so if it keeps the value. -/
  bound : ∀ c name Kind value, object.class? = some c → registry.Retains c name Kind value →
    ∃ native, object.native? = some native ∧ Kind native ∧
      (last name = some value → ∀ b, registry.resolveProperty? c name = some b →
        b.Reads native value)

section

variable {registry : Registry P} {object : ScriptObject P} {last : String → Option Value}
  {name : String} {value handed : Value}

/-- Nothing has been handed to a new object. -/
theorem ScriptObject.mirrors_freshForm (r : Realm P) (c : ClassNumber) :
    (ofForm (r.freshForm c)).Mirrors r.registry fun _ => none where
  field name _ := Table.find?_empty name
  bound k name Kind value hclass hretains := by
    obtain rfl := Realm.class?_freshForm hclass
    obtain ⟨make, hmake, hkind⟩ := hretains.fresh
    refine ⟨make r.world, ?_, hkind r.world, nofun⟩
    unfold Realm.freshForm at hclass ⊢
    split at hclass
    · cases hclass
    · split at hclass
      · cases hclass
      · next hplain harray =>
        rw [if_neg hplain, if_neg harray, hmake]
        rfl

theorem ScriptObject.mirrors_of_class? (hclass : object.class? = none)
    (hfields : ∀ name, object.fields.find? name = (last name).map Value.slot) :
    object.Mirrors registry last where
  field name _ := hfields name
  bound c _ _ _ hc := by
    rw [hclass] at hc
    cases hc

/-- What is known after one more value has been handed over, when the class binds no such name. -/
theorem ScriptObject.Mirrors.setField (h : object.Mirrors registry last)
    (hfree : object.class?.bind (registry.resolveProperty? · name) = none)
    (hslot : handed.slot = value) :
    (object.setField name value).Mirrors registry
      fun n => if name = n then some handed else last n where
  field n hn := by
    show (object.fields.insert name value).find? n = _
    rw [Table.find?_insert]
    by_cases hname : name = n
    · rw [if_pos hname, if_pos hname.symm, Option.map_some, hslot]
    · rw [if_neg hname, if_neg (Ne.symm hname)]
      exact h.field n hn
  bound c n Kind v hclass hretains := by
    have hclass : object.class? = some c := hclass
    obtain ⟨native, hnative, hkind, hreads⟩ := h.bound c n Kind v hclass hretains
    refine ⟨native, hnative, hkind, fun hlast b hb => ?_⟩
    -- the class binds the one name and not the other
    have hname : name ≠ n := by
      rintro rfl
      rw [hclass, Option.bind_some, hb] at hfree
      cases hfree
    rw [if_neg hname] at hlast
    exact hreads hlast b hb

/-- A value has been handed to a property of the class that is not open to it. -/
theorem ScriptObject.Mirrors.refuse (h : object.Mirrors registry last) {b : BoundProperty P}
    (hb : object.class?.bind (registry.resolveProperty? · name) = some b)
    (hrefused : b.acceptsWrites = false ∨ object.native? = none) :
    object.Mirrors registry fun n => if name = n then some handed else last n where
  field n hn := by
    have hname : name ≠ n := by
      rintro rfl
      rw [hb] at hn
      cases hn
    rw [if_neg hname]
    exact h.field n hn
  bound c n Kind v hclass hretains := by
    obtain ⟨native, hnative, hkind, hreads⟩ := h.bound c n Kind v hclass hretains
    have hname : name ≠ n := by
      rintro rfl
      rw [hclass, Option.bind_some] at hb
      rcases hrefused with hreadonly | hnone
      · rw [hretains.writable b hb] at hreadonly
        cases hreadonly
      · rw [hnative] at hnone
        cases hnone
    refine ⟨native, hnative, hkind, fun hlast => hreads ?_⟩
    rwa [if_neg hname] at hlast

/-- A value has been handed to a property of the class. -/
theorem ScriptObject.Mirrors.setNative (h : object.Mirrors registry last) {b : BoundProperty P}
    (hb : object.class?.bind (registry.resolveProperty? · name) = some b)
    {native : Native P.Layer} (hnative : object.native? = some native) (m : Surroundings P)
    (world : P.World) :
    (object.setNative (b.written handed m native world)).Mirrors registry
      fun n => if name = n then some handed else last n := by
  obtain ⟨form, fields⟩ := object
  cases form with
  | instanceOf k found =>
    obtain rfl : found = some native := hnative
    constructor
    case field =>
      intro n hn
      have hname : name ≠ n := by
        rintro rfl
        exact nomatch hb.symm.trans hn
      rw [if_neg hname]
      exact h.field n hn
    case bound =>
      intro c n Kind v hclass hretains
      obtain rfl : k = c := Option.some.inj hclass
      obtain ⟨before, hbefore, hkind, hreads⟩ := h.bound k n Kind v rfl hretains
      obtain rfl : native = before := Option.some.inj hbefore
      refine ⟨_, rfl, hretains.kind name b hb handed m native world hkind, fun hlast b' hb' => ?_⟩
      by_cases hname : name = n
      · subst hname
        rw [if_pos rfl] at hlast
        obtain rfl : handed = v := Option.some.inj hlast
        obtain rfl : b = b' := Option.some.inj (hb.symm.trans hb')
        exact hretains.back b hb m native world hkind
      · rw [if_neg hname] at hlast
        exact hretains.apart b' hb' name b hname hb handed m native world hkind (hreads hlast b' hb')
  | _ => cases hnative

/-- What a write makes of an object that is no array and mirrors what it has been handed. -/
theorem ScriptObject.Mirrors.put {r : Realm P} {h : Handle} {object object' : ScriptObject P}
    {last : String → Option Value} (hmirrors : object.Mirrors r.registry last)
    (hget : r.heap.get? h = some object) (hitems : object.items? = none) (name : String) {v : Value}
    (hinline : v.isInline = false)
    (hget' : (after (Realm.putProperty h name v true) r).heap.get? h = some object') :
    object'.Mirrors r.registry fun n => if name = n then some (r.expand v) else last n := by
  cases hbinding : r.binding? object name with
  | none =>
    rw [Realm.heap_putProperty_of_field hget hbinding hitems hinline, Heap.get?_modify, if_pos rfl,
      hget] at hget'
    obtain rfl := Option.some.inj hget'
    exact hmirrors.setField hbinding (r.heap.slot_expand hinline)
  | some b =>
    -- the property refuses the value, or its setter runs on the native state
    have hput : (after (Realm.putProperty h name v true) r).heap =
        if b.acceptsWrites then
          (after (Realm.onNative h true fun m => b.accessor.write (r.expand v) m) r).heap
        else r.heap := by
      unfold Realm.putProperty
      let R : Realm P → Realm P → Prop := fun a a' => a'.heap =
        if b.acceptsWrites then
          (after (Realm.onNative h true fun m => b.accessor.write (r.expand v) m) r).heap
        else a.heap
      refine Realm.after_get (R := R) ?_
      simp only [hget, hbinding]
      cases hwrites : b.acceptsWrites with
      | false => exact (if_neg (hwrites ▸ Bool.false_ne_true)).symm
      | true => exact (if_pos hwrites).symm
    rw [hput] at hget'
    cases hwrites : b.acceptsWrites with
    | false =>
      rw [hwrites, if_neg Bool.false_ne_true, hget] at hget'
      obtain rfl := Option.some.inj hget'
      exact hmirrors.refuse hbinding (Or.inl hwrites)
    | true =>
      rw [hwrites, if_pos rfl, after, Realm.run_onNative] at hget'
      cases hnative : object.native? with
      | none =>
        have hstate : r.native h = .error (Realm.noNativeError h) := by
          simp only [Realm.native, hget, hnative]
        rw [hstate, hget] at hget'
        obtain rfl := Option.some.inj hget'
        exact hmirrors.refuse hbinding (Or.inr hnative)
      | some native =>
        have hstate : r.native h = .ok native := by simp only [Realm.native, hget, hnative]
        rw [hstate] at hget'
        have hmodify : (r.heap.modify h fun object => object.setNative
            (b.written (r.expand v) ⟨true, r.heap, r.registry.tree⟩ native r.world)).get? h =
            some object' := hget'
        rw [Heap.get?_modify, if_pos rfl, hget] at hmodify
        obtain rfl := Option.some.inj hmodify
        exact hmirrors.setNative hbinding hnative _ _

end

/-! ## What a Load is Made of -/

namespace Loading

namespace Told

/-- What a load that is told does to a realm and to its account. -/
inductive Effect : Realm P × Account → Realm P × Account → Prop
  /-- Something is told that no property is handed. -/
  | tell {r : Realm P} {H H' : Account} :
      (∀ h n, H'.lastHanded h n = H.lastHanded h n) → Effect (r, H) (r, H')
  /-- An instance is made and protected. -/
  | make {r : Realm P} {H : Account} (c : ClassNumber) :
      Effect (r, H) ((r.instantiate c).2.protect (r.instantiate c).1, H)
  /-- A function is made. -/
  | function {r : Realm P} {H : Account} (f : FunctionObject P) :
      Effect (r, H) ((r.allocate (.ofForm (.function f))).2, H)
  /-- An item of an array is written. -/
  | assign {r : Realm P} {H : Account} {a : Handle} (i : Nat) {v : Value} :
      (r.heap.items? a).isSome = true → v.isInline = false →
      Effect (r, H) (after (Realm.assignElement a i v) r, H)
  /-- A property is handed a value. -/
  | hand {r : Realm P} {H : Account} {h : Handle} (n : String) {v : Value} :
      r.heap.Issued h → v.isInline = false →
      Effect (r, H) (after (Realm.putProperty h n v true) r, .handed h n (r.expand v) :: H)

/-- A run of effects. -/
abbrev Effects : Realm P × Account → Realm P × Account → Prop := Relation.ReflTransGen Effect

end Told

open Told (Effect Effects)

/-- Whatever has been made since a realm mirrors what it has been handed. -/
structure Mirroring (old r : Realm P) (H : Account) : Prop where
  registry : r.registry = old.registry
  handed : ∀ h n, H.lastHanded h n ≠ none → r.heap.Issued h
  mirrors : ∀ h object, ¬ old.heap.Issued h → r.heap.get? h = some object → object.items? = none →
    object.Mirrors old.registry (H.lastHanded h)

section

variable {old : Realm P} {a b : Realm P × Account}

theorem Told.Effect.changes (h : Effect a b) :
    a.1.heap.Changes (fun _ => True) (fun _ => True) b.1.heap := by
  cases h with
  | tell => exact .refl
  | @make r _ c => exact (Realm.freely_instantiate c r).heap
  | function f => exact .single (.allocate trivial)
  | @assign r _ k i v _ hinline =>
    exact (Realm.alters_assignElement (h := k) trivial i (Or.inl hinline) r).heap
  | @hand r _ k n v _ hinline =>
    exact (Realm.alters_putProperty (h := k) trivial n (Or.inl hinline) true r).heap

theorem Told.Effect.evolves (h : Effect a b) : Realm.Evolves a.1 b.1 := by
  cases h with
  | tell => exact .refl _
  | @make r _ c => exact (Realm.evolves_instantiate c r).trans ⟨rfl, rfl, Heap.Grows.refl⟩
  | @function r _ f => exact Realm.evolves_newFunction f.name f.body r
  | assign => exact Realm.evolves_assignElement _ _ _ _
  | hand => exact Realm.evolves_putProperty _ _ _ _ _

theorem Told.Effects.changes (h : Effects a b) :
    a.1.heap.Changes (fun _ => True) (fun _ => True) b.1.heap := by
  induction h with
  | refl => exact .refl
  | tail _ heffect ih => exact ih.trans heffect.changes

theorem Told.Effects.evolves (h : Effects a b) : Realm.Evolves a.1 b.1 := by
  induction h with
  | refl => exact .refl _
  | tail _ heffect ih => exact ih.trans heffect.evolves

theorem mirroring_start (r : Realm P) : Mirroring r r [] where
  registry := rfl
  handed _ _ hhanded := absurd rfl hhanded
  mirrors _ _ hnew hget _ := absurd (Heap.issued_of_get? hget) hnew

/-- An object is made, to which nothing has been handed so far. -/
theorem Mirroring.allocate {r : Realm P} {H : Account} (h : Mirroring old r H)
    (hwf : r.heap.WellFormed) {object : ScriptObject P} {r' : Realm P}
    (hheap : r'.heap = (r.heap.allocate object).2) (hregistry : r'.registry = r.registry)
    (hbound : r'.heap.capacity ≤ UInt32.size)
    (hobject : object.Mirrors r.registry fun _ => none) : Mirroring old r' H := by
  rw [hheap] at hbound
  have hroom := Heap.hasRoom_of_capacity_allocate hwf hbound
  have hchanges : r.heap.Changes (fun _ => True) (fun _ => True) (r.heap.allocate object).2 :=
    .single (.allocate trivial)
  refine ⟨hregistry.trans h.registry, fun k n hk => ?_, fun k other hnew hget hitems => ?_⟩
  · rw [hheap]
    exact hchanges.issued hwf hbound (h.handed k n hk)
  · rw [hheap, hwf.get?_allocate hroom] at hget
    split at hget
    · next hk =>
      obtain rfl := Option.some.inj hget
      have hnone : H.lastHanded k = fun _ => none := by
        funext n
        by_contra hsome
        exact hwf.not_issued_allocate hroom object (hk ▸ h.handed k n hsome)
      rw [hnone, ← h.registry]
      exact hobject
    · exact h.mirrors k other hnew hget hitems

/-- Where nothing is made, what is there has been there before, and has been an array or not. -/
theorem exists_before {heap heap' : Heap P} {edits : Handle → Prop}
    (hchanges : heap.Changes edits (fun _ => False) heap') (hwf : heap.WellFormed)
    (hbound : heap'.capacity ≤ UInt32.size) {k : Handle} {object : ScriptObject P}
    (hget : heap'.get? k = some object) :
    ∃ before, heap.get? k = some before ∧ (before.items?.isSome = object.items?.isSome) := by
  have hnature := hchanges.nature?_eq hwf hbound k
  obtain ⟨before, hbefore, -⟩ := Option.map_eq_some_iff.1
    (hnature.symm.trans (congrArg (Option.map ScriptObject.nature) hget))
  have hsome := Heap.isSome_items?_congr hnature
  rw [Heap.items?, hget, Option.bind_some, Heap.items?, hbefore, Option.bind_some] at hsome
  exact ⟨before, hbefore, hsome.symm⟩

/-- Items are written, which no property is. -/
theorem Mirroring.assign {r : Realm P} {H : Account} (h : Mirroring old r H)
    (hwf : r.heap.WellFormed) {k : Handle} (i : Nat) {v : Value}
    (harray : (r.heap.items? k).isSome = true) (hinline : v.isInline = false)
    (hbound : (after (Realm.assignElement k i v) r).heap.capacity ≤ UInt32.size) :
    Mirroring old (after (Realm.assignElement k i v) r) H := by
  have halters : Realm.Alters (· = k) (fun _ => False) r (after (Realm.assignElement k i v) r) :=
    Realm.alters_assignElement (by rfl) i (Or.inl hinline) r
  refine ⟨(Realm.evolves_assignElement k i v r).registry.trans h.registry, fun j n hj =>
    halters.heap.issued hwf hbound (h.handed j n hj), fun j object hnew hget hitems => ?_⟩
  obtain ⟨before, hbefore, hplain⟩ := exists_before halters.heap hwf hbound hget
  -- the array is not among what mirrors
  have hne : j ≠ k := by
    rintro rfl
    rw [Heap.items?, hbefore, Option.bind_some, hplain, hitems] at harray
    cases harray
  have hsame := (halters.heap.get?_of_issued hwf hbound (Heap.issued_of_get? hbefore) hne).2
  exact h.mirrors j object hnew (hsame.symm.trans hget) hitems

/-- A property is handed a value, and no other one. -/
theorem Mirroring.hand {r : Realm P} {H : Account} (h : Mirroring old r H)
    (hwf : r.heap.WellFormed) {k : Handle} (n : String) {v : Value} (hk : r.heap.Issued k)
    (hinline : v.isInline = false)
    (hbound : (after (Realm.putProperty k n v true) r).heap.capacity ≤ UInt32.size) :
    Mirroring old (after (Realm.putProperty k n v true) r) (.handed k n (r.expand v) :: H) := by
  have halters : Realm.Alters (· = k) (fun _ => False) r (after (Realm.putProperty k n v true) r) :=
    Realm.alters_putProperty (by rfl) n (Or.inl hinline) true r
  have hissued : ∀ j, r.heap.Issued j → (after (Realm.putProperty k n v true) r).heap.Issued j :=
    fun j hj => halters.heap.issued hwf hbound hj
  refine ⟨(Realm.evolves_putProperty k n v true r).registry.trans h.registry, fun j m hj => ?_,
    fun j object hnew hget hitems => ?_⟩
  · rw [Account.lastHanded_handed] at hj
    split at hj
    · next heq => exact hissued j (heq.1 ▸ hk)
    · exact hissued j (h.handed j m hj)
  · obtain ⟨before, hbefore, hplain⟩ := exists_before halters.heap hwf hbound hget
    rw [hitems, Option.isSome_none, Option.isSome_eq_false_iff, Option.isNone_iff_eq_none] at hplain
    have hmirrors := h.mirrors j before hnew hbefore hplain
    by_cases hj : k = j
    · subst hj
      have hlast : Account.lastHanded (.handed k n (r.expand v) :: H) k =
          fun m => if n = m then some (r.expand v) else H.lastHanded k m := by
        funext m
        rw [Account.lastHanded_handed]
        simp only [true_and]
      rw [← h.registry] at hmirrors ⊢
      rw [hlast]
      exact hmirrors.put hbefore hplain n hinline hget
    · have hlast : Account.lastHanded (.handed k n (r.expand v) :: H) j = H.lastHanded j := by
        funext m
        rw [Account.lastHanded_handed, if_neg fun heq => hj heq.1]
      have hsame := (halters.heap.get?_of_issued hwf hbound (Heap.issued_of_get? hbefore)
        (Ne.symm hj)).2
      rw [hlast]
      exact h.mirrors j object hnew (hsame.symm.trans hget) hitems

/-- One case for each kind of effect. -/
theorem Told.Effect.mirroring (h : Effect a b) (hwf : a.1.heap.WellFormed)
    (hbound : b.1.heap.capacity ≤ UInt32.size) (ha : Mirroring old a.1 a.2) :
    Mirroring old b.1 b.2 := by
  cases h with
  | @tell r H H' hsame =>
    have hlast : ∀ k, H'.lastHanded k = H.lastHanded k := fun k => funext (hsame k)
    refine ⟨ha.registry, fun k n hk => ha.handed k n (hsame k n ▸ hk), ?_⟩
    intro k object hnew hget hitems
    rw [hlast]
    exact ha.mirrors k object hnew hget hitems
  | @make r H c =>
    have hallocate : (r.instantiate c).2.protect (r.instantiate c).1 =
        (r.allocate (.ofForm (r.freshForm c))).2.protect (r.instantiate c).1 := by
      rw [Realm.instantiate_eq]
    rw [hallocate] at hbound ⊢
    exact ha.allocate hwf rfl rfl hbound (ScriptObject.mirrors_freshForm r c)
  | function f => exact ha.allocate hwf rfl rfl hbound (ScriptObject.mirrors_of_class? rfl fun _ => rfl)
  | assign i harray hinline => exact ha.assign hwf i harray hinline hbound
  | hand n hk hinline => exact ha.hand hwf n hk hinline hbound

/-- A run of effects leaves everything that it makes with what it has been handed last. -/
theorem Told.Effects.mirroring (h : Effects a b) (hwf : a.1.heap.WellFormed)
    (hbound : b.1.heap.capacity ≤ UInt32.size) (ha : Mirroring old a.1 a.2) :
    Mirroring old b.1 b.2 := by
  induction h with
  | refl => exact ha
  | @tail x y hrun heffect ih =>
    have hbefore := Nat.le_trans heffect.changes.capacity_le hbound
    have hchanges := Told.Effects.changes hrun
    exact heffect.mirroring (hchanges.wellFormed hwf hbefore) hbound (ih hbefore)

end

end Loading

end ScriptBridge
