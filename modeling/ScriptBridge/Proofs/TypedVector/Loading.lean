import ScriptBridge.Proofs.TypedVector.Conforming
import ScriptBridge.Proofs.Snapshot.Course
import ScriptBridge.Proofs.Snapshot.Awakening

/-!
# Vectors in a Load

A snapshot may come from anywhere and name any class for the elements of a vector. But the class is
named early: by then the vector of the new instance holds no objects, and nothing that is read or
waits in the meantime puts any into it. The elements come later and are looked at like those of any
other write, so a realm that conforms still does after a load, whatever the snapshot is.

Main statements: `leads_build`, `Host.conserves_load` and `Host.conserves_clone`.
-/

namespace ScriptBridge

open Realm (after after_get Alters Conserves Evolves)

variable {P : Platform}

/-! ## What a Write Does to the Vector that it Goes to -/

namespace Realm

open NativeAction (Turns)

variable {r r' : Realm P} {h : Handle} {name : String} {value : Value}

/-- Whether what a name is bound to on an object is written early. -/
def BindsEarly (r : Realm P) (h : Handle) (name : String) (early : Bool) : Prop :=
  ∀ object b, r.heap.get? h = some object → r.binding? object name = some b →
    b.flags.contains .early = early

/-- If an object has a vector, there are no objects in it. -/
def Idle (r : Realm P) (h : Handle) : Prop := ∀ v, r.heap.vector? h = some v → v.handles = []

/-- Objects stay what they are, and so do the names that their classes bind. -/
theorem BindsEarly.mono {early : Bool} (hbinds : r.BindsEarly h name early)
    (hregistry : r'.registry = r.registry) (halive : r.heap.contains h = true)
    (hnature : ∀ nature, r.heap.nature? h = some nature → r'.heap.nature? h = some nature) :
    r'.BindsEarly h name early := by
  intro object' b hget' hbinding
  obtain ⟨object, hget⟩ := Heap.contains_iff.1 halive
  have hsame := hnature object.nature (by rw [Heap.nature?, hget, Option.map_some])
  rw [Heap.nature?, hget', Option.map_some, Option.some.injEq] at hsame
  rw [binding?, hregistry, ScriptObject.class?_eq_of_nature_eq hsame] at hbinding
  exact hbinds object b hget hbinding

theorem Idle.allows (hidle : r.Idle h) (name : String) (value : Value) : r.Allows h name value := by
  intro object v b hget hv _ _ cls _ _ k hk
  rw [hidle v (by rw [Heap.vector?_of_get? hget, hv])] at hk
  cases hk

/-- The property that names a class is written early. -/
theorem allows_of_bindsEarly (hbinds : r.BindsEarly h name false) (value : Value) :
    r.Allows h name value := by
  rintro object v b hget - hbinding hmember cls rfl - k -
  have hearly : b.flags.contains .early = true := by
    simp only [TypedVector.Members.properties, List.mem_cons, Prod.mk.injEq, List.not_mem_nil,
      String.reduceEq, false_and, or_false, false_or, true_and] at hmember
    rw [hmember.2]
    decide
  rw [hbinds object b hget hbinding] at hearly
  cases hearly

/-- The vector that a write of a property leaves behind comes from the one that was there before. -/
theorem exists_vector?_putProperty {rel : TypedVector → TypedVector → Prop} (hrefl : ∀ v, rel v v)
    (hvalue : value.isInline = false) {deserializing : Bool}
    (hwrite : ∀ object b, r.heap.get? h = some object → r.binding? object name = some b →
      ∀ m, Turns (b.accessor.write (r.expand value) m) rel) {v' : TypedVector}
    (hv' : (after (putProperty h name value deserializing) r).heap.vector? h = some v') :
    ∃ v, r.heap.vector? h = some v ∧ rel v v' := by
  have hkept : (after (putProperty h name value deserializing) r).heap.vector? h =
      r.heap.vector? h → ∃ v, r.heap.vector? h = some v ∧ rel v v' :=
    fun hsame => ⟨v', hsame ▸ hv', hrefl v'⟩
  cases hget : r.heap.get? h with
  | none =>
    refine hkept (after_get (R := fun r r' : Realm P => r'.heap.vector? h = r.heap.vector? h) ?_)
    rw [hget]
    rfl
  | some object =>
    cases hbinding : r.binding? object name with
    | none =>
      rcases heap_putProperty_cases hget hbinding hvalue deserializing with heq | ⟨n, heq⟩ | heq
      · exact hkept (by rw [heq])
      · exact hkept (by rw [heq, Heap.vector?_modify _ _ fun o => Heap.vector?_mapItems o _])
      · exact hkept (by rw [heq, Heap.vector?_modify _ _ fun o => Heap.vector?_setField o _ _])
    | some b =>
      revert hv'
      refine after_get (R := fun r r' : Realm P => r'.heap.vector? h = some v' →
        ∃ v, r.heap.vector? h = some v ∧ rel v v') ?_
      simp only [hget, hbinding]
      split
      · exact fun hv' => ⟨v', hv', hrefl v'⟩
      · exact exists_vector?_onNative hrefl (hwrite object b hget hbinding _)

/-- Edits of other objects do not matter. -/
theorem Idle.changes {k : Handle} {edits : Handle → Prop} {makes : ScriptObject P → Prop}
    (hidle : r.Idle k) (hchanges : r.heap.Changes edits makes r'.heap) (hwf : r.heap.WellFormed)
    (hbound : r'.heap.capacity ≤ UInt32.size) (halive : r.heap.contains k = true)
    (hk : ¬ edits k) : r'.Idle k := by
  obtain ⟨object, hget⟩ := Heap.contains_iff.1 halive
  have hsame := (hchanges.get?_of_issued hwf hbound (Heap.issued_of_get? hget) hk).2
  intro v hv
  rw [Heap.vector?, hsame] at hv
  exact hidle v hv

/-- A write puts nothing into a vector if its property is written early, or if it writes a function. -/
theorem idle_putProperty (hregistry : r.registry.LeavesVectors) (hidle : r.Idle h)
    (hvalue : value.isInline = false)
    (hquiet : r.BindsEarly h name true ∨ ∃ f, value = .function f) (deserializing : Bool) :
    (after (putProperty h name value deserializing) r).Idle h := by
  have hwrite : ∀ object b, r.heap.get? h = some object → r.binding? object name = some b →
      ∀ m, Turns (b.accessor.write (r.expand value) m) fun v v' =>
        v.handles = [] → v'.handles = [] := by
    intro object b hget hbinding m
    obtain ⟨c, -, hresolve⟩ := Option.bind_eq_some_iff.1 hbinding
    rcases hregistry.property hresolve with hspares | hmember
    · exact (hspares _ m).turns fun _ => id
    · rcases hquiet with hearly | ⟨f, rfl⟩
      · exact TypedVector.Members.turns_early hmember (hearly object b hget hbinding) _ m
      · refine TypedVector.Members.turns_of_not_array hmember (fun origin items heq => ?_) m
        simp [expand, Heap.expand, Heap.expandOn] at heq
  intro v' hv'
  obtain ⟨v, hv, hempty⟩ := exists_vector?_putProperty (fun _ => id) hvalue hwrite hv'
  exact hempty (hidle v hv)

end Realm

namespace Loading

open Snapshot (Entry)
open Realm (Idle BindsEarly)

/-! ## States -/

/-- A place that may wait although its object belongs to those that are being prepared: it is a
property that is written early. -/
structure Harmless (early : Handle → Prop) (s : Loading P) (p : Place) : Prop where
  issued : s.heap.Issued p.owner
  property : early p.owner → ∃ name, p = .property p.owner name ∧
    s.realm.BindsEarly p.owner name true

/-- A state in which every vector fits. The vectors of the objects that are being prepared, whose
early properties have not all been written, hold no objects, and nothing waits that could put any
into them. -/
structure Prepared (early : Handle → Prop) (s : Loading P) : Prop where
  registry : s.realm.registry.LeavesVectors
  wellFormed : s.heap.WellFormed
  slotted : s.heap.Slotted
  conforming : s.realm.Conforming
  idle : ∀ h, early h → s.heap.contains h = true ∧ s.realm.Idle h
  waiting : ∀ id places, (id, places) ∈ s.waiting.entries → ∀ p ∈ places, Harmless early s p

/-- A step frees nothing, and keeps a state that way. -/
structure Prepares (early : Handle → Prop) (s s' : Loading P) : Prop where
  changes : s.heap.Changes (fun _ => True) (fun _ => True) s'.heap
  registry : s'.realm.registry = s.realm.registry
  prepared : (s.Bounded → Prepared early s) → s'.Bounded → Prepared early s'

instance (early : Handle → Prop) : Course (Prepares (P := P) early) where
  refl _ := ⟨.refl, rfl, id⟩
  trans h h' :=
    ⟨h.changes.trans h'.changes, h'.registry.trans h.registry, h'.prepared ∘ h.prepared⟩

section

variable {early wide : Handle → Prop} {s s' : Loading P} {h : Handle} {p : Place}

theorem Prepares.bounded (h : Prepares early s s') (hbound : s'.Bounded) : s.Bounded :=
  Nat.le_trans h.changes.capacity_le hbound

theorem Prepares.contains (h : Prepares early s s') (hs : s.Bounded → Prepared early s)
    {k : Handle} (hk : s.Bounded → s.heap.contains k = true) (hbound : s'.Bounded) :
    s'.heap.contains k = true := by
  obtain ⟨object, hget⟩ := Heap.contains_iff.1 (hk (h.bounded hbound))
  have hnature : s.heap.nature? k = some object.nature := by
    rw [Heap.nature?, hget, Option.map_some]
  obtain ⟨object', hget', -⟩ := Option.map_eq_some_iff.1
    (h.changes.nature? (hs (h.bounded hbound)).wellFormed hbound hnature)
  exact Heap.contains_iff.2 ⟨object', hget'⟩

theorem Harmless.imp (hp : Harmless wide s p) (hsub : ∀ k, early k → wide k) : Harmless early s p :=
  ⟨hp.issued, fun howner => hp.property (hsub _ howner)⟩

/-- What is asked of fewer objects holds all the more. -/
theorem Prepared.imp (hs : Prepared wide s) (hsub : ∀ k, early k → wide k) : Prepared early s :=
  { hs with
    idle := fun k hk => hs.idle k (hsub k hk)
    waiting := fun id places hentry p hp => (hs.waiting id places hentry p hp).imp hsub }

theorem Prepares.imp (h : Prepares wide s s') (hs : s.Bounded → Prepared wide s)
    (hsub : ∀ k, early k → wide k) : Prepares early s s' :=
  ⟨h.changes, h.registry, fun _ hbound => (h.prepared hs hbound).imp hsub⟩

theorem Harmless.mono (hp : Harmless early s p) (hs : Prepared early s)
    (hregistry : s'.realm.registry = s.realm.registry)
    (hchanges : s.heap.Changes (fun _ => True) (fun _ => True) s'.heap)
    (hbound : s'.Bounded) : Harmless early s' p := by
  refine ⟨hchanges.issued hs.wellFormed hbound hp.issued, fun howner => ?_⟩
  obtain ⟨name, hname, hbinds⟩ := hp.property howner
  exact ⟨name, hname, hbinds.mono hregistry (hs.idle _ howner).1
    fun _ => hchanges.nature? hs.wellFormed hbound⟩

theorem Prepares.harmless (h : Prepares early s s') (hs : s.Bounded → Prepared early s)
    (hp : s.Bounded → Harmless early s p) (hbound : s'.Bounded) : Harmless early s' p :=
  (hp (h.bounded hbound)).mono (hs (h.bounded hbound)) h.registry h.changes hbound

/-- What conserves the realm and puts nothing into the vectors of the objects that are being prepared
keeps a state prepared. -/
theorem prepares_realm {r : Realm P} (hevolves : Evolves s.realm r)
    (hchanges : s.heap.Changes (fun _ => True) (fun _ => True) r.heap)
    (hconserves : s.Bounded → Prepared early s → Conserves s.realm r)
    (hidle : Prepared early s → r.heap.capacity ≤ UInt32.size → ∀ k, early k → r.Idle k) :
    Prepares early s { s with realm := r } := by
  refine ⟨hchanges, hevolves.registry, fun hs hbound => ?_⟩
  have hbefore : s.Bounded := Nat.le_trans hchanges.capacity_le hbound
  have hprepared := hs hbefore
  obtain ⟨hwf, hslotted⟩ := hevolves.heap.sound hprepared.wellFormed hprepared.slotted hbound
  constructor
  case registry =>
    show r.registry.LeavesVectors
    rw [hevolves.registry]
    exact hprepared.registry
  case wellFormed => exact hwf
  case slotted => exact hslotted
  case conforming =>
    exact (hconserves hbefore hprepared).conforming hprepared.registry hprepared.wellFormed
      hprepared.slotted hbound hprepared.conforming
  case idle =>
    intro k hk
    refine ⟨?_, hidle hprepared hbound k hk⟩
    obtain ⟨object, hget⟩ := Heap.contains_iff.1 (hprepared.idle k hk).1
    have hnature : s.heap.nature? k = some object.nature := by
      rw [Heap.nature?, hget, Option.map_some]
    obtain ⟨object', hget', -⟩ :=
      Option.map_eq_some_iff.1 (hchanges.nature? hprepared.wellFormed hbound hnature)
    exact Heap.contains_iff.2 ⟨object', hget'⟩
  case waiting =>
    exact fun id places hentry p hp => (hprepared.waiting id places hentry p hp).mono hprepared
      hevolves.registry hchanges hbound

/-- What leaves the realm alone keeps a state prepared if the places that it adds to those that wait
are harmless. -/
theorem prepares_of_realm_eq (hrealm : s'.realm = s.realm)
    (hwaiting : s.Bounded → ∀ id places, (id, places) ∈ s'.waiting.entries → ∀ p ∈ places,
      (∃ others, (id, others) ∈ s.waiting.entries ∧ p ∈ others) ∨ Harmless early s p) :
    Prepares early s s' := by
  obtain ⟨r, built, waiting, lateItems, renewals, sleepers, made⟩ := s'
  obtain rfl : r = s.realm := hrealm
  refine ⟨.refl, rfl, fun hs hbound => ?_⟩
  obtain ⟨hregistry, hwf, hslotted, hconforming, hidle, hplaces⟩ := hs hbound
  refine ⟨hregistry, hwf, hslotted, hconforming, hidle, fun id places hentry p hp => ?_⟩
  obtain ⟨others, hothers, hp⟩ | ⟨hissued, hproperty⟩ := hwaiting hbound id places hentry p hp
  · exact ⟨(hplaces id others hothers p hp).issued, (hplaces id others hothers p hp).property⟩
  · exact ⟨hissued, hproperty⟩

/-- What is protected or noted changes nothing that matters. -/
theorem prepares_of_heap_eq {r : Realm P} (hevolves : Evolves s.realm r)
    (hheap : r.heap = s.realm.heap) : Prepares early s { s with realm := r } := by
  refine prepares_realm hevolves (hheap ▸ .refl)
    (fun _ _ => Conserves.of_heap_eq hevolves hheap) fun hs _ k hk v hv => ?_
  rw [hheap] at hv
  exact (hs.idle k hk).2 v hv

/-! ## Writing -/

theorem leads_putProperty {name : String} {value : Value} (hvalue : value.isInline = false)
    (hallows : s.Bounded → Prepared early s → s.realm.Allows h name value)
    (hquiet : s.Bounded → early h → s.realm.BindsEarly h name true ∨ ∃ f, value = .function f) :
    Leads (Prepares early) (attempt (Realm.putProperty h name value true)) s fun _ _ => True := by
  have halters : Alters (· = h) (fun _ => False) s.realm _ :=
    Realm.alters_putProperty (by rfl) name (Or.inl hvalue) true s.realm
  have hchanges := halters.heap.imp (fun _ _ => trivial) (fun _ _ => trivial)
  refine leads_attempt (prepares_realm (Realm.evolves_putProperty h name value true s.realm) hchanges
    (fun hbound hs => Realm.conserves_putProperty (hallows hbound hs) true)
    fun hs hbound k hk => ?_) fun _ => trivial
  obtain ⟨halive, hidle⟩ := hs.idle k hk
  by_cases hkh : k = h
  · subst hkh
    exact Realm.idle_putProperty hs.registry hidle hvalue
      (hquiet (Nat.le_trans hchanges.capacity_le hbound) hk) true
  · exact hidle.changes halters.heap hs.wellFormed hbound halive hkh

theorem leads_write {name : String} {value : Value} (hvalue : value.isInline = false)
    (hallows : s.Bounded → Prepared early s → s.realm.Allows h name value)
    (hquiet : s.Bounded → early h → s.realm.BindsEarly h name true ∨ ∃ f, value = .function f) :
    Leads (Prepares early) (write h name value) s fun _ _ => True := by
  refine (leads_putProperty hvalue hallows hquiet).bind fun outcome s' _ _ => ?_
  cases outcome with
  | ok answer => exact leads_pure trivial
  | error error =>
    apply leads_ask
    split
    · exact leads_throw _
    · exact leads_pure trivial

theorem leads_assignElement (hh : s.Bounded → Prepared early s → ¬ early h) (index : Nat)
    {value : Value} (hvalue : value.isInline = false) :
    Leads (Prepares early) (discard (perform (Realm.assignElement h index value))) s
      fun _ _ => True := by
  have halters : Alters (· = h) (fun _ => False) s.realm _ :=
    Realm.alters_assignElement (by rfl) index (Or.inl hvalue) s.realm
  have hchanges := halters.heap.imp (fun _ _ => trivial) (fun _ _ => trivial)
  refine leads_discard (leads_perform (prepares_realm
    (Realm.evolves_assignElement h index value s.realm) hchanges
    (fun _ _ => Realm.conserves_assignElement h index value s.realm) fun hs hbound k hk => ?_))
  obtain ⟨halive, hidle⟩ := hs.idle k hk
  refine hidle.changes halters.heap hs.wellFormed hbound halive fun hkh => ?_
  exact hh (Nat.le_trans hchanges.capacity_le hbound) hs (hkh ▸ hk)

theorem leads_await (id : String) (hp : s.Bounded → Harmless early s p) :
    Leads (Prepares early) (await id p) s fun _ _ => True := by
  refine leads_modify (prepares_of_realm_eq rfl fun hbound other places hentry q hq => ?_) trivial
  rcases Table.mem_entries_insert hentry with heq | hentry
  · obtain ⟨rfl, rfl⟩ := Prod.mk.inj heq
    rcases List.mem_append.1 hq with hq | hq
    · cases hfound : s.waiting.find? other with
      | none => simp [hfound] at hq
      | some before =>
        rw [hfound] at hq
        exact Or.inl ⟨before, Table.find?_eq_some_iff.1 hfound, hq⟩
    · rw [List.mem_singleton.1 hq]
      exact Or.inr (hp hbound)
  · exact Or.inl ⟨places, hentry, hq⟩

/-- Only an early property is written for an object that is being prepared, and what is written is an
object. -/
theorem leads_settle (target : Handle) (hp : s.Bounded → Harmless early s p) :
    Leads (Prepares early) (settle target p) s fun _ _ => True := by
  cases p with
  | property owner name =>
    refine leads_write rfl (fun _ _ => Realm.allows_of_ne_string fun _ => Value.noConfusion) ?_
    intro hbound howner
    obtain ⟨name', hname, hbinds⟩ := (hp hbound).property howner
    obtain ⟨-, rfl⟩ := Place.property.inj hname
    exact Or.inl hbinds
  | item array index =>
    refine leads_assignElement (fun hbound _ harray => ?_) index rfl
    obtain ⟨name, hname, -⟩ := (hp hbound).property harray
    cases hname

theorem leads_settleEach (hs : s.Bounded → Prepared early s) (target : Handle) {places : List Place}
    (hplaces : s.Bounded → ∀ p ∈ places, Harmless early s p) :
    Leads (Prepares early) (places.forM (settle target)) s fun _ _ => True := by
  apply leads_forM
  intro p hp s' hr
  exact leads_settle target (hr.harmless hs fun hbound => hplaces hbound p hp)

theorem leads_announce (hs : s.Bounded → Prepared early s) (id : String) (target : Handle) :
    Leads (Prepares early) (announce id target) s fun _ _ => True := by
  have hplaces : s.Bounded → ∀ p ∈ (s.waiting.find? id).getD [], Harmless early s p := by
    intro hbound p hp
    cases hfound : s.waiting.find? id with
    | none => simp [hfound] at hp
    | some places =>
      rw [hfound] at hp
      exact (hs hbound).waiting id places (Table.find?_eq_some_iff.1 hfound) p hp
  apply leads_get
  refine Leads.bind (Q := fun _ _ => True) (leads_modify (prepares_of_realm_eq rfl ?_) trivial)
    fun _ s' hr _ => ?_
  · exact fun _ other places hentry p hp => Or.inl ⟨places, (List.mem_filter.1 hentry).1, hp⟩
  · exact leads_settleEach (hr.prepared hs) target fun hbound p hp =>
      hr.harmless hs (fun hbound' => hplaces hbound' p hp) hbound

theorem leads_settleAll (hs : s.Bounded → Prepared early s) :
    Leads (Prepares early) settleAll s fun _ _ => True := by
  apply leads_get
  refine Leads.bind (Q := fun _ _ => True) (leads_modify (prepares_of_realm_eq rfl ?_) trivial)
    fun _ s' hr _ => ?_
  · exact fun _ id places hentry => by simp [Table.empty] at hentry
  · apply leads_forM
    rintro ⟨id, places⟩ hentry s'' hr'
    have hr'' := Course.trans hr hr'
    apply leads_get
    cases s''.built.lookup id with
    | some target =>
      exact leads_settleEach (hr''.prepared hs) target fun hbound p hp =>
        hr''.harmless hs (fun hbound' => (hs hbound').waiting id places hentry p hp) hbound
    | none =>
      apply leads_ask
      split
      · exact leads_throw _
      · exact leads_pure trivial

/-- By then no object is being prepared any more. -/
theorem leads_renewAll : Leads (Prepares fun _ => False) renewAll s fun _ _ => True := by
  apply leads_get
  refine Leads.bind (Q := fun _ _ => True) (leads_modify (prepares_of_realm_eq rfl ?_) trivial)
    fun _ s' _ _ => ?_
  · exact fun _ id places hentry p hp => Or.inl ⟨places, hentry, hp⟩
  · apply leads_forM
    rintro ⟨owner, name, array⟩ - s'' -
    exact leads_write rfl (fun _ _ => Realm.allows_of_ne_string fun _ => Value.noConfusion)
      fun _ hfalse => hfalse.elim

/-! ## Making -/

/-- An object has just been made: it can be added to those that are being prepared. -/
def Starts (early : Handle → Prop) (h : Handle) (s : Loading P) : Prop :=
  s.Bounded → ¬ early h ∧ Prepared (fun k => early k ∨ k = h) s

theorem leads_allocate {f : Realm P → Handle × Realm P} (form : ObjectForm P)
    (hf : f s.realm = s.realm.allocate (.ofForm form))
    (hconserves : Conserves s.realm (s.realm.allocate (.ofForm form)).2)
    (hempty : s.realm.registry.LeavesVectors → ∀ v,
      (ScriptObject.ofForm form).vector? = some v → v.handles = [])
    (hs : s.Bounded → Prepared early s) :
    Leads (Prepares early) (perform (modifyGet f)) s (Starts early) := by
  have hrun : Runs (perform (modifyGet f)) s (s.realm.allocate (.ofForm form)).1
      { s with realm := (s.realm.allocate (.ofForm form)).2 } := runs_perform (by rw [← hf]; rfl)
  have hchanges : s.heap.Changes (fun _ => False) (fun _ => True)
      (s.realm.allocate (.ofForm form)).2.heap := .single (.allocate trivial)
  have hkeeps : Prepares early s { s with realm := (s.realm.allocate (.ofForm form)).2 } := by
    refine prepares_realm hconserves.evolves (hchanges.imp (fun _ h => h.elim) fun _ h => h)
      (fun _ _ => hconserves) fun hs hbound k hk => ?_
    obtain ⟨halive, hidle⟩ := hs.idle k hk
    exact hidle.changes hchanges hs.wellFormed hbound halive id
  refine leads_of_runs hrun hkeeps fun hbound => ?_
  have hbefore := hs (hkeeps.bounded hbound)
  have hafter := hkeeps.prepared hs hbound
  have hroom := Heap.hasRoom_of_capacity_allocate hbefore.wellFormed hbound
  have hissued := hbefore.wellFormed.not_issued_allocate hroom (.ofForm form)
  have hget : (s.realm.allocate (.ofForm form)).2.heap.get? (s.realm.allocate (.ofForm form)).1 =
      some (.ofForm form) := (hbefore.wellFormed.get?_allocate hroom _ _).trans (if_pos rfl)
  -- what is made is not among the early ones, and holds nothing yet
  refine ⟨fun hearly => ?_, { hafter with idle := ?_, waiting := ?_ }⟩
  · obtain ⟨object, hobject⟩ := Heap.contains_iff.1 (hbefore.idle _ hearly).1
    exact hissued (Heap.issued_of_get? hobject)
  · rintro k (hk | rfl)
    · exact hafter.idle k hk
    · refine ⟨Heap.contains_iff.2 ⟨_, hget⟩, fun v hv => ?_⟩
      exact hempty hbefore.registry v ((Heap.vector?_of_get? hget).symm.trans hv)
  · -- nothing waits for an object that has not been there before
    intro id places hentry p hp
    refine ⟨(hafter.waiting id places hentry p hp).issued, ?_⟩
    rintro (howner | howner)
    · exact (hafter.waiting id places hentry p hp).property howner
    · exact absurd (howner ▸ (hbefore.waiting id places hentry p hp).issued) hissued

/-- Noting something about a new object, or protecting it, changes nothing that matters. -/
theorem Starts.noted (hstart : Starts early h s) (hprepares : Prepares (fun k => early k ∨ k = h) s s') :
    Prepares early s s' ∧ Starts early h s' := by
  have hs : s.Bounded → Prepared (fun k => early k ∨ k = h) s := fun hbound => (hstart hbound).2
  refine ⟨hprepares.imp hs fun _ => Or.inl, fun hbound => ?_⟩
  exact ⟨(hstart (hprepares.bounded hbound)).1, hprepares.prepared hs hbound⟩

theorem prepares_protect (h : Handle) :
    Prepares early s { s with realm := s.realm.protect h, made := h :: s.made } := by
  have hprotect : Prepares early s { s with realm := s.realm.protect h } :=
    prepares_of_heap_eq ⟨rfl, rfl, Heap.Grows.refl⟩ rfl
  exact Course.trans hprotect (prepares_of_realm_eq rfl fun _ _ places hentry _ hp =>
    Or.inl ⟨places, hentry, hp⟩)

/-- A new object is kept alive. -/
theorem leads_kept {step : LoadingM P Handle}
    (hstep : Leads (Prepares early) step s (Starts early)) :
    Leads (Prepares early) (step >>= fun h => keepAlive h >>= fun _ => pure h) s (Starts early) := by
  refine hstep.bind fun h s' _ hh => ?_
  obtain ⟨hprotect, hstart⟩ := hh.noted (prepares_protect h)
  exact (leads_modify (Q := fun _ s'' => Starts early h s'') hprotect hstart).bind
    fun _ s'' _ hstart => leads_pure hstart

theorem leads_newObject (hs : s.Bounded → Prepared early s) :
    Leads (Prepares early) (perform (modifyGet Realm.newObject)) s (Starts early) :=
  leads_allocate .plain rfl (Realm.conserves_newObject s.realm) (fun _ _ hv => nomatch hv) hs

theorem leads_makeArray (hs : s.Bounded → Prepared early s) :
    Leads (Prepares early) makeArray s (Starts early) :=
  leads_kept (leads_allocate (.array #[]) rfl (Realm.conserves_newArray [] s.realm)
    (fun _ _ hv => nomatch hv) hs)

theorem leads_instantiate (c : ClassNumber) (hs : s.Bounded → Prepared early s) :
    Leads (Prepares early) (perform (modifyGet (Realm.instantiate c))) s (Starts early) := by
  have hform := Realm.instantiate_eq c s.realm
  exact leads_allocate (s.realm.freshForm c) hform (hform ▸ Realm.conserves_instantiate c s.realm)
    (fun hregistry _ hv => Realm.handles_freshForm hregistry hv) hs

theorem leads_make (className : Option String) (hs : s.Bounded → Prepared early s) :
    Leads (Prepares early) (make className) s (Starts early) := by
  apply leads_ask
  cases className with
  | none => exact leads_kept (leads_newObject hs)
  | some name =>
    dsimp only
    cases s.realm.registry.lookup? name with
    | some c =>
      refine (leads_instantiate c hs).bind fun h s' _ hh => ?_
      have hkept : ∀ s'', Starts early h s'' →
          Leads (Prepares early) ((pure h >>= fun h => keepAlive h >>= fun _ => pure h :
            LoadingM P Handle)) s'' (Starts early) :=
        fun s'' hstart => leads_kept (leads_pure hstart)
      split
      -- an instance that is to be awakened is noted before it is protected
      · have hnote : Prepares (fun k => early k ∨ k = h) s'
            { s' with sleepers := h :: s'.sleepers } :=
          prepares_of_realm_eq rfl fun _ _ places hentry _ hp => Or.inl ⟨places, hentry, hp⟩
        obtain ⟨hnote, hstart⟩ := hh.noted hnote
        exact (leads_modify (Q := fun _ s'' => Starts early h s'') hnote hstart).bind
          fun _ s'' _ hstart => hkept s'' hstart
      · exact hkept s' hh
    | none =>
      apply leads_ask
      split
      · exact leads_throw _
      · exact leads_kept (leads_newObject hs)

theorem leads_newFunction (name : String) (body : FunctionBody P)
    (hs : s.Bounded → Prepared early s) :
    Leads (Prepares early) (perform (modifyGet (Realm.newFunction name body))) s (Starts early) :=
  leads_allocate (.function ⟨name, body⟩) rfl (Realm.conserves_newFunction name body s.realm)
    (fun _ _ hv => nomatch hv) hs

end

/-! ## Reading -/

section

variable {early : Handle → Prop} {s s' : Loading P} {h : Handle} {key : String}

/-- An entry is about to be written: an early one for an object that is being prepared, or another one
for an object that no longer is. -/
structure Fills (early : Handle → Prop) (h : Handle) (key : String) (s : Loading P) : Prop where
  alive : s.heap.contains h = true
  binds : early h ∧ s.realm.BindsEarly h key true ∨ ¬ early h ∧ s.realm.BindsEarly h key false

theorem Fills.bindsEarly (hfills : Fills early h key s) (hh : early h) :
    s.realm.BindsEarly h key true :=
  hfills.binds.elim And.right fun hlate => absurd hh hlate.1

theorem Fills.allows (hfills : Fills early h key s) (hs : Prepared early s) (value : Value) :
    s.realm.Allows h key value := by
  rcases hfills.binds with ⟨hearly, -⟩ | ⟨-, hlate⟩
  · exact (hs.idle h hearly).2.allows key value
  · exact Realm.allows_of_bindsEarly hlate value

theorem Prepares.fills (hr : Prepares early s s') (hs : s.Bounded → Prepared early s)
    (hfills : s.Bounded → Fills early h key s) (hbound : s'.Bounded) : Fills early h key s' := by
  have hbefore := hr.bounded hbound
  obtain ⟨halive, hbinds⟩ := hfills hbefore
  have hmono : ∀ b, s.realm.BindsEarly h key b → s'.realm.BindsEarly h key b := fun b hb =>
    hb.mono hr.registry halive fun _ => hr.changes.nature? (hs hbefore).wellFormed hbound
  exact ⟨hr.contains hs (fun _ => halive) hbound,
    hbinds.imp (And.imp_right (hmono true)) (And.imp_right (hmono false))⟩

/-- What is read inside of an entry keeps a state prepared, whichever objects are being prepared by
then. -/
def PreparesInside (inner : Inner P) : Prop :=
  ∀ early entry s, (s.Bounded → Prepared early s) →
    Leads (Prepares early) (inner entry) s fun v _ => v.isInline = false

theorem leads_restoreEntry {inner : Inner P} (hinner : PreparesInside inner)
    (hs : s.Bounded → Prepared early s) (hfills : s.Bounded → Fills early h key s) (entry : Entry) :
    Leads (Prepares early) (restoreEntry inner h key entry) s fun _ _ => True := by
  unfold restoreEntry
  split
  · next name source _ =>
    refine (leads_newFunction name (.script source) hs).bind fun f s' _ _ => ?_
    exact leads_write rfl (fun _ _ => Realm.allows_of_ne_string fun _ => Value.noConfusion)
      fun _ _ => Or.inr ⟨f, rfl⟩
  · refine (leads_await _ fun hbound => ?_).bind fun _ s' hr _ => ?_
    · obtain ⟨object, hget⟩ := Heap.contains_iff.1 (hfills hbound).alive
      exact ⟨Heap.issued_of_get? hget, fun hh => ⟨key, rfl, (hfills hbound).bindsEarly hh⟩⟩
    · refine leads_discard (leads_putProperty rfl
        (fun _ _ => Realm.allows_of_ne_string fun _ => Value.noConfusion) fun hbound hh => ?_)
      exact Or.inl ((hr.fills hs hfills hbound).bindsEarly hh)
  · apply leads_get
    refine (hinner early _ s hs).bind fun value s' hr hvalue => ?_
    have hwrite : ∀ s'' value, Prepares early s s'' → value.isInline = false →
        Leads (Prepares early) (write h key value) s'' fun _ _ => True :=
      fun s'' value hr' hvalue => leads_write hvalue
        (fun hbound hs'' => (hr'.fills hs hfills hbound).allows hs'' value)
        fun hbound hh => Or.inl ((hr'.fills hs hfills hbound).bindsEarly hh)
    dsimp only
    split
    · next array _ _ =>
      apply leads_get
      split
      · refine Leads.bind (Q := fun _ _ => True) (leads_modify (prepares_of_realm_eq rfl ?_) trivial)
          fun _ s'' hr' _ => hwrite s'' _ (Course.trans hr hr') rfl
        exact fun _ _ places hentry _ hp => Or.inl ⟨places, hentry, hp⟩
      · exact hwrite s' _ hr rfl
    · exact hwrite s' value hr hvalue

/-- The phase of an entry tells whether it is written early. -/
theorem bindsEarly_of_phase {r : Realm P} {n : Nat} (hphase : phase r (r.classOf? h) key = n) :
    r.BindsEarly h key (n == 0) := by
  intro object b hget hbinding
  obtain ⟨c, hclass, hresolve⟩ := Option.bind_eq_some_iff.1 hbinding
  have hclassOf : r.classOf? h = some c := by
    obtain ⟨form, fields⟩ := object
    cases form with
    | instanceOf c' native? =>
      rw [Realm.classOf?, hget, Option.bind_some]
      exact hclass
    | _ => cases hclass
  rw [phase, hclassOf, Option.bind_some, hresolve] at hphase
  subst hphase
  cases hearly : b.flags.contains .early with
  | true => simp [hearly]
  | false => by_cases hlate : b.flags.contains .late = true <;> simp [hearly, hlate]

/-- An object is being prepared until its early entries have been written. -/
theorem leads_restoreEntries {inner : Inner P} (hinner : PreparesInside inner)
    (hstart : Starts early h s) (entries : Table Entry) :
    Leads (Prepares early) ((inPhases s.realm (s.realm.classOf? h) entries).forM fun entry =>
      restoreEntry inner h entry.1 entry.2) s fun _ _ => True := by
  have hs : s.Bounded → Prepared (fun k => early k ∨ k = h) s := fun hbound => (hstart hbound).2
  have halive : s.Bounded → s.heap.contains h = true :=
    fun hbound => ((hs hbound).idle h (Or.inr rfl)).1
  have hphase : ∀ n, ∀ entry ∈ entries.entries.filter fun entry =>
      phase s.realm (s.realm.classOf? h) entry.1 == n, s.realm.BindsEarly h entry.1 (n == 0) :=
    fun n entry hentry => bindsEarly_of_phase (beq_iff_eq.1 (List.mem_filter.1 hentry).2)
  rw [inPhases, List.flatMap_cons, List.forM_eq_forM, List.forM_append]
  have hearly : Leads (Prepares fun k => early k ∨ k = h)
      ((entries.entries.filter fun entry =>
        phase s.realm (s.realm.classOf? h) entry.1 == 0).forM fun entry =>
          restoreEntry inner h entry.1 entry.2) s fun _ _ => True := by
    apply leads_forM
    intro entry hentry s' hr
    refine leads_restoreEntry hinner (hr.prepared hs) (hr.fills hs fun hbound => ?_) entry.2
    exact ⟨halive hbound, Or.inl ⟨Or.inr rfl, hphase 0 entry hentry⟩⟩
  refine (hearly.imp (fun _ hr => (hstart.noted hr).1) fun _ _ _ hq => hq).bind
    fun _ s' hr _ => leads_forM fun entry hentry s'' hr' => ?_
  obtain ⟨n, hn, hentry⟩ := List.mem_flatMap.1 hentry
  have hlate : (n == 0) = false := by
    rcases List.mem_cons.1 hn with rfl | hn
    · rfl
    · rw [List.mem_singleton.1 hn]
      rfl
  have htrans := Course.trans hr hr'
  have hs' : s.Bounded → Prepared early s := fun hbound => (hs hbound).imp fun _ => Or.inl
  refine leads_restoreEntry hinner (htrans.prepared hs') (htrans.fills hs' fun hbound => ?_) entry.2
  exact ⟨halive hbound, Or.inr ⟨(hstart hbound).1, hlate ▸ hphase n entry hentry⟩⟩

theorem leads_findSingleton (name : String) :
    Leads (Prepares early) (findSingleton name) s fun _ _ => True := by
  apply leads_ask
  cases s.realm.singleton? name with
  | some h => exact leads_pure trivial
  | none =>
    apply leads_ask
    split
    · exact leads_throw _
    · exact leads_pure trivial

theorem leads_rebuildNode {inner : Inner P} (hinner : PreparesInside inner)
    (hs : s.Bounded → Prepared early s) (node : Snapshot.Node) :
    Leads (Prepares early) (rebuildNode inner node) s fun _ _ => True := by
  apply leads_ask
  cases singletonName? s.realm node with
  | some name =>
    refine (leads_findSingleton name).bind fun found s' hr _ => ?_
    cases found with
    | none => exact leads_pure trivial
    -- the entries of a singleton are left out
    | some h =>
      dsimp only
      split
      · exact (leads_announce (hr.prepared hs) _ h).bind fun _ _ _ _ => leads_pure trivial
      · exact leads_pure trivial
  | none =>
    refine (leads_make node.className hs).bind fun h s' hr hstart => ?_
    have hentries : ∀ s'', Starts early h s'' →
        Leads (Prepares early)
          ((ask fun r => inPhases r (r.classOf? h) node.entries) >>= fun entries =>
            (entries.forM fun entry => restoreEntry inner h entry.1 entry.2) >>= fun _ =>
              pure (some h)) s'' fun _ _ => True := by
      intro s'' hstart'
      apply leads_ask
      exact (leads_restoreEntries hinner hstart' node.entries).bind fun _ _ _ _ => leads_pure trivial
    dsimp only
    split
    · next id _ =>
      have hs' : s'.Bounded → Prepared (fun k => early k ∨ k = h) s' :=
        fun hbound => (hstart hbound).2
      have hannounce : Leads (Prepares early) (announce id h) s' fun _ s'' => Starts early h s'' :=
        (leads_announce hs' id h).imp (fun _ hr' => (hstart.noted hr').1)
          fun _ _ hr' _ => (hstart.noted hr').2
      exact hannounce.bind fun _ s'' _ hstart' => hentries s'' hstart'
    · exact hentries s' hstart

theorem leads_rebuildItems {inner : Inner P} (hinner : PreparesInside inner)
    (hs : s.Bounded → Prepared early s) {array : Handle}
    (harray : s.Bounded → s.heap.contains array = true ∧ ¬ early array) (index : Nat)
    (items : List Entry) :
    Leads (Prepares early) (rebuildItems inner array index items) s fun _ _ => True := by
  induction items generalizing s index with
  | nil => exact leads_pure trivial
  | cons item items ih =>
    have harray' : ∀ s', Prepares early s s' → s'.Bounded →
        s'.heap.contains array = true ∧ ¬ early array := fun s' hr hbound =>
      ⟨hr.contains hs (fun hbound' => (harray hbound').1) hbound, (harray (hr.bounded hbound)).2⟩
    have hrest : ∀ value s', Prepares early s s' → value.isInline = false →
        Leads (Prepares early) (discard (perform (Realm.assignElement array index value)) >>=
          fun _ => rebuildItems inner array (index + 1) items) s' fun _ _ => True := by
      intro value s' hr hvalue
      refine (leads_assignElement (fun hbound _ => (harray' s' hr hbound).2) index hvalue).bind
        fun _ s'' hr' _ => ?_
      have htrans := Course.trans hr hr'
      exact ih (htrans.prepared hs) (harray' s'' htrans) (index + 1)
    unfold rebuildItems
    dsimp only
    split
    · refine (leads_await _ fun hbound => ?_).bind fun _ s' hr _ => hrest _ s' hr rfl
      obtain ⟨object, hget⟩ := Heap.contains_iff.1 (harray hbound).1
      exact ⟨Heap.issued_of_get? hget, fun hearly => absurd hearly (harray hbound).2⟩
    · exact (hinner early item s hs).bind fun value s' hr hvalue => hrest value s' hr hvalue

theorem preparesInside_rebuildWith (snapshot : Snapshot) {inner? : Option (Inner P)}
    (hinner : ∀ inner, inner? = some inner → PreparesInside inner) :
    PreparesInside (rebuildWith snapshot inner?) := by
  intro early entry s hs
  cases entry with
  | null => exact leads_pure rfl
  | bool b => exact leads_pure rfl
  | int n => exact leads_pure (isInline_intValue n)
  | double x => exact leads_pure rfl
  | string text => exact leads_pure rfl
  | reference h =>
    apply leads_ask
    split
    · exact leads_pure rfl
    · exact leads_pure rfl
  | stub id => exact leads_throw _
  | array items =>
    refine leads_roomFor fun inner hsome => ?_
    rw [rebuildArray_eq]
    refine Leads.bind (Q := fun _ _ => True) ?_ fun _ _ _ _ => leads_pure rfl
    refine (leads_makeArray hs).bind fun array s' hr hstart => ?_
    refine (leads_rebuildItems (hinner inner hsome) (hr.prepared hs) (fun hbound => ?_) 0 items).bind
      fun _ _ _ _ => leads_pure trivial
    exact ⟨((hstart hbound).2.idle array (Or.inr rfl)).1, (hstart hbound).1⟩
  | node index =>
    refine leads_roomFor fun inner hsome => ?_
    unfold Snapshot.node
    cases snapshot.nodes[index]? with
    | none => exact leads_throw_bind _ _
    | some node =>
      refine (leads_rebuildNode (hinner inner hsome) hs node).bind fun found s' _ _ => leads_pure ?_
      cases found <;> rfl

theorem preparesInside_read (snapshot : Snapshot) (room : Nat) :
    PreparesInside (read (P := P) snapshot room) := by
  -- by the room that is left for nesting
  induction room with
  | zero => exact preparesInside_rebuildWith snapshot (by simp)
  | succ room ih =>
    exact preparesInside_rebuildWith snapshot fun inner hsome => Option.some.inj hsome ▸ ih

/-- In a state without objects that are being prepared nothing but the realm matters. -/
theorem prepared_start {r : Realm P} (hregistry : r.registry.LeavesVectors)
    (hwf : r.heap.WellFormed) (hslotted : r.heap.Slotted) (hr : r.Conforming) :
    Prepared (fun _ => False) (start r) where
  registry := hregistry
  wellFormed := hwf
  slotted := hslotted
  conforming := hr
  idle _ hfalse := hfalse.elim
  waiting _ _ hentry := by simp [start, Table.empty] at hentry

/-- Whatever the snapshot is, building keeps the vectors of a realm conforming. -/
theorem leads_build (snapshot : Snapshot) (hs : s.Bounded → Prepared (fun _ => False) s) :
    Leads (Prepares fun _ => False) (build snapshot) s fun _ _ => True := by
  apply leads_ask
  refine (preparesInside_read snapshot _ _ snapshot.root s hs).bind fun root s₁ hr₁ _ => ?_
  refine (leads_settleAll (hr₁.prepared hs)).bind fun _ s₂ _ _ => ?_
  exact leads_renewAll.bind fun _ _ _ _ => leads_pure trivial

end

end Loading

/-! ## Loads -/

namespace Host

variable {host : Host P}

/-- Whatever the snapshot is, what is built from it conserves a realm. -/
theorem conserves_building (s : Snapshot) (copying : Bool) (r : Realm P) :
    Conserves r (r.building s copying).realm := by
  have hsteps : r.Steps (r.building s copying).realm := acts_building
  refine ⟨hsteps.evolves, fun hregistry hwf hslotted hbound hr => ?_⟩
  unfold Realm.building at hbound ⊢
  split
  · exact hr
  · next hadmitted =>
    rw [if_neg hadmitted] at hbound
    have hstart : (Loading.start r).Bounded → Loading.Prepared (fun _ => False) (Loading.start r) :=
      fun _ => Loading.prepared_start hregistry hwf hslotted hr
    exact ((Loading.leads_build s hstart).1.prepared hstart hbound).conforming

/-- A load conserves a realm if the calls that awaken instances do. -/
theorem conserves_load (hawake : Loading.Awakens Conserves host) (s : Snapshot) (copying : Bool) :
    Realm.Acts Conserves id (host.load s copying) := by
  intro r
  show Conserves r (after (host.load s copying) r)
  rw [after_load]
  have hending : Conserves (r.building s copying).realm (host.ending s copying r).realm :=
    acts_ending_of_report hawake fun error r => .of_heap_eq ⟨rfl, rfl, Heap.Grows.refl⟩ rfl
  refine Course.trans (Course.trans (conserves_building s copying r) hending) ?_
  exact .of_heap_eq (Realm.steps_unprotectAll _ _).evolves (Realm.heap_unprotectAll _ _)

/-- So does a copy. -/
theorem conserves_clone (hawake : Loading.Awakens Conserves host) (value : Value)
    (mask : List String) : Realm.Acts Conserves id (host.clone value mask) :=
  Realm.acts_get.bind fun _ => (Realm.acts_lift _).bind fun s => conserves_load hawake s true

end Host

end ScriptBridge
