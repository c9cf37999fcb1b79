import ScriptBridge.Proofs.Snapshot.Course

/-!
# Separation

When a snapshot without classes is loaded that holds live objects under some names only, what the load
makes refers to nothing else that was there before: every slot of a new object, apart from the fields
with such a name, holds a plain value or leads to a new object. `Separated` says so of a state on the
way, and `Separates` of a step that it keeps a state that way.

Main statements: one lemma for each step of loading, and `separates_build`.
-/

namespace ScriptBridge

open Realm (after)

variable {P : Platform}

/-! ## New Objects -/

namespace Heap

/-- A handle leads to something that had not been made when the heap was `old`. -/
def IsNew (old heap : Heap P) (k : Handle) : Prop := ¬ old.Issued k ∧ heap.contains k = true

/-- A value leads to nothing but new objects. -/
def OnlyNew (old heap : Heap P) (v : Value) : Prop := ∀ k ∈ v.handles, old.IsNew heap k

theorem onlyNew_object {old heap : Heap P} {k : Handle} :
    old.OnlyNew heap (.object k) ↔ old.IsNew heap k := by
  simp [OnlyNew, Value.handles]

theorem onlyNew_function {old heap : Heap P} {k : Handle} :
    old.OnlyNew heap (.function k) ↔ old.IsNew heap k := by
  simp [OnlyNew, Value.handles]

theorem onlyNew_of_handles {old heap : Heap P} {v : Value} (h : v.handles = []) :
    old.OnlyNew heap v := by
  simp [OnlyNew, h]

/-- What is new stays new as long as nothing is lost. -/
theorem IsNew.mono {old heap heap' : Heap P} {k : Handle} (h : old.IsNew heap k)
    (hchanges : heap.Changes (fun _ => True) (fun _ => True) heap') (hwf : heap.WellFormed)
    (hbound : heap'.capacity ≤ UInt32.size) : old.IsNew heap' k := by
  obtain ⟨object, hget⟩ := contains_iff.1 h.2
  have hnature : heap.nature? k = some object.nature := by rw [nature?, hget, Option.map_some]
  obtain ⟨object', hget', -⟩ := Option.map_eq_some_iff.1 (hchanges.nature? hwf hbound hnature)
  exact ⟨h.1, contains_iff.2 ⟨object', hget'⟩⟩

end Heap

/-- An object without a class that leads to new objects only, apart from the fields with a name of
the mask. -/
structure ScriptObject.Separate (old heap : Heap P) (mask : List String) (object : ScriptObject P) :
    Prop where
  classless : object.class? = none
  fields : ∀ field ∈ object.fields.entries, field.1 ∉ mask → old.OnlyNew heap field.2
  items : ∀ items, object.items? = some items → ∀ v ∈ items, old.OnlyNew heap v

namespace ScriptObject.Separate

variable {old heap heap' : Heap P} {mask : List String} {object : ScriptObject P}

theorem imp (h : object.Separate old heap mask) (himp : ∀ k, old.IsNew heap k → old.IsNew heap' k) :
    object.Separate old heap' mask :=
  ⟨h.classless, fun field hfield hname k hk => himp k (h.fields field hfield hname k hk),
    fun items hitems v hv k hk => himp k (h.items items hitems v hv k hk)⟩

theorem setField (h : object.Separate old heap mask) {name : String} {v : Value}
    (hv : name ∈ mask ∨ old.OnlyNew heap v) : (object.setField name v).Separate old heap mask := by
  refine ⟨h.classless, ?_, h.items⟩
  intro field hfield hname
  rcases Table.mem_entries_insert hfield with rfl | hbefore
  · exact hv.resolve_left hname
  · exact h.fields field hbefore hname

theorem mapItems (h : object.Separate old heap mask) {f : Array Value → Array Value}
    (hf : ∀ items, ∀ v ∈ f items, v ∈ items ∨ old.OnlyNew heap v) :
    (object.mapItems f).Separate old heap mask := by
  obtain ⟨form, fields⟩ := object
  cases form with
  | array items =>
    refine ⟨rfl, h.fields, ?_⟩
    intro items' hitems' v hv
    obtain rfl : f items = items' := Option.some.inj hitems'
    rcases hf items v hv with hbefore | hnew
    · exact h.items items rfl v hbefore
    · exact hnew
  | _ => exact h

theorem resized (h : object.Separate old heap mask) (n : Nat) :
    (object.mapItems (Realm.resized · n)).Separate old heap mask := by
  refine h.mapItems fun items v hv => ?_
  simp only [Realm.resized, Array.mem_append, Array.mem_replicate] at hv
  rcases hv with hv | ⟨-, rfl⟩
  · rw [Array.take_eq_extract, ← Array.mem_toList_iff, Array.toList_extract] at hv
    exact Or.inl (Array.mem_toList_iff.1 (List.mem_of_mem_take hv))
  · exact Or.inr (Heap.onlyNew_of_handles rfl)

theorem withItem (h : object.Separate old heap mask) (index : Nat) {v : Value}
    (hv : old.OnlyNew heap v) :
    (object.mapItems (Realm.withItem · index v)).Separate old heap mask := by
  refine h.mapItems fun items w hw => ?_
  unfold Realm.withItem at hw
  split at hw
  · rcases Array.mem_or_eq_of_mem_setIfInBounds hw with hw | rfl
    · exact Or.inl hw
    · exact Or.inr hv
  · simp only [Array.mem_push, Array.mem_append, Array.mem_replicate] at hw
    rcases hw with (hw | ⟨-, rfl⟩) | rfl
    · exact Or.inl hw
    · exact Or.inr (Heap.onlyNew_of_handles rfl)
    · exact Or.inr hv

end ScriptObject.Separate

namespace Loading

/-! ## States -/

/-- A state in which what has been made is kept apart from what was there before, but for the fields
with a name of the mask. -/
structure Separated (old : Heap P) (mask : List String) (s : Loading P) : Prop where
  wellFormed : s.heap.WellFormed
  issued : ∀ k, old.Issued k → s.heap.Issued k
  objects : ∀ h object, s.heap.get? h = some object → ¬ old.Issued h →
    object.Separate old s.heap mask
  built : ∀ entry ∈ s.built, old.IsNew s.heap entry.2
  waiting : ∀ id places, (id, places) ∈ s.waiting.entries → ∀ p ∈ places,
    old.IsNew s.heap p.owner
  renewals : ∀ renewal ∈ s.renewals, old.IsNew s.heap renewal.1 ∧ old.IsNew s.heap renewal.2.2

/-- A step frees nothing, makes nothing that is to be awakened, and keeps a state separated. -/
structure Separates (old : Heap P) (mask : List String) (s s' : Loading P) : Prop where
  changes : s.heap.Changes (fun _ => True) (fun _ => True) s'.heap
  sleepers : s'.sleepers = s.sleepers
  separated : (s.Bounded → Separated old mask s) → s'.Bounded → Separated old mask s'

instance (old : Heap P) (mask : List String) : Course (Separates old mask) where
  refl _ := ⟨.refl, rfl, id⟩
  trans h h' :=
    ⟨h.changes.trans h'.changes, h'.sleepers.trans h.sleepers, h'.separated ∘ h.separated⟩

section

variable {old : Heap P} {mask : List String} {s s' : Loading P}

theorem Separates.bounded (h : Separates old mask s s') (hbound : s'.Bounded) : s.Bounded :=
  Nat.le_trans h.changes.capacity_le hbound

/-- What is new stays new. -/
theorem Separates.isNew (h : Separates old mask s s') (hs : s.Bounded → Separated old mask s)
    {k : Handle} (hk : s.Bounded → old.IsNew s.heap k) (hbound : s'.Bounded) :
    old.IsNew s'.heap k :=
  (hk (h.bounded hbound)).mono h.changes (hs (h.bounded hbound)).wellFormed hbound

/-- An object that is new is edited. -/
theorem Separated.edit (hs : Separated old mask s) {r : Realm P} {h : Handle}
    {f : ScriptObject P → ScriptObject P} (hheap : r.heap = s.heap.modify h f)
    (hnature : ∀ object, (f object).nature = object.nature)
    (hf : ∀ object, object.Separate old s.heap mask → (f object).Separate old s.heap mask)
    (hbound : r.heap.capacity ≤ UInt32.size) : Separated old mask { s with realm := r } := by
  have hchanges : s.heap.Changes (fun _ => True) (fun _ => True) r.heap := by
    rw [hheap]
    exact .single (.modify trivial hnature)
  have hnew : ∀ k, old.IsNew s.heap k → old.IsNew r.heap k :=
    fun k hk => hk.mono hchanges hs.wellFormed hbound
  refine ⟨hchanges.wellFormed hs.wellFormed hbound, ?_, ?_, ?_, ?_, ?_⟩
  · exact fun k hk => hchanges.issued hs.wellFormed hbound (hs.issued k hk)
  · intro k object hget hk
    have hget : r.heap.get? k = some object := hget
    rw [hheap, Heap.get?_modify] at hget
    split at hget
    · obtain ⟨before, hbefore, rfl⟩ := Option.map_eq_some_iff.1 hget
      subst_vars
      exact (hf before (hs.objects _ before hbefore hk)).imp hnew
    · exact (hs.objects k object hget hk).imp hnew
  · exact fun entry hentry => hnew _ (hs.built entry hentry)
  · exact fun id places hentry p hp => hnew _ (hs.waiting id places hentry p hp)
  · exact fun renewal hrenewal =>
      ⟨hnew _ (hs.renewals renewal hrenewal).1, hnew _ (hs.renewals renewal hrenewal).2⟩

/-- What does not touch the heap keeps a state separated if it adds new objects only. -/
theorem Separated.congr (hs : Separated old mask s) (hheap : s'.heap = s.heap)
    (hbuilt : ∀ entry ∈ s'.built, entry ∈ s.built ∨ old.IsNew s.heap entry.2)
    (hwaiting : ∀ id places, (id, places) ∈ s'.waiting.entries → ∀ p ∈ places,
      (∃ others, (id, others) ∈ s.waiting.entries ∧ p ∈ others) ∨ old.IsNew s.heap p.owner)
    (hrenewals : ∀ renewal ∈ s'.renewals, renewal ∈ s.renewals ∨
      old.IsNew s.heap renewal.1 ∧ old.IsNew s.heap renewal.2.2) : Separated old mask s' := by
  constructor
  case wellFormed => exact hheap ▸ hs.wellFormed
  case issued => exact hheap ▸ hs.issued
  case objects => exact hheap ▸ hs.objects
  all_goals rw [hheap]
  case built => exact fun entry hentry => (hbuilt entry hentry).elim (hs.built entry) id
  case renewals =>
    exact fun renewal hrenewal => (hrenewals renewal hrenewal).elim (hs.renewals renewal) id
  case waiting =>
    intro id places hentry p hp
    rcases hwaiting id places hentry p hp with ⟨others, hothers, hp⟩ | hnew
    · exact hs.waiting id others hothers p hp
    · exact hnew

theorem Separated.realm (hs : Separated old mask s) {r : Realm P} (hheap : r.heap = s.heap) :
    Separated old mask { s with realm := r } :=
  hs.congr hheap (fun _ h => Or.inl h) (fun _ _ h _ hp => Or.inl ⟨_, h, hp⟩) (fun _ h => Or.inl h)

/-- An empty object without a class is made. -/
theorem Separated.allocate (hs : Separated old mask s) {form : ObjectForm P}
    (hform : (ScriptObject.ofForm form).Separate old s.heap mask)
    (hbound : (s.heap.allocate (.ofForm form)).2.capacity ≤ UInt32.size) :
    Separated old mask { s with realm := (s.realm.allocate (.ofForm form)).2 } ∧
    old.IsNew (s.heap.allocate (.ofForm form)).2 (s.heap.allocate (.ofForm form)).1 := by
  have hchanges : s.heap.Changes (fun _ => True) (fun _ => True) (s.heap.allocate (.ofForm form)).2 :=
    .single (.allocate trivial)
  have hroom := Heap.hasRoom_of_capacity_allocate hs.wellFormed hbound
  have hget := hs.wellFormed.get?_allocate hroom (.ofForm form)
  have hnew : ∀ k, old.IsNew s.heap k → old.IsNew (s.heap.allocate (.ofForm form)).2 k :=
    fun k hk => hk.mono hchanges hs.wellFormed hbound
  constructor
  · refine ⟨hchanges.wellFormed hs.wellFormed hbound, ?_, ?_, ?_, ?_, ?_⟩
    · exact fun k hk => hchanges.issued hs.wellFormed hbound (hs.issued k hk)
    · intro k object hobject hk
      have hobject : (s.heap.allocate (.ofForm form)).2.get? k = some object := hobject
      rw [hget] at hobject
      split at hobject
      · rw [← Option.some.inj hobject]
        exact hform.imp hnew
      · exact (hs.objects k object hobject hk).imp hnew
    · exact fun entry hentry => hnew _ (hs.built entry hentry)
    · exact fun id places hentry p hp => hnew _ (hs.waiting id places hentry p hp)
    · exact fun renewal hrenewal =>
        ⟨hnew _ (hs.renewals renewal hrenewal).1, hnew _ (hs.renewals renewal hrenewal).2⟩
  · refine ⟨fun hissued => ?_, Heap.contains_iff.2 ⟨_, by rw [hget, if_pos rfl]⟩⟩
    exact hs.wellFormed.not_issued_allocate hroom _ (hs.issued _ hissued)

theorem separate_ofForm {form : ObjectForm P} (hclass : (ScriptObject.ofForm form).class? = none)
    (hitems : ∀ items, (ScriptObject.ofForm form).items? = some items → items = #[])
    (heap : Heap P) : (ScriptObject.ofForm form).Separate old heap mask := by
  refine ⟨hclass, fun field hfield => by simp [ScriptObject.ofForm, Table.empty] at hfield, ?_⟩
  intro items h v hv
  rw [hitems items h] at hv
  simp at hv

/-! ## Writing -/

variable (hs : s.Bounded → Separated old mask s)

include hs

theorem carries_putProperty {h : Handle} (hh : s.Bounded → old.IsNew s.heap h) {name : String}
    {v : Value} (hinline : v.isInline = false)
    (hv : s.Bounded → name ∈ mask ∨ old.OnlyNew s.heap v) :
    Carries (Separates old mask) (attempt (Realm.putProperty h name v true)) s fun _ _ => True := by
  refine carries_attempt fun outcome r hrun => ⟨?_, trivial⟩
  have hr : after (Realm.putProperty h name v true) s.realm = r := congrArg Prod.snd hrun
  have hchanges : s.heap.Changes (fun _ => True) (fun _ => True) r.heap :=
    hr ▸ (Realm.alters_putProperty trivial name (Or.inl hinline) true s.realm).heap
  refine ⟨hchanges, rfl, fun _ hbound => ?_⟩
  have hbefore : s.Bounded := Nat.le_trans hchanges.capacity_le hbound
  obtain ⟨object, hget⟩ := Heap.contains_iff.1 (hh hbefore).2
  have hseparate := (hs hbefore).objects h object hget (hh hbefore).1
  have hfree : s.realm.binding? object name = none := by
    rw [Realm.binding?, hseparate.classless, Option.bind_none]
  rcases Realm.heap_putProperty_cases hget hfree hinline true with hheap | ⟨n, hheap⟩ | hheap
  all_goals rw [hr] at hheap
  · exact (hs hbefore).realm hheap
  · exact (hs hbefore).edit hheap (fun o => o.nature_mapItems _) (fun _ h => h.resized n) hbound
  · exact (hs hbefore).edit hheap (fun o => o.nature_setField _ _)
      (fun _ h => h.setField (hv hbefore)) hbound

theorem carries_write {h : Handle} (hh : s.Bounded → old.IsNew s.heap h) {name : String}
    {v : Value} (hinline : v.isInline = false)
    (hv : s.Bounded → name ∈ mask ∨ old.OnlyNew s.heap v) :
    Carries (Separates old mask) (write h name v) s fun _ _ => True := by
  refine (carries_putProperty hs hh hinline hv).bind fun outcome s' _ _ => ?_
  cases outcome with
  | ok answer => exact carries_pure trivial
  | error error => exact carries_strictly trivial

theorem carries_assignElement {h : Handle} (hh : s.Bounded → old.IsNew s.heap h) (index : Nat)
    {v : Value} (hinline : v.isInline = false) (hv : s.Bounded → old.OnlyNew s.heap v) :
    Carries (Separates old mask) (discard (perform (Realm.assignElement h index v))) s
      fun _ _ => True := by
  refine (carries_discard (Q := fun _ _ => True) (carries_perform fun answer r hrun => ⟨?_, trivial⟩)).imp
    fun _ _ _ _ => trivial
  have hr : after (Realm.assignElement h index v) s.realm = r := congrArg Prod.snd hrun
  have hchanges : s.heap.Changes (fun _ => True) (fun _ => True) r.heap :=
    hr ▸ (Realm.alters_assignElement trivial index (Or.inl hinline) s.realm).heap
  refine ⟨hchanges, rfl, fun _ hbound => ?_⟩
  have hbefore : s.Bounded := Nat.le_trans hchanges.capacity_le hbound
  obtain ⟨object, hget⟩ := Heap.contains_iff.1 (hh hbefore).2
  have hseparate := (hs hbefore).objects h object hget (hh hbefore).1
  have hfree : s.realm.elements? object = none := by
    rw [Realm.elements?, hseparate.classless, Option.bind_none]
  rcases Realm.heap_assignElement_cases hget hfree index hinline with hheap | hheap | hheap
  all_goals rw [hr] at hheap
  · exact (hs hbefore).realm hheap
  · exact (hs hbefore).edit hheap (fun o => o.nature_mapItems _)
      (fun _ h => h.withItem index (hv hbefore)) hbound
  · exact (hs hbefore).edit hheap (fun o => o.nature_setField _ _)
      (fun _ h => h.setField (Or.inr (hv hbefore))) hbound

theorem carries_await (id : String) (place : Place) (hplace : s.Bounded → old.IsNew s.heap place.owner) :
    Carries (Separates old mask) (await id place) s fun _ _ => True := by
  refine carries_modify ⟨.refl, rfl, fun _ hbound => ?_⟩ trivial
  refine (hs hbound).congr rfl (fun _ h => Or.inl h) ?_ (fun _ h => Or.inl h)
  intro other places hentry p hp
  rcases Table.mem_entries_insert hentry with heq | hentry
  · obtain ⟨rfl, rfl⟩ := Prod.mk.inj heq
    rcases List.mem_append.1 hp with hp | hp
    · cases hfound : s.waiting.find? other with
      | none => simp [hfound] at hp
      | some before =>
        rw [hfound] at hp
        exact Or.inl ⟨before, Table.find?_eq_some_iff.1 hfound, hp⟩
    · rw [List.mem_singleton.1 hp]
      exact Or.inr (hplace hbound)
  · exact Or.inl ⟨places, hentry, hp⟩

theorem carries_settle {target : Handle} (htarget : s.Bounded → old.IsNew s.heap target)
    {place : Place} (hplace : s.Bounded → old.IsNew s.heap place.owner) :
    Carries (Separates old mask) (settle target place) s fun _ _ => True := by
  cases place with
  | property owner name =>
    exact carries_write hs hplace rfl fun hbound => Or.inr (Heap.onlyNew_object.2 (htarget hbound))
  | item array index =>
    exact carries_assignElement hs hplace index rfl
      fun hbound => Heap.onlyNew_object.2 (htarget hbound)

/-- A new object is put into places of new objects. -/
theorem carries_settleEach {target : Handle} (htarget : s.Bounded → old.IsNew s.heap target)
    {places : List Place} (hplaces : s.Bounded → ∀ p ∈ places, old.IsNew s.heap p.owner) :
    Carries (Separates old mask) (places.forM (settle target)) s fun _ _ => True := by
  apply carries_forM
  intro p hp s' hr
  refine carries_settle (hr.separated hs) (hr.isNew hs htarget) (hr.isNew hs fun hbound => ?_)
  exact hplaces hbound p hp

theorem carries_announce (id : String) {target : Handle}
    (htarget : s.Bounded → old.IsNew s.heap target) :
    Carries (Separates old mask) (announce id target) s fun _ _ => True := by
  have hplaces : s.Bounded → ∀ p ∈ (s.waiting.find? id).getD [], old.IsNew s.heap p.owner := by
    intro hbound p hp
    cases hfound : s.waiting.find? id with
    | none => simp [hfound] at hp
    | some places =>
      rw [hfound] at hp
      exact (hs hbound).waiting id places (Table.find?_eq_some_iff.1 hfound) p hp
  apply carries_get
  refine Carries.bind (Q := fun _ s' => s'.heap = s.heap) (carries_modify ⟨.refl, rfl, fun _ hbound => ?_⟩ rfl)
    fun _ s' hr hheap => ?_
  · refine (hs hbound).congr rfl ?_ ?_ (fun _ h => Or.inl h)
    · intro entry hentry
      rcases List.mem_cons.1 hentry with rfl | hentry
      · exact Or.inr (htarget hbound)
      · exact Or.inl hentry
    · exact fun other places hentry p hp => Or.inl ⟨places, (List.mem_filter.1 hentry).1, hp⟩
  · exact carries_settleEach (hr.separated hs) (hr.isNew hs htarget) fun hbound p hp =>
      hr.isNew hs (fun hbound' => hplaces hbound' p hp) hbound

theorem carries_settleAll : Carries (Separates old mask) settleAll s fun _ _ => True := by
  apply carries_get
  refine Carries.bind (Q := fun _ _ => True) (carries_modify ⟨.refl, rfl, fun _ hbound => ?_⟩ trivial)
    fun _ s' hr _ => ?_
  · refine (hs hbound).congr rfl (fun _ h => Or.inl h) ?_ (fun _ h => Or.inl h)
    exact fun id places hentry => by simp [Table.empty] at hentry
  · apply carries_forM
    rintro ⟨id, places⟩ hentry s'' hr'
    have hr'' := Course.trans hr hr'
    apply carries_get
    cases hbuilt : s''.built.lookup id with
    | some target =>
      refine carries_settleEach (hr''.separated hs) (fun hbound => ?_) fun hbound p hp => ?_
      · obtain ⟨before, later, hsplit, -⟩ := List.lookup_eq_some_iff.1 hbuilt
        exact (hr''.separated hs hbound).built (id, target) (by simp [hsplit])
      · exact hr''.isNew hs (fun hbound' => (hs hbound').waiting id places hentry p hp) hbound
    | none => exact carries_strictly trivial

theorem carries_renewAll : Carries (Separates old mask) renewAll s fun _ _ => True := by
  apply carries_get
  refine Carries.bind (Q := fun _ _ => True) (carries_modify ⟨.refl, rfl, fun _ hbound => ?_⟩ trivial)
    fun _ s' hr _ => ?_
  · exact (hs hbound).congr rfl (fun _ h => Or.inl h) (fun _ _ h _ hp => Or.inl ⟨_, h, hp⟩)
      (fun _ h => by simp at h)
  · apply carries_forM
    rintro ⟨owner, name, array⟩ hrenewal s'' hr'
    have hr'' := Course.trans hr hr'
    refine carries_write (hr''.separated hs) ?_ rfl fun hbound => ?_
    · exact hr''.isNew hs fun hbound => ((hs hbound).renewals _ hrenewal).1
    · exact Or.inr (Heap.onlyNew_object.2
        (hr''.isNew hs (fun hbound' => ((hs hbound').renewals _ hrenewal).2) hbound))

/-! ## Making -/

/-- A new object without a class, an array or a function. -/
theorem carries_allocate {f : Realm P → Handle × Realm P} (form : ObjectForm P)
    (hf : f s.realm = s.realm.allocate (.ofForm form))
    (hclass : (ScriptObject.ofForm form).class? = none)
    (hitems : ∀ items, (ScriptObject.ofForm form).items? = some items → items = #[]) :
    Carries (Separates old mask) (perform (modifyGet f)) s
      fun h s' => s'.Bounded → old.IsNew s'.heap h := by
  refine carries_perform fun h r hrun => ?_
  have hran : (Except.ok (f s.realm).1, (f s.realm).2) = ((.ok h, r) : Except ScriptError Handle × Realm P) :=
    hrun
  rw [hf] at hran
  obtain ⟨hh, rfl⟩ := Prod.mk.inj hran
  obtain rfl := Except.ok.inj hh
  have hchanges : s.heap.Changes (fun _ => True) (fun _ => True)
      (s.realm.allocate (.ofForm form)).2.heap := .single (.allocate trivial)
  have hmade : (s.realm.allocate (.ofForm form)).2.heap.capacity ≤ UInt32.size → _ := fun hbound =>
    (hs (Nat.le_trans hchanges.capacity_le hbound)).allocate
      (separate_ofForm hclass hitems s.heap) hbound
  exact ⟨⟨hchanges, rfl, fun _ hbound => (hmade hbound).1⟩, fun hbound => (hmade hbound).2⟩

theorem carries_keepAlive (h : Handle) :
    Carries (Separates old mask) (keepAlive h) s fun _ s' => s'.heap = s.heap :=
  carries_modify ⟨.refl, rfl, fun _ hbound => (hs hbound).congr rfl (fun _ h => Or.inl h)
    (fun _ _ h _ hp => Or.inl ⟨_, h, hp⟩) (fun _ h => Or.inl h)⟩ rfl

/-- A new object is kept alive. -/
theorem carries_kept {step : LoadingM P Handle}
    (hstep : Carries (Separates old mask) step s fun h s' => s'.Bounded → old.IsNew s'.heap h) :
    Carries (Separates old mask) (step >>= fun h => keepAlive h >>= fun _ => pure h) s
      fun h s' => s'.Bounded → old.IsNew s'.heap h := by
  refine hstep.bind fun h s' hr hh => ?_
  refine (carries_keepAlive (hr.separated hs) h).bind fun _ s'' hr' hheap => carries_pure ?_
  exact hr'.isNew (hr.separated hs) hh

theorem carries_make : Carries (Separates old mask) (make none) s
    fun h s' => s'.Bounded → old.IsNew s'.heap h := by
  apply carries_ask
  exact carries_kept hs (carries_allocate hs .plain rfl rfl fun _ h => nomatch h)

theorem carries_makeArray : Carries (Separates old mask) makeArray s
    fun h s' => s'.Bounded → old.IsNew s'.heap h := by
  refine carries_kept hs (carries_allocate hs (.array #[]) rfl rfl ?_)
  exact fun items h => (Option.some.inj h).symm

end

/-! ## Reading -/

end Loading

namespace Snapshot

/-- An entry that holds no live object, unless it is one itself. -/
def Entry.Loose (entry : Entry) : Prop := entry.isLive = false ∨ ∃ h, entry = .reference h

/-- A snapshot without classes that holds live objects under names of the mask only. -/
structure SharesUnder (s : Snapshot) (mask : List String) : Prop where
  noClass : ∀ node ∈ s.nodes, node.className = none
  root : s.root.isLive = false
  entries : ∀ node ∈ s.nodes, ∀ entry ∈ node.entries.entries,
    entry.2.isLive = false ∨ entry.1 ∈ mask ∧ ∃ h, entry.2 = .reference h

end Snapshot

namespace Loading

open Snapshot (Entry)

section

variable {old : Heap P} {mask : List String} {s : Loading P}

/-- What is read for an entry leads to new objects only, unless the entry is a live object. -/
def SeparatesInside (old : Heap P) (mask : List String) (inner : Inner P) : Prop :=
  ∀ entry s, entry.Loose → (s.Bounded → Separated old mask s) →
    Carries (Separates old mask) (inner entry) s fun v s' => v.isInline = false ∧
      (entry.isLive = false → s'.Bounded → old.OnlyNew s'.heap v)

theorem carries_restoreEntry {inner : Inner P} (hinner : SeparatesInside old mask inner)
    (hs : s.Bounded → Separated old mask s) {h : Handle} (hh : s.Bounded → old.IsNew s.heap h)
    {key : String} {entry : Entry}
    (hentry : entry.isLive = false ∨ key ∈ mask ∧ ∃ k, entry = .reference k) :
    Carries (Separates old mask) (restoreEntry inner h key entry) s fun _ _ => True := by
  have hloose : entry.Loose := hentry.imp_right And.right
  unfold restoreEntry
  split
  · next name source _ =>
    refine (carries_allocate hs (.function ⟨name, .script source⟩) rfl rfl
      fun _ h => nomatch h).bind fun f s' hr hf => ?_
    exact carries_write (hr.separated hs) (hr.isNew hs hh) rfl
      fun hbound => Or.inr (Heap.onlyNew_function.2 (hf hbound))
  · refine (carries_await hs _ (.property h key) hh).bind fun _ s' hr _ => ?_
    refine (carries_discard (carries_putProperty (hr.separated hs) (hr.isNew hs hh) rfl fun _ => ?_)).imp
      fun _ _ _ _ => trivial
    exact Or.inr (Heap.onlyNew_of_handles rfl)
  · apply carries_get
    refine (hinner _ s hloose hs).bind fun value s' hr hvalue => ?_
    have hs' := hr.separated hs
    have hh' := hr.isNew hs hh
    -- the value goes under a name of the mask, or leads to new objects only
    have hwrite : s'.Bounded → key ∈ mask ∨ old.OnlyNew s'.heap value := fun hbound =>
      hentry.elim (fun hlive => Or.inr (hvalue.2 hlive hbound)) fun hmask => Or.inl hmask.1
    dsimp only
    split
    · next array _ _ =>
      have harray : s'.Bounded → old.IsNew s'.heap array := by
        refine fun hbound => Heap.onlyNew_object.1 (hvalue.2 ?_ hbound)
        rcases hentry with hlive | ⟨-, k, hk⟩
        · exact hlive
        · cases hk
      apply carries_get
      split
      · refine Carries.bind (Q := fun _ s'' => s''.heap = s'.heap)
          (carries_modify ⟨.refl, rfl, fun _ hbound => ?_⟩ rfl) fun _ s'' hr' hheap => ?_
        · refine (hs' hbound).congr rfl (fun _ h => Or.inl h) (fun _ _ h _ hp => Or.inl ⟨_, h, hp⟩)
            ?_
          intro renewal hrenewal
          rcases List.mem_append.1 hrenewal with hrenewal | hrenewal
          · exact Or.inl hrenewal
          · rw [List.mem_singleton.1 hrenewal]
            exact Or.inr ⟨hh' hbound, harray hbound⟩
        · refine carries_write (hr'.separated hs') (hr'.isNew hs' hh') rfl fun hbound => ?_
          rw [hheap]
          exact hwrite (hr'.bounded hbound)
      · exact carries_write hs' hh' rfl hwrite
    · exact carries_write hs' hh' hvalue.1 hwrite

theorem carries_rebuildNode {inner : Inner P} (hinner : SeparatesInside old mask inner)
    (hs : s.Bounded → Separated old mask s) {node : Snapshot.Node} (hclass : node.className = none)
    (hentries : ∀ entry ∈ node.entries.entries,
      entry.2.isLive = false ∨ entry.1 ∈ mask ∧ ∃ k, entry.2 = .reference k) :
    Carries (Separates old mask) (rebuildNode inner node) s
      fun h? s' => ∃ h, h? = some h ∧ (s'.Bounded → old.IsNew s'.heap h) := by
  have hsingleton : singletonName? s.realm node = none := by
    rw [singletonName?, hclass, Option.filter_none]
  apply carries_ask
  rw [hsingleton, hclass]
  refine (carries_make hs).bind fun h s' hr hh => ?_
  have hfill : ∀ s'', Separates old mask s' s'' →
      Carries (Separates old mask)
        ((ask fun r => inPhases r (r.classOf? h) node.entries) >>= fun entries =>
          (entries.forM fun entry => restoreEntry inner h entry.1 entry.2) >>= fun _ =>
            pure (some h)) s''
        fun h? s' => ∃ h, h? = some h ∧ (s'.Bounded → old.IsNew s'.heap h) := by
    intro s'' hr'
    have hs' := hr.separated hs
    apply carries_ask
    refine (carries_forM fun entry hentry s₃ hr'' => ?_).bind fun _ s₃ hr'' _ => carries_pure ?_
    · obtain ⟨n, -, hentry⟩ := List.mem_flatMap.1 hentry
      have htrans := Course.trans hr' hr''
      exact carries_restoreEntry hinner (htrans.separated hs') (htrans.isNew hs' hh)
        (hentries entry (List.mem_filter.1 hentry).1)
    · exact ⟨h, rfl, (Course.trans hr' hr'').isNew hs' hh⟩
  dsimp only
  split
  · exact (carries_announce (hr.separated hs) _ hh).bind fun _ s'' hr' _ => hfill s'' hr'
  · exact hfill s' (Course.refl s')

theorem carries_rebuildItems {inner : Inner P} (hinner : SeparatesInside old mask inner)
    (hs : s.Bounded → Separated old mask s) {array : Handle}
    (harray : s.Bounded → old.IsNew s.heap array) (index : Nat) {items : List Entry}
    (hitems : ∀ item ∈ items, item.isLive = false) :
    Carries (Separates old mask) (rebuildItems inner array index items) s fun _ _ => True := by
  induction items generalizing s index with
  | nil => exact carries_pure trivial
  | cons item items ih =>
    have hrest : ∀ value s', Separates old mask s s' → value.isInline = false →
        (s'.Bounded → old.OnlyNew s'.heap value) →
        Carries (Separates old mask) (discard (perform (Realm.assignElement array index value)) >>=
          fun _ => rebuildItems inner array (index + 1) items) s' fun _ _ => True := by
      intro value s' hr hinline hvalue
      refine (carries_assignElement (hr.separated hs) (hr.isNew hs harray) index hinline hvalue).bind
        fun _ s'' hr' _ => ?_
      have htrans := Course.trans hr hr'
      exact ih (htrans.separated hs) (htrans.isNew hs harray) (index + 1)
        fun item hitem => hitems item (List.mem_cons_of_mem _ hitem)
    unfold rebuildItems
    dsimp only
    split
    · refine (carries_await hs _ (.item array index) harray).bind fun _ s' hr _ => ?_
      exact hrest _ s' hr rfl fun _ => Heap.onlyNew_of_handles rfl
    · have hlive := hitems item List.mem_cons_self
      refine (hinner item s (Or.inl hlive) hs).bind fun value s' hr hvalue => ?_
      exact hrest value s' hr hvalue.1 (hvalue.2 hlive)

theorem isLive_of_anyLive {items : List Entry} (h : Entry.anyLive items = false) :
    ∀ item ∈ items, item.isLive = false := by
  induction items with
  | nil => simp
  | cons first rest ih =>
    rw [Entry.anyLive, Bool.or_eq_false_iff] at h
    intro item hitem
    rcases List.mem_cons.1 hitem with rfl | hitem
    · exact h.1
    · exact ih h.2 item hitem

theorem separatesInside_rebuildWith {snapshot : Snapshot} (hsnapshot : snapshot.SharesUnder mask)
    {inner? : Option (Inner P)} (hinner : ∀ inner, inner? = some inner → SeparatesInside old mask inner) :
    SeparatesInside old mask (rebuildWith snapshot inner?) := by
  intro entry s hloose hs
  -- what is no object cannot be shared
  have hscalar : ∀ v : Value, v.isInline = false → v.handles = [] →
      Carries (Separates old mask) (pure v) s fun v s' => v.isInline = false ∧
        (entry.isLive = false → s'.Bounded → old.OnlyNew s'.heap v) :=
    fun v hinline hhandles => carries_pure ⟨hinline, fun _ _ => Heap.onlyNew_of_handles hhandles⟩
  cases entry with
  | null => exact hscalar _ rfl rfl
  | bool b => exact hscalar _ rfl rfl
  | int n =>
    refine hscalar _ (isInline_intValue n) ?_
    unfold intValue
    split <;> rfl
  | double x => exact hscalar _ rfl rfl
  | string text => exact hscalar _ rfl rfl
  | reference h =>
    apply carries_ask
    split
    · exact carries_pure ⟨rfl, fun hlive => nomatch hlive⟩
    · exact hscalar _ rfl rfl
  | stub id => exact carries_throw _
  | array items =>
    have hitems : ∀ item ∈ items, item.isLive = false := by
      rcases hloose with hlive | ⟨h, hh⟩
      · exact isLive_of_anyLive hlive
      · cases hh
    refine carries_roomFor fun inner hsome => ?_
    rw [rebuildArray_eq]
    have harray : Carries (Separates old mask) (makeArray >>= fun array =>
        rebuildItems inner array 0 items >>= fun _ => pure array) s
        fun array s' => s'.Bounded → old.IsNew s'.heap array := by
      refine (carries_makeArray hs).bind fun array s' hr hnew => ?_
      refine (carries_rebuildItems (hinner inner hsome) (hr.separated hs) hnew 0 hitems).bind
        fun _ s'' hr' _ => carries_pure ?_
      exact hr'.isNew (hr.separated hs) hnew
    refine harray.bind fun array s' _ hnew => carries_pure ⟨rfl, fun _ hbound => ?_⟩
    exact Heap.onlyNew_object.2 (hnew hbound)
  | node index =>
    refine carries_roomFor fun inner hsome => ?_
    unfold Snapshot.node
    cases hnode : snapshot.nodes[index]? with
    | none => exact carries_throw_bind _ _
    | some node =>
      have hmem : node ∈ snapshot.nodes := Array.mem_of_getElem? hnode
      refine Carries.bind (carries_pure (Q := fun found s' => found = node ∧ s' = s) ⟨rfl, rfl⟩) ?_
      rintro _ _ - ⟨rfl, rfl⟩
      refine (carries_rebuildNode (hinner inner hsome) hs (hsnapshot.noClass _ hmem)
        (hsnapshot.entries _ hmem)).bind ?_
      rintro _ s' - ⟨h, rfl, hnew⟩
      exact carries_pure ⟨rfl, fun _ hbound => Heap.onlyNew_object.2 (hnew hbound)⟩

theorem separatesInside_read {snapshot : Snapshot} (hsnapshot : snapshot.SharesUnder mask)
    (room : Nat) : SeparatesInside old mask (read (P := P) snapshot room) := by
  -- by the room that is left for nesting
  induction room with
  | zero => exact separatesInside_rebuildWith hsnapshot (by simp)
  | succ room ih =>
    refine separatesInside_rebuildWith hsnapshot fun inner hsome => ?_
    exact Option.some.inj hsome ▸ ih

/-- What is built from the snapshot is kept apart from what was there before. -/
theorem separates_build {snapshot : Snapshot} (hsnapshot : snapshot.SharesUnder mask) {r : Realm P}
    (hwf : r.heap.WellFormed) :
    Carries (Separates r.heap mask) (build snapshot) (start r) fun root s' =>
      s'.Bounded → Separated r.heap mask s' ∧ r.heap.OnlyNew s'.heap root := by
  have hstart : (start r).Bounded → Separated r.heap mask (start r) := by
    refine fun _ => ⟨hwf, fun _ hk => hk, ?_, ?_, ?_, ?_⟩
    · exact fun h object hget hnew => absurd (Heap.issued_of_get? hget) hnew
    · exact fun entry hentry => by simp [start] at hentry
    · exact fun id places hentry => by simp [start, Table.empty] at hentry
    · exact fun renewal hrenewal => by simp [start] at hrenewal
  apply carries_ask
  refine (separatesInside_read hsnapshot _ snapshot.root _ (Or.inl hsnapshot.root) hstart).bind
    fun root s₁ hr₁ hroot => ?_
  have hs₁ := hr₁.separated hstart
  refine (carries_settleAll hs₁).bind fun _ s₂ hr₂ _ => ?_
  have hs₂ := hr₂.separated hs₁
  refine (carries_renewAll hs₂).bind fun _ s₃ hr₃ _ => carries_pure fun hbound => ?_
  refine ⟨hr₃.separated hs₂ hbound, fun k hk => ?_⟩
  exact (Course.trans hr₂ hr₃).isNew hs₁ (fun hbound' => hroot.2 hsnapshot.root hbound' k hk) hbound

end

end Loading

end ScriptBridge
