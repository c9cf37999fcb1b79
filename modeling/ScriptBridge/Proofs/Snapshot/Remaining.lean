import ScriptBridge.Proofs.Snapshot.Course
import ScriptBridge.Proofs.Snapshot.Phases

/-!
# Fields that Remain as They are

A load writes a field of a plain object for the entry that is about it, and later on for a node that
its place has waited for, or for an array that has received late items. Where nothing of this is left
to come, the field holds to the end of the load what it holds now, whatever else is read.

Main statements: one lemma for each step of loading, and `remainsInside_read`.
-/

namespace ScriptBridge

open Realm (after)

variable {P : Platform}

/-! ## Places and States -/

/-- A place other than a field of an object, and no item of it. -/
def Place.Avoids (p : Place) (h : Handle) (name : String) : Prop :=
  p.owner ≠ h ∨ ∃ owner other, p = .property owner other ∧ other ≠ name

namespace Loading

open Snapshot (Entry fieldName)

/-- A field of a plain object holds a value, or nothing, and nothing waits to be put there. -/
structure Remains (h : Handle) (name : String) (v? : Option Value) (s : Loading P) : Prop where
  wellFormed : s.heap.WellFormed
  held : ∃ fields, s.heap.get? h = some ⟨.plain, fields⟩ ∧ fields.find? name = v?
  waiting : ∀ id places, (id, places) ∈ s.waiting.entries → ∀ p ∈ places, p.Avoids h name
  renewals : ∀ renewal ∈ s.renewals, renewal.1 ≠ h ∨ renewal.2.1 ≠ name

section

variable {h : Handle} {name : String} {v? : Option Value} {s s' : Loading P}

theorem Remains.issued (hs : Remains h name v? s) : s.heap.Issued h := by
  obtain ⟨fields, hget, -⟩ := hs.held
  exact Heap.issued_of_get? hget

/-- The heap changes elsewhere, or in other fields of the object. -/
theorem Remains.realm (hs : Remains h name v? s) {r : Realm P}
    (hchanges : s.heap.Changes (fun _ => True) (fun _ => True) r.heap)
    (hbound : r.heap.capacity ≤ UInt32.size)
    (hheld : ∃ fields, r.heap.get? h = some ⟨.plain, fields⟩ ∧ fields.find? name = v?) :
    Remains h name v? { s with realm := r } :=
  ⟨hchanges.wellFormed hs.wellFormed hbound, hheld, hs.waiting, hs.renewals⟩

theorem Remains.congr (hs : Remains h name v? s) (hheap : s'.heap = s.heap)
    (hwaiting : ∀ id places, (id, places) ∈ s'.waiting.entries → ∀ p ∈ places,
      (∃ others, (id, others) ∈ s.waiting.entries ∧ p ∈ others) ∨ p.Avoids h name)
    (hrenewals : ∀ renewal ∈ s'.renewals, renewal ∈ s.renewals ∨
      (renewal.1 ≠ h ∨ renewal.2.1 ≠ name)) : Remains h name v? s' := by
  refine ⟨hheap ▸ hs.wellFormed, hheap ▸ hs.held, fun id places hentry p hp => ?_, ?_⟩
  · rcases hwaiting id places hentry p hp with ⟨others, hothers, hp⟩ | havoids
    · exact hs.waiting id others hothers p hp
    · exact havoids
  · exact fun renewal hrenewal => (hrenewals renewal hrenewal).elim (hs.renewals renewal) id

/-- Something that is made is not the object. -/
theorem Remains.allocate (hs : Remains h name v? s) {object : ScriptObject P} {r : Realm P}
    (hheap : r.heap = (s.heap.allocate object).2) (hbound : r.heap.capacity ≤ UInt32.size) :
    Remains h name v? { s with realm := r } ∧ (s.heap.allocate object).1 ≠ h := by
  have hchanges : s.heap.Changes (fun _ => True) (fun _ => True) r.heap :=
    hheap ▸ .single (.allocate trivial)
  rw [hheap] at hbound
  have hroom := Heap.hasRoom_of_capacity_allocate hs.wellFormed hbound
  -- the handle of what is made has not been given out before
  have hne : (s.heap.allocate object).1 ≠ h := by
    rintro rfl
    exact hs.wellFormed.not_issued_allocate hroom object hs.issued
  refine ⟨hs.realm hchanges (hheap ▸ hbound) ?_, hne⟩
  rw [hheap, hs.wellFormed.get?_allocate hroom, if_neg hne.symm]
  exact hs.held

/-! ## Writing -/

/-- A value that is written into a field of the object stands in this field alone. -/
theorem Remains.held_putProperty (hs : Remains h name v? s) (key : String) {v : Value}
    (hinline : v.isInline = false) :
    ∃ fields, (after (Realm.putProperty h key v true) s.realm).heap.get? h = some ⟨.plain, fields⟩ ∧
      fields.find? name = if name = key then some v else v? := by
  obtain ⟨fields, hget, hfield⟩ := hs.held
  have hget : s.realm.heap.get? h = some ⟨.plain, fields⟩ := hget
  rw [Realm.heap_putProperty_of_field hget rfl rfl hinline, Heap.get?_modify, if_pos rfl, hget]
  refine ⟨fields.insert key v, rfl, ?_⟩
  rw [Table.find?_insert, hfield]

variable (hs : s.Bounded → Remains h name v? s)

include hs

/-- An object other than the one with the field is edited. -/
theorem remains_edit {owner : Handle} (howner : s.Bounded → owner ≠ h) {r : Realm P}
    (halters : Realm.Alters (fun k => k = owner) (fun _ => False) s.realm r) :
    Maintains (Remains h name v?) s { s with realm := r } := by
  have hchanges := halters.heap.imp (fun _ _ => trivial) fun _ _ => trivial
  refine ⟨hchanges, fun _ hbound => ?_⟩
  have hbefore : s.Bounded := Nat.le_trans hchanges.capacity_le hbound
  have hremains := hs hbefore
  refine hremains.realm hchanges hbound ?_
  have hsame := halters.heap.get?_of_issued hremains.wellFormed hbound hremains.issued
    (howner hbefore).symm
  rw [hsame.2]
  exact hremains.held

theorem remains_putProperty {owner : Handle} {key : String} {v : Value} (hinline : v.isInline = false)
    (havoids : s.Bounded → owner ≠ h ∨ key ≠ name) :
    Carries (Maintains (Remains h name v?)) (attempt (Realm.putProperty owner key v true)) s
      fun _ _ => True := by
  refine carries_attempt fun outcome r hrun => ⟨?_, trivial⟩
  obtain rfl : after (Realm.putProperty owner key v true) s.realm = r := congrArg Prod.snd hrun
  by_cases howner : owner = h
  -- another field of the same object
  · subst howner
    have hchanges : s.heap.Changes (fun _ => True) (fun _ => True)
        (after (Realm.putProperty owner key v true) s.realm).heap :=
      (Realm.alters_putProperty trivial key (Or.inl hinline) true s.realm).heap
    refine ⟨hchanges, fun _ hbound => ?_⟩
    have hbefore : s.Bounded := Nat.le_trans hchanges.capacity_le hbound
    refine (hs hbefore).realm hchanges hbound ?_
    have hkey : name ≠ key := ((havoids hbefore).resolve_left fun hne => hne rfl).symm
    have hheld := (hs hbefore).held_putProperty key hinline
    rwa [if_neg hkey] at hheld
  · exact remains_edit hs (fun _ => howner)
      (Realm.alters_putProperty (by rfl) key (Or.inl hinline) true s.realm)

theorem remains_write {owner : Handle} {key : String} {v : Value} (hinline : v.isInline = false)
    (havoids : s.Bounded → owner ≠ h ∨ key ≠ name) :
    Carries (Maintains (Remains h name v?)) (write owner key v) s fun _ _ => True := by
  refine (remains_putProperty hs hinline havoids).bind fun outcome s' _ _ => ?_
  cases outcome with
  | ok answer => exact carries_pure trivial
  | error error => exact carries_strictly trivial

theorem remains_assignElement {array : Handle} (harray : s.Bounded → array ≠ h) (index : Nat)
    {v : Value} (hinline : v.isInline = false) :
    Carries (Maintains (Remains h name v?))
      (discard (perform (Realm.assignElement array index v))) s fun _ _ => True := by
  refine (carries_discard (Q := fun _ _ => True) (carries_perform fun answer r hrun => ?_)).imp
    fun _ _ _ _ => trivial
  obtain rfl : after (Realm.assignElement array index v) s.realm = r := congrArg Prod.snd hrun
  exact ⟨remains_edit hs harray
    (Realm.alters_assignElement (by rfl) index (Or.inl hinline) s.realm), trivial⟩

theorem remains_await (id : String) {place : Place} (hplace : s.Bounded → place.Avoids h name) :
    Carries (Maintains (Remains h name v?)) (await id place) s fun _ _ => True := by
  refine carries_modify ⟨.refl, fun _ hbound => ?_⟩ trivial
  refine (hs hbound).congr rfl (fun other places hentry p hp => ?_) fun _ h => Or.inl h
  rcases Table.mem_entries_insert hentry with heq | hentry
  -- the place has joined those that wait for the same node
  · obtain ⟨rfl, rfl⟩ := Prod.mk.inj heq
    rcases List.mem_append.1 hp with hp | hp
    · cases hfound : s.waiting.find? other with
      | none => simp [hfound] at hp
      | some before =>
        rw [hfound] at hp
        exact Or.inl ⟨before, Table.find?_eq_some_iff.1 hfound, hp⟩
    · exact Or.inr (List.mem_singleton.1 hp ▸ hplace hbound)
  · exact Or.inl ⟨places, hentry, hp⟩

theorem remains_settle (target : Handle) {place : Place}
    (hplace : s.Bounded → place.Avoids h name) :
    Carries (Maintains (Remains h name v?)) (settle target place) s fun _ _ => True := by
  cases place with
  | property owner key =>
    refine remains_write hs rfl fun hbound => (hplace hbound).imp_right ?_
    rintro ⟨_, other, heq, hother⟩
    exact (Place.property.inj heq).2 ▸ hother
  | item array index =>
    refine remains_assignElement hs (fun hbound => (hplace hbound).resolve_right ?_) index rfl
    rintro ⟨_, other, heq, -⟩
    cases heq

theorem remains_settleEach (target : Handle) {places : List Place}
    (hplaces : s.Bounded → ∀ p ∈ places, p.Avoids h name) :
    Carries (Maintains (Remains h name v?)) (places.forM (settle target)) s fun _ _ => True :=
  carries_forM fun p hp _ hr =>
    remains_settle (hr.kept hs) target fun hbound => hplaces (hbound.before hr.gains) p hp

theorem remains_announce (id : String) (target : Handle) :
    Carries (Maintains (Remains h name v?)) (announce id target) s fun _ _ => True := by
  apply carries_get
  refine Carries.bind (Q := fun _ _ => True) (carries_modify ⟨.refl, fun _ hbound => ?_⟩ trivial)
    fun _ s' hr _ => ?_
  · refine (hs hbound).congr rfl (fun other places hentry p hp => ?_) fun _ h => Or.inl h
    exact Or.inl ⟨places, (List.mem_filter.1 hentry).1, hp⟩
  -- what has waited has been taken out, but was known to avoid the field before
  · refine remains_settleEach (hr.kept hs) target fun hbound p hp => ?_
    cases hfound : s.waiting.find? id with
    | none => simp [hfound] at hp
    | some places =>
      rw [hfound] at hp
      exact (hs (hbound.before hr.gains)).waiting id places (Table.find?_eq_some_iff.1 hfound) p hp

theorem remains_settleAll :
    Carries (Maintains (Remains h name v?)) settleAll s fun _ _ => True := by
  apply carries_get
  refine Carries.bind (Q := fun _ _ => True) (carries_modify ⟨.refl, fun _ hbound => ?_⟩ trivial)
    fun _ s' hr _ => carries_forM ?_
  · refine (hs hbound).congr rfl (fun id places hentry => ?_) fun _ h => Or.inl h
    simp [Table.empty] at hentry
  · rintro ⟨id, places⟩ hentry s'' hr'
    have hr'' := Course.trans hr hr'
    apply carries_get
    cases hbuilt : s''.built.lookup id with
    | some target =>
      refine remains_settleEach (hr''.kept hs) target fun hbound p hp => ?_
      exact (hs (hbound.before hr''.gains)).waiting id places hentry p hp
    | none => exact carries_strictly trivial

theorem remains_renewAll : Carries (Maintains (Remains h name v?)) renewAll s fun _ _ => True := by
  apply carries_get
  refine Carries.bind (Q := fun _ _ => True) (carries_modify ⟨.refl, fun _ hbound => ?_⟩ trivial)
    fun _ s' hr _ => carries_forM ?_
  · exact (hs hbound).congr rfl (fun _ _ h _ hp => Or.inl ⟨_, h, hp⟩) fun _ h => by simp at h
  · rintro ⟨owner, key, array⟩ hrenewal s'' hr'
    have hr'' := Course.trans hr hr'
    refine remains_write (hr''.kept hs) rfl fun hbound => ?_
    exact (hs (hbound.before hr''.gains)).renewals _ hrenewal

/-! ## Making -/

/-- What is made is not the object with the field. -/
theorem remains_made (object : ScriptObject P) (t : Loading P)
    (hheap : t.realm.heap = (s.heap.allocate object).2) (hwaiting : t.waiting = s.waiting)
    (hrenewals : t.renewals = s.renewals) :
    Maintains (Remains h name v?) s t ∧ (t.Bounded → (s.heap.allocate object).1 ≠ h) := by
  have hchanges : s.Gains t := by
    show s.heap.Changes _ _ t.realm.heap
    exact hheap ▸ .single (.allocate trivial)
  have hmade : t.Bounded → _ := fun hbound =>
    (hs (hbound.before hchanges)).allocate hheap hbound
  refine ⟨⟨hchanges, fun _ hbound => ?_⟩, fun hbound => (hmade hbound).2⟩
  refine (hmade hbound).1.congr rfl ?_ ?_
  · exact fun id places hentry p hp => Or.inl ⟨places, hwaiting ▸ hentry, hp⟩
  · exact fun renewal hrenewal => Or.inl (hrenewals ▸ hrenewal)

theorem remains_make (className : Option String) :
    Carries (Maintains (Remains h name v?)) (make className) s
      fun owner s' => s'.Bounded → owner ≠ h := by
  rcases make_cases className s with ⟨-, error, hrun⟩ | hrun
  -- a strict load ends where there is no such class
  · intro _ _ hrun'
    cases (Prod.mk.inj (hrun.symm.trans hrun')).1
  · have hmade := remains_made hs (.ofForm (s.realm.freshForm (classFor s.realm className)))
      (s.withNew (classFor s.realm className) (s.sleepersWith className))
      (by rw [withNew, Realm.instantiate_eq]; rfl) rfl rfl
    refine carries_of_runs hrun hmade.1 ?_
    rw [Realm.instantiate_eq]
    exact hmade.2

theorem remains_makeArray : Carries (Maintains (Remains h name v?)) makeArray s
    fun array s' => s'.Bounded → array ≠ h := by
  have hrun : Runs makeArray s (s.realm.instantiate .array).1 (s.withNew .array s.sleepers) :=
    runs_newArray.bind ((runs_keepAlive _).bind (runs_pure _))
  have hmade := remains_made hs (.ofForm (.array #[])) (s.withNew .array s.sleepers) rfl rfl rfl
  exact carries_of_runs hrun hmade.1 hmade.2

/-! ## Reading -/

omit hs

/-- Whatever is read for an entry, a field remains as it is. -/
def RemainsInside (h : Handle) (name : String) (v? : Option Value) (inner : Inner P) : Prop :=
  ∀ entry s, (s.Bounded → Remains h name v? s) →
    Carries (Maintains (Remains h name v?)) (inner entry) s fun v _ => v.isInline = false

variable {inner : Inner P}

theorem remains_readNoting (hinner : RemainsInside h name v? inner)
    (hs : s.Bounded → Remains h name v? s) {owner : Handle} {key : String}
    (havoids : s.Bounded → owner ≠ h ∨ key ≠ name) (entry : Entry) :
    Carries (Maintains (Remains h name v?)) (readNoting inner owner key entry) s
      fun v _ => v.isInline = false := by
  apply carries_get
  refine (hinner entry s hs).bind fun value s' hr hvalue => ?_
  have hs' := hr.kept hs
  have hplain : Carries (Maintains (Remains h name v?)) (pure value) s'
      fun v _ => v.isInline = false := carries_pure hvalue
  dsimp only
  split
  · next array _ _ =>
    apply carries_get
    split
    -- the property is noted with its array, so it must not be the field
    · refine Carries.bind (Q := fun _ _ => True) (carries_modify ⟨.refl, fun _ hbound => ?_⟩ trivial)
        fun _ s'' _ _ => carries_pure hvalue
      refine (hs' hbound).congr rfl (fun _ _ h _ hp => Or.inl ⟨_, h, hp⟩) fun renewal hrenewal => ?_
      rcases List.mem_append.1 hrenewal with hrenewal | hrenewal
      · exact Or.inl hrenewal
      · rw [List.mem_singleton.1 hrenewal]
        exact Or.inr (havoids (hbound.before hr.gains))
    · exact hplain
  · exact hplain

theorem remains_prepare (hinner : RemainsInside h name v? inner)
    (hs : s.Bounded → Remains h name v? s) {owner : Handle} {key : String} {entry : Entry}
    (havoids : s.Bounded → owner ≠ h ∨ fieldName (key, entry) ≠ name) :
    Carries (Maintains (Remains h name v?)) (prepare inner owner key entry) s
      fun v _ => v.isInline = false := by
  unfold prepare
  split
  · next function source _ =>
    refine Carries.bind (Q := fun _ _ => True) (carries_perform fun f r hrun => ⟨?_, trivial⟩)
      fun f s' _ _ => carries_pure rfl
    obtain rfl : (s.realm.newFunction function (.script source)).2 = r := (Prod.mk.inj hrun).2
    exact (remains_made hs (.ofForm (.function ⟨function, .script source⟩))
      { s with realm := (s.realm.newFunction function (.script source)).2 } rfl rfl rfl).1
  · next id _ =>
    refine (remains_await hs id fun hbound => ?_).bind fun _ _ _ _ => carries_pure rfl
    exact (havoids hbound).imp_right fun hkey =>
      ⟨owner, key, rfl, hkey⟩
  · next hnone =>
    rw [fieldName_of_none hnone] at havoids
    exact remains_readNoting hinner hs havoids _

/-- For an entry about another field, or of another object, nothing comes into the field. -/
theorem remains_restoreEntry (hinner : RemainsInside h name v? inner)
    (hs : s.Bounded → Remains h name v? s) {owner : Handle} {key : String} {entry : Entry}
    (havoids : s.Bounded → owner ≠ h ∨ fieldName (key, entry) ≠ name) :
    Carries (Maintains (Remains h name v?)) (restoreEntry inner owner key entry) s
      fun _ _ => True := by
  rw [restoreEntry_eq]
  refine (remains_prepare hinner hs havoids).bind fun value s' hr hvalue => ?_
  have havoids' : s'.Bounded → owner ≠ h ∨ fieldName (key, entry) ≠ name :=
    fun hbound => havoids (hbound.before hr.gains)
  unfold writeFirst
  split
  · exact (carries_discard (remains_putProperty (hr.kept hs) hvalue havoids')).imp
      fun _ _ _ _ => trivial
  · exact remains_write (hr.kept hs) hvalue havoids'

theorem remains_restoreEntries (hinner : RemainsInside h name v? inner)
    (hs : s.Bounded → Remains h name v? s) {owner : Handle} {entries : List (String × Entry)}
    (havoids : s.Bounded → owner ≠ h ∨ ∀ entry ∈ entries, fieldName entry ≠ name) :
    Carries (Maintains (Remains h name v?))
      (entries.forM fun entry => restoreEntry inner owner entry.1 entry.2) s fun _ _ => True :=
  carries_forM fun entry hentry _ hr => remains_restoreEntry hinner (hr.kept hs) fun hbound =>
    (havoids (hbound.before hr.gains)).imp_right fun hall => hall entry hentry

theorem remains_rebuildNode (hinner : RemainsInside h name v? inner)
    (hs : s.Bounded → Remains h name v? s) (node : Snapshot.Node) :
    Carries (Maintains (Remains h name v?)) (rebuildNode inner node) s fun _ _ => True := by
  apply carries_ask
  split
  · refine (carries_findSingleton _).bind fun found s' hr _ => ?_
    cases found with
    | none => exact carries_pure trivial
    | some k =>
      dsimp only
      split
      · exact (remains_announce (hr.kept hs) _ k).bind fun _ _ _ _ => carries_pure trivial
      · exact carries_pure trivial
  · refine (remains_make hs node.className).bind fun owner s' hr hne => ?_
    -- the entries are about what has just been made, and not about the object with the field
    have hfill : ∀ s'', Maintains (Remains h name v?) s' s'' →
        Carries (Maintains (Remains h name v?))
          ((ask fun r => inPhases r (r.classOf? owner) node.entries) >>= fun entries =>
            (entries.forM fun entry => restoreEntry inner owner entry.1 entry.2) >>= fun _ =>
              pure (some owner)) s'' fun _ _ => True := by
      intro s'' hr'
      apply carries_ask
      refine (remains_restoreEntries hinner (hr'.kept (hr.kept hs)) fun hbound => ?_).bind
        fun _ _ _ _ => carries_pure trivial
      exact Or.inl (hne (hbound.before hr'.gains))
    dsimp only
    split
    · exact (remains_announce (hr.kept hs) _ owner).bind fun _ s'' hr' _ => hfill s'' hr'
    · exact hfill s' (Course.refl s')

theorem remains_rebuildItems (hinner : RemainsInside h name v? inner)
    (hs : s.Bounded → Remains h name v? s) {array : Handle} (harray : s.Bounded → array ≠ h)
    (index : Nat) (items : List Entry) :
    Carries (Maintains (Remains h name v?)) (rebuildItems inner array index items) s
      fun _ _ => True := by
  induction items generalizing s index with
  | nil => exact carries_pure trivial
  | cons item items ih =>
    -- a stub that waits goes on like an item that has been read
    have hrest : ∀ value s', Maintains (Remains h name v?) s s' → value.isInline = false →
        Carries (Maintains (Remains h name v?))
          (discard (perform (Realm.assignElement array index value)) >>= fun _ =>
            rebuildItems inner array (index + 1) items) s' fun _ _ => True := by
      intro value s' hr hinline
      refine (remains_assignElement (hr.kept hs) (fun hbound => ?_) index hinline).bind
        fun _ s'' hr' _ => ?_
      · exact harray (hbound.before hr.gains)
      · have hr'' := Course.trans hr hr'
        exact ih (hr''.kept hs) (fun hbound => harray (hbound.before hr''.gains)) (index + 1)
    unfold rebuildItems
    dsimp only
    split
    · have hplace : s.Bounded → (Place.item array index).Avoids h name :=
        fun hbound => Or.inl (harray hbound)
      refine (remains_await hs _ hplace).bind fun _ s' hr _ => ?_
      exact hrest _ s' hr rfl
    · exact (hinner item s hs).bind fun value s' hr hvalue => hrest value s' hr hvalue

theorem remainsInside_rebuildWith (snapshot : Snapshot) {inner? : Option (Inner P)}
    (hinner : ∀ inner, inner? = some inner → RemainsInside h name v? inner) :
    RemainsInside h name v? (rebuildWith snapshot inner?) := by
  intro entry s hs
  cases entry with
  | null => exact carries_pure rfl
  | bool b => exact carries_pure rfl
  | int n => exact carries_pure (isInline_intValue n)
  | double x => exact carries_pure rfl
  | string text => exact carries_pure rfl
  | reference k =>
    apply carries_ask
    split <;> exact carries_pure rfl
  | stub id => exact carries_throw _
  | array items =>
    refine carries_roomFor fun inner hsome => ?_
    rw [rebuildArray_eq]
    refine Carries.bind (Q := fun _ _ => True) ?_ fun array s' _ _ => carries_pure rfl
    refine (remains_makeArray hs).bind fun array s' hr harray => ?_
    exact (remains_rebuildItems (hinner inner hsome) (hr.kept hs) harray 0 items).bind
      fun _ s'' _ _ => carries_pure trivial
  | node index =>
    refine carries_roomFor fun inner hsome => ?_
    cases hnode : snapshot.node index with
    | error error => exact carries_throw_bind _ _
    | ok node =>
      refine Carries.bind (carries_pure (Q := fun found s' => found = node ∧ s' = s) ⟨rfl, rfl⟩) ?_
      rintro _ _ - ⟨rfl, rfl⟩
      refine (remains_rebuildNode (hinner inner hsome) hs _).bind fun found s' _ _ => ?_
      exact carries_pure (isInline_ofObject? found)

theorem remainsInside_read (snapshot : Snapshot) (room : Nat) :
    RemainsInside h name v? (read (P := P) snapshot room) := by
  -- by the room that is left for nesting
  induction room with
  | zero => exact remainsInside_rebuildWith snapshot (by simp)
  | succ room ih =>
    refine remainsInside_rebuildWith snapshot fun inner hsome => ?_
    exact Option.some.inj hsome ▸ ih

end

end Loading

end ScriptBridge
