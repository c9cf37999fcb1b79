import ScriptBridge.Proofs.Snapshot.ArrayReading

/-!
# Reading Nodes

An entry of a node is prepared, then it is written to its property, where nothing else goes unless
another entry is about the same property. So when the entries of a node have been written, a property
whose array is whole has been handed it as it is; one whose array is not whole is noted and will be
written again. Whatever is read later leaves this as it is.

Main statements: `ensures_restoreEntry`, `ensures_fill` (the entries of a node are resolved) and
`readsWhole_read`.
-/

namespace ScriptBridge

open Realm (after)

variable {P : Platform}

namespace Loading

open Snapshot (Entry Node fieldName functionOf?)
open Told (Ensures ensures_pure ensures_silently ensures_silently_of_runs ensures_tell
  ensures_tell_bind ensures_throw ensures_throw_bind ensures_get_bind ensures_ask_bind)

/-! ## Preparing Entries -/

/-- Some properties of an object, and its items if it is an array. -/
def Around (h : Handle) (names : String → Prop) : Place → Prop
  | .property owner name => owner = h ∧ names name
  | .item array _ => array = h

/-- No item of an object waits, and none is an object. -/
structure Bare (s : Loading P) (h : Handle) : Prop where
  waits : ∀ i, ¬ s.Awaits (.item h i)
  items : ∀ target, ¬ s.heap.Lists h target

/-- Nothing has been read or waits for an entry. -/
structure Clear (s : Loading P) (H : Account) (h : Handle) (n : String) : Prop where
  waits : ¬ s.Awaits (.property h n)
  renewals : ∀ a, (h, n, a) ∉ s.renewals
  built : ∀ a, .built h n a ∉ H

section

variable {r : Realm P} {snapshot : Snapshot} {X : Place → Prop} {names : String → Prop}
  {b s s₁ s' : Loading P} {B H H₁ H' : Account} {h k a : Handle} {n id key : String} {v : Value}
  {pre : Prop} {entry : Entry} {inner : Told.Inner P} {node : Node} {p : Place}

theorem owner_of_around (hp : Around h names p) : p.owner = h := by
  cases p with
  | property owner name => exact hp.1
  | item array index => exact hp

theorem Bare.proceeds (hs : Bare s h) (hp : Proceeds r X s H s' H') (hX : ∀ i, ¬ X (.item h i))
    (hh : s.heap.Issued h) : Bare s' h where
  waits i hi := hs.waits i (hp.awaits _ (hX i) hh hi)
  items target ht := by
    obtain ⟨i, hi⟩ := Heap.lists_iff.1 ht
    rw [hp.item h i (hX i) hh (hs.waits i)] at hi
    exact hs.items target (Heap.lists_iff.2 ⟨i, hi⟩)

theorem Clear.proceeds (hs : Clear s H h n) (hp : Proceeds r X s H s' H')
    (hX : ¬ X (.property h n)) (hh : s.heap.Issued h) : Clear s' H' h n where
  waits hi := hs.waits (hp.awaits _ hX hh hi)
  renewals a ha := hs.renewals a ((hp.renewals h n a hX hh).1 ha)
  built a ha := hs.built a ((hp.built h n a hX hh).1 ha)

theorem Blank.bare (hs : Blank s H h) : Bare s h where
  waits i := hs.waits _ rfl
  items target ht := by
    obtain ⟨i, hi⟩ := Heap.lists_iff.1 ht
    rw [hs.items i] at hi
    cases hi

theorem Blank.clear (hs : Blank s H h) (n : String) : Clear s H h n :=
  ⟨hs.waits _ rfl, hs.renewals n, hs.built n⟩

/-- An object is whole if none of its items is one. -/
theorem Bare.whole (hs : Bare s h) (hh : s.heap.Issued h) (hb : ¬ b.heap.Issued h) :
    Whole r b s (.object h) := by
  intro a ha k hk
  obtain rfl := Value.object.inj ha
  rcases Relation.ReflTransGen.cases_head hk with rfl | ⟨g, hg, -⟩
  · exact ⟨hh, hs.waits, fun hissued => absurd hissued hb⟩
  · exact absurd hg (hs.items g)

/-- The value for an entry is at hand, and what is noted for an array has been noted. -/
structure Valued (r : Realm P) (h : Handle) (key : String) (entry : Entry) (s : Loading P)
    (H : Account) (v : Value) (s' : Loading P) (H' : Account) : Prop where
  agrees : Agrees r s' H'
  proceeds : Proceeds r (Around h (· = fieldName (key, entry))) s H s' H'
  bare : Bare s' h
  inline : v.isInline = false
  noted : ∀ items, entry = .array items → Clear s H h key →
    ∃ a, v = .object a ∧ Noted r s s' H' h key a

/-- An entry has been written, and if it is an array, it is resolved. -/
structure Written (r : Realm P) (h : Handle) (key : String) (entry : Entry) (s : Loading P)
    (H : Account) (s' : Loading P) (H' : Account) : Prop where
  agrees : Agrees r s' H'
  proceeds : Proceeds r (Around h (· = fieldName (key, entry))) s H s' H'
  bare : Bare s' h
  resolved : ∀ items, entry = .array items → Clear s H h key → ∃ a, Resolved r s s' H' h key a

/-- What is asked for when the entries of an object are written. -/
structure Open (r : Realm P) (s : Loading P) (H : Account) (h : Handle) : Prop where
  agrees : Agrees r s H
  new : New r s h
  bare : Bare s h

theorem Open.within (hs : Open r s H h) : ∀ p, Around h names p → New r s p.owner :=
  fun _ hp => owner_of_around hp ▸ hs.new

/-- Nothing but what stands in other places has changed. -/
theorem Open.valued (hs : Open r s H h) (hagrees : Agrees r s' H')
    (hp : Proceeds r (fun _ => False) s H s' H') (hinline : v.isInline = false)
    (harray : ∀ items, entry ≠ .array items) : Valued r h key entry s H v s' H' where
  agrees := hagrees
  proceeds := hp.imp (fun _ h => h.elim) hs.within
  bare := hs.bare.proceeds hp (fun _ => id) hs.new.1
  inline := hinline
  noted items hitems := absurd hitems (harray items)

theorem Agrees.renewing (hs : Agrees r s H) (hh : s.heap.Issued h) :
    Agrees r { s with renewals := s.renewals ++ [(h, n, a)] } H := by
  refine { hs with renewals := fun k m a' hmem => ?_ }
  rcases List.mem_append.1 hmem with hmem | hmem
  · exact hs.renewals k m a' hmem
  · obtain ⟨rfl, -⟩ := Prod.mk.inj (List.mem_singleton.1 hmem)
    exact hh

/-- A property is noted that is going to be written again. -/
theorem Proceeds.renewing (hp : Proceeds r X s H s' H') (hX : X (.property h n)) :
    Proceeds r X s H { s' with renewals := s'.renewals ++ [(h, n, a)] } H' := by
  have hmem : ∀ k m other, ¬ (k = h ∧ m = n) →
      ((k, m, other) ∈ s'.renewals ++ [(h, n, a)] ↔ (k, m, other) ∈ s'.renewals) := by
    intro k m other hne
    rw [List.mem_append, List.mem_singleton]
    refine or_iff_left fun heq => hne ?_
    obtain ⟨howner, hrest⟩ := Prod.mk.inj heq
    exact ⟨howner, (Prod.mk.inj hrest).1⟩
  refine { hp with renewals := fun k m other hk hissued => ?_, filled := fun k node hk => ?_ }
  · refine (hmem k m other ?_).trans (hp.renewals k m other hk hissued)
    rintro ⟨rfl, rfl⟩
    exact hk hX
  · refine (hp.filled k node hk).imp id fun hfinished => ?_
    refine { hfinished with resolved := fun key items hentry halone => ?_ }
    obtain ⟨a, hres⟩ := hfinished.resolved key items hentry halone
    -- the object of a node that is finished is not the one that the property belongs to
    have hne : ∀ other, _ := fun other => hmem k key other fun heq =>
      hfinished.new (heq.1 ▸ (hp.within _ hX).1)
    exact ⟨a, {
      built := hres.built
      renewals := fun other hother => hres.renewals other ((hne other).1 hother)
      settled := hres.settled
      whole := hres.whole.imp (hne a).2 id
      handed := hres.handed.imp (hne a).2 id }⟩

/-- An array has been read for an entry, and that is told. -/
theorem Open.reads (hs : Open r s H h) (hread : ReadFor r entry s H (.object a) s₁ H₁)
    (key : String) :
    Agrees r s₁ (.built h key a :: H₁) ∧
      Proceeds r (Around h (· = key)) s H s₁ (.built h key a :: H₁) := by
  constructor
  · apply hread.agrees.tell
    · intro k n b hevent
      obtain ⟨rfl, -, -⟩ := Event.built.inj hevent
      exact hread.proceeds.issued _ hs.new.1
    · intro id b i hevent
      cases hevent
  · refine (hread.proceeds.imp (fun _ h => h.elim) hs.within).tell (fun _ _ => rfl) ?_ ?_
    · intro k n b hevent
      obtain ⟨rfl, rfl, -⟩ := Event.built.inj hevent
      exact ⟨rfl, rfl⟩
    · intro k node hevent
      cases hevent

theorem Clear.built_iff (hc : Clear s H h n) (other : Handle) :
    .built h n other ∈ Event.built h n a :: H ↔ other = a := by
  rw [List.mem_cons, or_iff_left (hc.built other)]
  constructor
  · intro hevent
    exact (Event.built.inj hevent).2.2
  · rintro rfl
    rfl

theorem ensures_readNoting (hinner : ReadsWhole r snapshot inner) :
    Ensures (Grounded r snapshot entry ∧ Open r s H h) (Told.readNoting inner h key entry) s H
      (Valued r h key entry s H) := by
  refine ensures_get_bind (Ensures.bind ((hinner entry s H).given fun _ ⟨hentry, hs⟩ =>
    ⟨hentry, hs.agrees⟩) fun v s₁ H₁ => ?_)
  have hother : (∀ items, entry ≠ .array items) →
      Ensures ((Grounded r snapshot entry ∧ Open r s H h) ∧ ReadFor r entry s H v s₁ H₁)
        (pure v : ToldM P Value) s₁ H₁ (Valued r h key entry s H) :=
    fun harray => ensures_pure fun ⟨⟨_, hs⟩, hread⟩ =>
      hs.valued hread.agrees hread.proceeds hread.inline harray
  cases entry with
  | array items =>
    cases v with
    | object a =>
      have hbare : Open r s H h → ReadFor r (.array items) s H (.object a) s₁ H₁ → Bare s₁ h :=
        fun hs hread => hs.bare.proceeds hread.proceeds (fun _ => id) hs.new.1
      have hclear : Open r s H h → ReadFor r (.array items) s H (.object a) s₁ H₁ →
          Clear s H h key → Clear s₁ H₁ h key :=
        fun hs hread hc => hc.proceeds hread.proceeds id hs.new.1
      refine ensures_tell_bind (ensures_get_bind ?_)
      dsimp only
      split
      -- some item has had to wait, so the property is going to be written again
      · refine Ensures.bind (ensures_silently_of_runs (Q := fun _ s₂ H₂ =>
          s₂ = { s₁ with renewals := s₁.renewals ++ [(h, key, a)] } ∧ H₂ = .built h key a :: H₁)
          (runs_modify _) (fun hbound => hbound) fun _ _ => ⟨rfl, rfl⟩) fun _ s₂ H₂ =>
            ensures_pure ?_
        rintro ⟨⟨⟨-, hs⟩, hread⟩, rfl, rfl⟩
        obtain ⟨hagrees, hproceeds⟩ := hs.reads hread key
        have hb := hbare hs hread
        refine ⟨hagrees.renewing (hread.proceeds.issued _ hs.new.1), hproceeds.renewing ⟨rfl, rfl⟩,
          ⟨hb.waits, hb.items⟩, rfl, fun _ _ hc => ⟨a, rfl, ?_⟩⟩
        have hc₁ := hclear hs hread hc
        refine ⟨hc₁.built_iff, fun other hmem => ?_, hc₁.waits, Or.inl ?_⟩
        · rcases List.mem_append.1 hmem with hmem | hmem
          · exact absurd hmem (hc₁.renewals other)
          · cases List.mem_singleton.1 hmem
            rfl
        · exact List.mem_append_right _ List.mem_cons_self
      · next hlate =>
        refine ensures_pure fun ⟨⟨_, hs⟩, hread⟩ => ?_
        obtain ⟨hagrees, hproceeds⟩ := hs.reads hread key
        refine ⟨hagrees, hproceeds, hbare hs hread, rfl, fun _ _ hc => ⟨a, rfl, ?_⟩⟩
        have hc₁ := hclear hs hread hc
        refine ⟨hc₁.built_iff, fun other hmem => absurd hmem (hc₁.renewals other), hc₁.waits,
          Or.inr (hread.whole ?_)⟩
        exact Nat.le_antisymm (Nat.le_of_not_lt hlate) hread.proceeds.late
    | _ =>
      refine ensures_pure fun ⟨_, hread⟩ => ?_
      obtain ⟨a, ha⟩ := hread.array items rfl
      cases ha
  | _ => exact hother (by simp)

theorem allocates_function (s : Loading P) (f : FunctionObject P) :
    Allocates s (s.allocated (.ofForm (.function f))) (s.heap.allocate (.ofForm (.function f))).1 where
  heap := ⟨_, at?_ofForm_function f, rfl, rfl⟩
  evolves := Realm.evolves_newFunction f.name f.body s.realm
  singletons := rfl
  built := rfl
  waiting := rfl
  lateItems := rfl
  renewals := rfl

/-- A stub stands in the place of an entry. -/
theorem Open.postpone (hs : Open r s H h) (id : String) (hbound : s.Bounded) :
    Valued r h key (.stub id) s H .null (s.awaiting id (.property h key)) H where
  agrees := hs.agrees.awaiting hs.new fun _ _ heq => nomatch heq
  proceeds := Proceeds.awaiting hs.agrees.toBeside hs.within ⟨rfl, rfl⟩ hbound
  bare := by
    refine ⟨fun i hi => ?_, hs.bare.items⟩
    exact hs.bare.waits i ((awaits_awaiting_iff.1 hi).resolve_right nofun)
  inline := rfl
  noted items hitems := nomatch hitems

theorem ensures_prepare (hinner : ReadsWhole r snapshot inner) :
    Ensures (Grounded r snapshot entry ∧ Open r s H h) (Told.prepare inner h key entry) s H
      (Valued r h key entry s H) := by
  unfold Told.prepare
  cases hfunction : functionOf? (key, entry) with
  | some function =>
    obtain ⟨name, source⟩ := function
    obtain ⟨_, heq, -⟩ := functionOf?_eq_some hfunction
    obtain ⟨-, rfl⟩ := Prod.mk.inj heq
    refine ensures_silently_of_runs ((runs_newFunction name (.script source)).bind (runs_pure _)) ?_
      fun hbound ⟨_, hs⟩ => ?_
    · have halters : Realm.Freely s.realm
          (s.allocated (.ofForm (.function ⟨name, .script source⟩))).realm :=
        Realm.alters_allocate trivial s.realm
      exact fun hbound => Nat.le_trans halters.heap.capacity_le hbound
    · have hopens := hs.agrees.opens (allocates_function s ⟨name, .script source⟩) hbound
      exact hs.valued hopens.agrees hopens.proceeds rfl (by simp)
  | none =>
    cases entry with
    | stub id =>
      exact ensures_silently_of_runs ((runs_await id (.property h key)).bind (runs_pure _))
        (fun hbound => hbound) fun hbound hp => hp.2.postpone id hbound
    | _ => exact ensures_readNoting hinner

end

/-! ## Writing Entries -/

section

variable {r : Realm P} {snapshot : Snapshot} {s s₁ s' : Loading P} {H H₁ H' : Account} {h : Handle}
  {n key : String} {v : Value} {entry : Entry} {inner : Told.Inner P}

theorem mem_of_mem_resized {items : Array Value} {size : Nat} {a : Handle}
    (h : .object a ∈ (Realm.resized items size).toList) : .object a ∈ items.toList := by
  rw [Array.mem_toList_iff, Realm.resized, Array.mem_append, Array.mem_replicate] at h
  rcases h with h | ⟨-, heq⟩
  · rw [Array.take_eq_extract, ← Array.mem_toList_iff, Array.toList_extract] at h
    exact List.mem_of_mem_take h
  · cases heq

/-- A write into a property puts no object into an array. -/
theorem Bare.put (hs : Bare s h) (hinline : v.isInline = false) (n : String) :
    Bare { s with realm := after (Realm.putProperty h n v true) s.realm } h where
  waits := hs.waits
  items target ht := by
    obtain ⟨items, hitems, hmem⟩ := ht
    apply hs.items target
    rcases Realm.items?_putProperty (r := s.realm) (h := h) hinline n true h with
      hsame | ⟨-, -, size, hresized⟩
    · exact ⟨items, hsame ▸ hitems, hmem⟩
    · obtain ⟨before, hbefore, rfl⟩ := Option.map_eq_some_iff.1 (hresized.symm.trans hitems)
      exact ⟨before, hbefore, mem_of_mem_resized hmem⟩

theorem Valued.written (hp : Valued r h key entry s H v s₁ H₁) (hs : Open r s H h)
    (hstate : s' = { s₁ with
      realm := after (Realm.putProperty h (fieldName (key, entry)) v true) s₁.realm })
    (haccount : H' = .handed h (fieldName (key, entry)) (s₁.realm.expand v) :: H₁)
    (hbound : s'.Bounded) : Written r h key entry s H s' H' := by
  have hwrites : Writes (Around h (· = fieldName (key, entry))) s₁ H₁ s' H' := by
    rw [hstate, haccount]
    exact writes_hand hp.inline ⟨rfl, rfl⟩ (Or.inr fun _ => rfl)
  have hnew : New r s₁ h := hp.proceeds.new hs.new
  have hwithin : ∀ p, Around h (· = fieldName (key, entry)) p → New r s₁ p.owner :=
    fun p hp => owner_of_around hp ▸ hnew
  have hproceeds : Proceeds r (Around h (· = fieldName (key, entry))) s₁ H₁ s' H' :=
    hwrites.proceeds (.refl _ s₁) hp.agrees.toBeside hwithin (fun _ => Or.inl) (fun _ _ => Or.inl)
      hbound
  refine ⟨?_, hp.proceeds.trans hproceeds hp.agrees.slotted, hstate ▸ hp.bare.put hp.inline _, ?_⟩
  · apply hp.agrees.writes hwrites hwithin _ hbound
    rintro k i rfl
    exact ⟨hp.bare.waits i, fun target hat => hp.bare.items target (Heap.lists_iff.2 ⟨i, hat⟩)⟩
  · rintro items rfl hclear
    obtain ⟨a, rfl, hnoted⟩ := hp.noted items rfl hclear
    have hX : ∀ p, Around h (· = key) p → s.heap.Issued p.owner :=
      fun p hp => owner_of_around hp ▸ hs.new.1
    refine ⟨a, ⟨fun other => ?_, ?_, ?_, ?_⟩, ?_⟩
    · exact (hwrites.told _ fun _ _ _ => Event.noConfusion).trans (hnoted.built other)
    · rw [hwrites.renewals]
      exact hnoted.renewals
    · rw [hwrites.awaits]
      exact hnoted.settled
    · rw [hwrites.renewals]
      exact hnoted.whole.imp id fun hwhole => hwhole.proceeds hproceeds hX
    -- what has been handed is the array as it was before the write, and that has not changed it
    · rw [hwrites.renewals]
      refine hnoted.whole.imp id fun hwhole => ?_
      rw [haccount, Account.lastHanded_handed, if_pos ⟨rfl, rfl⟩,
        hwhole.expand_eq hp.agrees.slotted hproceeds hX]

theorem ensures_restoreEntry (hinner : ReadsWhole r snapshot inner) :
    Ensures (Grounded r snapshot entry ∧ Open r s H h)
      (Told.restoreEntry inner h key entry) s H fun _ s' H' => Written r h key entry s H s' H' := by
  refine Ensures.bind (ensures_prepare hinner) fun v s₁ H₁ => ?_
  refine (ensures_hand fun _ => state_of_writeFirst).imp (fun _ h => h) ?_
  rintro _ s' H' hbound ⟨⟨-, hs⟩, hprepared⟩ ⟨hstate, haccount⟩
  exact hprepared.written hs hstate haccount hbound

end

/-! ## Reading Nodes -/

/-- The names of the properties that some entries are written to. -/
def Names (entries : List (String × Entry)) (n : String) : Prop := ∃ e ∈ entries, fieldName e = n

/-- Some entries of a node are going to be written, and nothing has been read for them so far. -/
structure Row (r : Realm P) (all entries : List (String × Entry)) (s : Loading P) (H : Account)
    (h : Handle) : Prop extends Open r s H h where
  clear : ∀ key items, (key, .array items) ∈ entries → Alone all key → Clear s H h key

/-- Some entries of a node have been written, and their arrays are resolved. -/
structure Entered (r : Realm P) (all entries : List (String × Entry)) (h : Handle) (s : Loading P)
    (H : Account) (s' : Loading P) (H' : Account) : Prop where
  agrees : Agrees r s' H'
  proceeds : Proceeds r (Around h (Names entries)) s H s' H'
  bare : Bare s' h
  resolved : ∀ key items, (key, .array items) ∈ entries → Alone all key →
    ∃ a, Resolved r s s' H' h key a

section

variable {r : Realm P} {snapshot : Snapshot} {s s₁ s' : Loading P} {H H₁ H' : Account} {h : Handle}
  {key name : String} {entry : Entry} {inner : Told.Inner P} {all entries : List (String × Entry)}

/-- No other entry of a node is written to the property of one that stands alone. -/
theorem Alone.not_names (halone : Alone all key) (hsub : ∀ e ∈ entries, e ∈ all)
    (hkey : key ∉ entries.map Prod.fst) : ¬ Names entries key := by
  rintro ⟨e, he, hname⟩
  exact hkey (List.mem_map.2 ⟨e, he, halone e (hsub e he) hname⟩)

theorem Row.next (hs : Row r all ((key, entry) :: entries) s H h)
    (hw : Written r h key entry s H s₁ H₁) (hall : (key, entry) ∈ all)
    (hkey : key ∉ entries.map Prod.fst) : Row r all entries s₁ H₁ h where
  agrees := hw.agrees
  new := hw.proceeds.new hs.new
  bare := hw.bare
  clear k items hmem halone := by
    refine (hs.clear k items (List.mem_cons_of_mem _ hmem) halone).proceeds hw.proceeds ?_ hs.new.1
    rintro ⟨-, hname⟩
    have hsame : key = k := halone (key, entry) hall hname.symm
    exact hkey (hsame ▸ List.mem_map_of_mem hmem)

/-- One entry has been written, then the others. -/
theorem Written.entered (hw : Written r h key entry s H s₁ H₁)
    (hs : Row r all ((key, entry) :: entries) s H h) (hrest : Entered r all entries h s₁ H₁ s' H')
    (hsub : ∀ e ∈ entries, e ∈ all) (hkey : key ∉ entries.map Prod.fst) :
    Entered r all ((key, entry) :: entries) h s H s' H' where
  agrees := hrest.agrees
  proceeds := by
    have hfirst : ∀ p, Around h (· = fieldName (key, entry)) p →
        Around h (Names ((key, entry) :: entries)) p := by
      intro p hp
      cases p with
      | property owner n => exact ⟨hp.1, _, List.mem_cons_self, hp.2.symm⟩
      | item array index => exact hp
    have hlater : ∀ p, Around h (Names entries) p → Around h (Names ((key, entry) :: entries)) p := by
      intro p hp
      cases p with
      | property owner n =>
        obtain ⟨ho, e, he, hn⟩ := hp
        exact ⟨ho, e, List.mem_cons_of_mem _ he, hn⟩
      | item array index => exact hp
    refine (hw.proceeds.imp hfirst hs.within).trans (hrest.proceeds.imp hlater ?_) hw.agrees.slotted
    exact fun p hp => hw.proceeds.new (hs.within p hp)
  bare := hrest.bare
  resolved k items hmem halone := by
    rcases List.mem_cons.1 hmem with heq | hmem
    · obtain ⟨rfl, rfl⟩ := Prod.mk.inj heq
      obtain ⟨a, hres⟩ := hw.resolved items rfl (hs.clear k items List.mem_cons_self halone)
      refine ⟨a, hres.proceeds hw.agrees.slotted hrest.proceeds ?_ ?_ (hw.proceeds.issued h hs.new.1)⟩
      · exact fun p hp => owner_of_around hp ▸ hs.new.1
      · exact fun hp => halone.not_names hsub hkey hp.2
    · obtain ⟨a, hres⟩ := hrest.resolved k items hmem halone
      exact ⟨a, hres.rebase hw.proceeds.issued⟩

theorem ensures_restoreEntries (hinner : ReadsWhole r snapshot inner)
    (hsub : ∀ e ∈ entries, e ∈ all) (hnodup : (entries.map Prod.fst).Nodup) :
    Ensures ((∀ e ∈ entries, Grounded r snapshot e.2) ∧ Row r all entries s H h)
      (entries.forM fun entry => Told.restoreEntry inner h entry.1 entry.2) s H fun _ s' H' =>
        Entered r all entries h s H s' H' := by
  induction entries generalizing s H with
  | nil =>
    refine ensures_pure fun ⟨_, hs⟩ => ⟨hs.agrees, ?_, hs.bare, fun _ _ hmem => by simp at hmem⟩
    exact (Proceeds.refl r s H).imp (fun _ h => h.elim) hs.within
  | cons entry entries ih =>
    obtain ⟨key, entry⟩ := entry
    obtain ⟨hkey, hnodup⟩ := List.nodup_cons.1 hnodup
    have hsub' : ∀ e ∈ entries, e ∈ all := fun e he => hsub e (List.mem_cons_of_mem _ he)
    refine Ensures.bind ((ensures_restoreEntry hinner).given fun _ ⟨hentries, hs⟩ =>
      ⟨hentries _ List.mem_cons_self, hs.toOpen⟩) fun _ s₁ H₁ => ?_
    refine (ih hsub' hnodup).imp ?_ ?_
    · rintro - ⟨⟨hentries, hs⟩, hw⟩
      refine ⟨fun e he => hentries e (List.mem_cons_of_mem _ he), ?_⟩
      exact hs.next hw (hsub _ List.mem_cons_self) hkey
    · rintro _ s' H' - ⟨⟨-, hs⟩, hw⟩ hentered
      exact hw.entered hs hentered hsub' hkey

theorem of_runs_findSingleton {found : Option Handle} (hrun : Runs (findSingleton name) s found s') :
    s' = s ∧ found = s.realm.singleton? name := by
  obtain ⟨single, s₁, hask, hrest⟩ := Realm.exists_of_run_bind hrun
  obtain ⟨hsingle, rfl⟩ := Prod.mk.inj hask
  obtain rfl := Except.ok.inj hsingle
  dsimp only at hrest
  cases hfound : s.realm.singleton? name with
  | some h =>
    rw [hfound] at hrest
    obtain ⟨hanswer, rfl⟩ := Prod.mk.inj hrest
    exact ⟨rfl, (Except.ok.inj hanswer).symm⟩
  | none =>
    rw [hfound] at hrest
    obtain ⟨strict, s₂, hask, hlast⟩ := Realm.exists_of_run_bind hrest
    obtain ⟨-, rfl⟩ := Prod.mk.inj hask
    cases strict with
    | true => exact nomatch (Prod.mk.inj hlast).1
    | false =>
      obtain ⟨hanswer, rfl⟩ := Prod.mk.inj hlast
      exact ⟨rfl, (Except.ok.inj hanswer).symm⟩

theorem ensures_make (className : Option String) :
    Ensures (Agrees r s H) (Told.silently (make className)) s H (Opens r s H) := by
  apply ensures_silently
  intro h s' hrun hbound
  obtain ⟨-, error, hfails⟩ | hmade := make_cases className s
  · exact nomatch (Prod.mk.inj (hfails.symm.trans hrun)).1
  · obtain ⟨hanswer, rfl⟩ := Prod.mk.inj (hmade.symm.trans hrun)
    obtain rfl := Except.ok.inj hanswer
    exact ⟨bounded_withNew hbound, fun hs => hs.opens (allocates_withNew s _ _) hbound⟩

/-- Places that have waited for the object are served before its entries are written. -/
theorem Opens.row (ho : Opens r s H h s₁ H₁) (hagrees : Agrees r s' H')
    (hp : Proceeds r (fun _ => False) s₁ H₁ s' H') : Row r all entries s' H' h where
  agrees := hagrees
  new := hp.new ho.new
  bare := ho.blank.bare.proceeds hp (fun _ => id) ho.new.1
  clear key _ _ _ := (ho.blank.clear key).proceeds hp id ho.new.1

/-- The entries of a node are written to its new object. -/
theorem ensures_fill (hinner : ReadsWhole r snapshot inner) {node : Node} {index : Nat} {pre : Prop}
    {s₂ : Loading P} {H₂ : Account}
    (hpre : pre → (∀ e ∈ node.entries.entries, Grounded r snapshot e.2) ∧ Opens r s H h s₁ H₁ ∧
      Agrees r s₂ H₂ ∧ Proceeds r (fun _ => False) s₁ H₁ s₂ H₂) :
    Ensures pre (do
        let entries ← Told.silently (ask fun r => inPhases r (r.classOf? h) node.entries)
        entries.forM fun entry => Told.restoreEntry inner h entry.1 entry.2
        Told.tell (.filled h node)
        return some h) s₂ H₂ fun h? s' H' => ReadFor r (.node index) s H (.ofObject? h?) s' H' := by
  apply ensures_ask_bind
  have hperm := inPhases_perm s₂.realm (s₂.realm.classOf? h) node.entries
  have hsub : ∀ e ∈ inPhases s₂.realm (s₂.realm.classOf? h) node.entries, e ∈ node.entries.entries :=
    fun e he => hperm.mem_iff.1 he
  refine Ensures.bind ((ensures_restoreEntries hinner hsub
    ((hperm.map Prod.fst).nodup_iff.2 node.entries.nodup)).given ?_)
    fun _ s' H' => ensures_tell_bind (ensures_pure ?_)
  · rintro - hp
    obtain ⟨hnode, hopens, hagrees, hproceeds⟩ := hpre hp
    exact ⟨fun e he => hnode e (hperm.mem_iff.1 he), hopens.row hagrees hproceeds⟩
  · rintro ⟨hp, hentered⟩
    obtain ⟨-, hopens, hagrees, hproceeds⟩ := hpre hp
    obtain rfl := hopens.same
    have hissued : s'.heap.Issued h := hentered.proceeds.issued h (hproceeds.issued h hopens.new.1)
    -- since the object was made, only what belongs to it has been written
    have hall : Proceeds r (Around h (Names (inPhases s₂.realm (s₂.realm.classOf? h) node.entries)))
        s₁ H₁ s' H' := by
      refine (hproceeds.imp (fun _ h => h.elim) ?_).trans hentered.proceeds hagrees.slotted
      exact fun p hp => owner_of_around hp ▸ hopens.new
    have hmade := hopens.proceeds.making hall fun p hp => owner_of_around hp ▸ hopens.fresh
    refine ⟨?_, ?_, rfl, nofun, fun _ => hentered.bare.whole hissued hopens.fresh⟩
    · exact hentered.agrees.tell (fun _ _ _ h => nomatch h) fun _ _ _ h => nomatch h
    -- each property that one entry alone is about has been told of with its array
    · refine hmade.tell (fun _ _ => rfl) (fun _ _ _ h => nomatch h) fun k other hevent => ?_
      obtain ⟨rfl, rfl⟩ := Event.filled.inj hevent
      refine ⟨hopens.fresh, hissued, fun key items hmem halone => ?_⟩
      obtain ⟨a, hres⟩ := hentered.resolved key items (hperm.mem_iff.2 hmem) halone
      exact ⟨a, hres.rebase fun k hk => hproceeds.issued k (hopens.proceeds.issued k hk)⟩

theorem ensures_rebuildNode (hinner : ReadsWhole r snapshot inner) {node : Node} {index : Nat}
    (hnode : snapshot.nodes[index]? = some node) :
    Ensures (Grounded r snapshot (.node index) ∧ Agrees r s H) (Told.rebuildNode inner node) s H
      fun h? s' H' => ReadFor r (.node index) s H (.ofObject? h?) s' H' := by
  apply ensures_ask_bind
  cases hname : singletonName? s.realm node with
  | some name =>
    refine Ensures.bind (ensures_silently (Q := fun found s₁ H₁ => s₁ = s ∧ H₁ = H ∧
      found = s.realm.singleton? name) fun found s₁ hrun hbound => ?_) fun found s₁ H₁ => ?_
    · obtain ⟨rfl, hfound⟩ := of_runs_findSingleton hrun
      exact ⟨hbound, fun _ => ⟨rfl, rfl, hfound⟩⟩
    · cases found with
      | none =>
        refine ensures_pure ?_
        rintro ⟨⟨-, hs⟩, rfl, rfl, -⟩
        exact ⟨hs, .refl _ _ _, rfl, nofun, fun _ => whole_of_ne_object nofun⟩
      | some h =>
        -- an installed singleton is one of the things that are taken over
        have hwhole : ∀ s' H', Grounded r snapshot (.node index) → Agrees r s H →
            some h = s.realm.singleton? name → Agrees r s' H' → Whole r s s' (.object h) := by
          intro s' H' hentry hs hfound hs'
          have hname' : singletonName? r node = some name := by
            rw [← hname, singletonName?_congr hs.registry]
          have hfound' : r.singleton? name = some h := by
            rw [hfound, Realm.singleton?, Realm.singleton?, hs.registry, hs.singletons]
          exact whole_of_issued hs' (hentry h (.singleton .here hnode hname' hfound'))
        dsimp only
        cases node.id with
        | none =>
          refine ensures_pure ?_
          rintro ⟨⟨hentry, hs⟩, rfl, rfl, hfound⟩
          exact ⟨hs, .refl _ _ _, rfl, nofun, fun _ => hwhole _ _ hentry hs hfound hs⟩
        | some id =>
          refine Ensures.bind ((ensures_announce (r := r) id h).given ?_) fun _ s' H' =>
            ensures_pure ?_
          · rintro - ⟨⟨-, hs⟩, rfl, rfl, -⟩
            exact hs
          · rintro ⟨⟨⟨hentry, hs⟩, rfl, rfl, hfound⟩, hs', hp⟩
            exact ⟨hs', hp, rfl, nofun, fun _ => hwhole _ _ hentry hs hfound hs'⟩
  | none =>
    have hmembers : Grounded r snapshot (.node index) → Agrees r s H →
        ∀ e ∈ node.entries.entries, Grounded r snapshot e.2 := by
      intro hentry hs e he
      exact hentry.inside (.member hnode (by rw [← hname, singletonName?_congr hs.registry]) he)
    refine Ensures.bind ((ensures_make node.className).given fun _ => And.right) fun h s₁ H₁ => ?_
    dsimp only
    cases node.id with
    | none =>
      apply ensures_fill hinner
      rintro ⟨⟨hentry, hs⟩, hopens⟩
      exact ⟨hmembers hentry hs, hopens, hopens.agrees, .refl _ _ _⟩
    | some id =>
      refine Ensures.bind ((ensures_announce id h).given fun _ hpre => hpre.2.agrees) fun _ s₂ H₂ =>
        ensures_fill hinner fun ⟨⟨⟨hentry, hs⟩, hopens⟩, hagrees, hp⟩ =>
          ⟨hmembers hentry hs, hopens, hagrees, hp⟩

/-- An entry is read without room for a container. -/
theorem ensures_readLeaf (entry : Entry) :
    Ensures (Grounded r snapshot entry ∧ Agrees r s H)
      (Told.silently (Loading.rebuildWith snapshot none entry)) s H (ReadFor r entry s H) := by
  have hquiet : ∀ {v : Value}, v.isInline = false → (∀ a, v ≠ .object a) →
      (∀ items, entry ≠ .array items) → Ensures (Grounded r snapshot entry ∧ Agrees r s H)
        (Told.silently (pure v)) s H (ReadFor r entry s H) := fun hinline hv harray =>
    ensures_silently_of_runs (runs_pure _) (fun hbound => hbound) fun _ ⟨_, hs⟩ =>
      ⟨hs, .refl _ _ _, hinline, fun items h => absurd h (harray items), fun _ =>
        whole_of_ne_object hv⟩
  cases entry with
  | null => exact hquiet rfl nofun nofun
  | bool b => exact hquiet rfl nofun nofun
  | int n => exact hquiet (isInline_intValue n) (intValue_ne_object n) nofun
  | double x => exact hquiet rfl nofun nofun
  | string text => exact hquiet rfl nofun nofun
  | reference h =>
    have hrun : Runs (Loading.rebuildWith snapshot none (.reference h)) s
        (if s.realm.resolves h then .object h else .null) s := (runs_ask _).bind (runs_pure _)
    refine ensures_silently_of_runs hrun (fun hbound => hbound) ?_
    rintro - ⟨hentry, hs⟩
    split
    · exact ⟨hs, .refl _ _ _, rfl, nofun, fun _ => whole_of_issued hs (hentry h (.reference .here))⟩
    · exact ⟨hs, .refl _ _ _, rfl, nofun, fun _ => whole_of_ne_object nofun⟩
  | stub id => exact ensures_throw
  | array items => exact ensures_silently fun _ _ hrun => nomatch (Prod.mk.inj hrun).1
  | node index => exact ensures_silently fun _ _ hrun => nomatch (Prod.mk.inj hrun).1

theorem readsWhole_rebuildWith (r : Realm P) (snapshot : Snapshot) {inner? : Option (Told.Inner P)}
    (hinner : ∀ inner, inner? = some inner → ReadsWhole r snapshot inner) :
    ReadsWhole r snapshot (Told.rebuildWith snapshot inner?) := by
  intro entry s H
  cases inner? with
  | none => cases entry <;> exact ensures_readLeaf _
  | some inner =>
    have hinner := hinner inner rfl
    cases entry with
    | array items =>
      refine Ensures.bind ((ensures_rebuildArray hinner items).given fun _ ⟨hentry, hs⟩ =>
        ⟨fun item hitem => hentry.inside (.item hitem), hs⟩) fun a s' H' => ensures_pure ?_
      rintro ⟨-, hs', hp, hwhole⟩
      exact ⟨hs', hp, rfl, fun _ _ => ⟨a, rfl⟩, hwhole⟩
    | node index =>
      unfold Told.rebuildWith
      dsimp only
      cases hfound : snapshot.node index with
      | error error => exact ensures_throw_bind
      | ok node =>
        have hread : Ensures (Grounded r snapshot (.node index) ∧ Agrees r s H)
            (Told.rebuildNode inner node >>= fun h? => pure (.ofObject? h?)) s H
            (ReadFor r (.node index) s H) :=
          Ensures.bind (ensures_rebuildNode hinner (Snapshot.node_eq_ok_iff.1 hfound)) fun h? s' H' =>
            ensures_pure And.right
        exact hread
    | _ => exact ensures_readLeaf _

theorem readsWhole_read (r : Realm P) (snapshot : Snapshot) (room : Nat) :
    ReadsWhole r snapshot (Told.read snapshot room) := by
  -- by the room that is left for nesting
  induction room with
  | zero => exact readsWhole_rebuildWith r snapshot (by simp)
  | succ room ih =>
    apply readsWhole_rebuildWith
    intro inner hsome
    exact Option.some.inj hsome ▸ ih

end

end Loading

end ScriptBridge
