import ScriptBridge.Proofs.Snapshot.NodeReading

/-!
# Setters See Resolved Arrays

When everything has been read, a load serves the places that still wait, and then writes the
properties again whose arrays have had to wait for items. So each property has been handed its array
as it is in the end. Two things stand in the way: a function that is written to the same property, and
a live array that holds a handle which the load gives out itself.

Main statements: `setters_see_resolved_arrays` and `handed_last_otherwise`.
-/

namespace ScriptBridge

open Realm (after)

variable {P : Platform}

namespace Loading

open Snapshot (Entry Node fieldName functionOf?)
open Told (Ensures ensures_pure ensures_silently ensures_silently_of_runs ensures_tell
  ensures_tell_bind ensures_throw ensures_throw_bind ensures_get_bind ensures_ask_bind)

/-! ## Serving What Still Waits -/

/-- Some places have been served. An item holds the object of the node that it has waited for, if that
node has been met. -/
structure Served (rows : List (String × List Place)) (s : Loading P) (H : Account) (s' : Loading P)
    (H' : Account) : Prop where
  writes : Writes (fun p => ∃ row ∈ rows, p ∈ row.2) s H s' H'
  target : ∀ row ∈ rows, ∀ a i, .item a i ∈ row.2 → ∀ target, s.built.lookup row.1 = some target →
    s'.heap.at? (.item a i) = some (.object target)

/-- What is asked for when places are served: items can be written, and wait for one node each. -/
structure Pending (rows : List (String × List Place)) (s : Loading P) : Prop where
  holds : ∀ row ∈ rows, ∀ a i, .item a i ∈ row.2 → s.heap.at? (.item a i) ≠ none
  single : ∀ row ∈ rows, ∀ other ∈ rows, ∀ a i, .item a i ∈ row.2 → .item a i ∈ other.2 →
    row.1 = other.1

section

variable {r : Realm P} {s s₁ s' : Loading P} {H H₁ H' : Account} {id : String}
  {places : List Place} {rows : List (String × List Place)} {p : Place}

theorem ensures_settleRow (id : String) (places : List Place) :
    Ensures (Pending [(id, places)] s) (Told.settleRow id places) s H fun _ s' H' =>
      Served [(id, places)] s H s' H' := by
  apply ensures_get_bind
  cases hlookup : s.built.lookup id with
  | some target =>
    refine (ensures_settleEach target ?_).imp (fun _ hpre => hpre) ?_
    · exact fun hpending a i hi => hpending.holds _ List.mem_cons_self a i hi
    · intro _ s' H' _ _ hserves
      refine ⟨hserves.writes.imp fun p hp => ⟨_, List.mem_cons_self, hp⟩, ?_⟩
      rintro row hrow a i hi found hfound
      obtain rfl := List.mem_singleton.1 hrow
      obtain rfl := Option.some.inj (hlookup.symm.trans hfound)
      exact hserves.target a i hi
  | none =>
    apply ensures_silently
    intro _ s' hrun hbound
    have hsame : s' = s := by
      obtain ⟨strict, s₁, hask, hlast⟩ := Realm.exists_of_run_bind hrun
      obtain ⟨-, rfl⟩ := Prod.mk.inj hask
      cases strict with
      | true => exact nomatch (Prod.mk.inj hlast).1
      | false => exact (Prod.mk.inj hlast).2.symm
    subst hsame
    refine ⟨hbound, fun _ => ⟨.refl _ _ _, ?_⟩⟩
    rintro row hrow a i - found hfound
    obtain rfl := List.mem_singleton.1 hrow
    rw [hlookup] at hfound
    cases hfound

theorem Pending.next (hs : Pending ((id, places) :: rows) s)
    (hserved : Served [(id, places)] s H s₁ H₁) (hid : id ∉ rows.map Prod.fst) :
    Pending rows s₁ := by
  refine ⟨fun row hrow a i hi => ?_, fun row hrow other hother =>
    hs.single row (List.mem_cons_of_mem _ hrow) other (List.mem_cons_of_mem _ hother)⟩
  rw [hserved.writes.item a i]
  · exact hs.holds row (List.mem_cons_of_mem _ hrow) a i hi
  -- an item that waits for another node has not been served so far
  · rintro ⟨first, hfirst, hi'⟩
    obtain rfl := List.mem_singleton.1 hfirst
    have hsame := hs.single _ List.mem_cons_self row (List.mem_cons_of_mem _ hrow) a i hi' hi
    exact hid (List.mem_map.2 ⟨row, hrow, hsame.symm⟩)

theorem Served.cons (hfirst : Served [(id, places)] s H s₁ H₁) (hrest : Served rows s₁ H₁ s' H')
    (hs : Pending ((id, places) :: rows) s) (hid : id ∉ rows.map Prod.fst) :
    Served ((id, places) :: rows) s H s' H' := by
  refine ⟨(hfirst.writes.imp ?_).trans (hrest.writes.imp ?_), ?_⟩
  · rintro p ⟨row, hrow, hp⟩
    exact ⟨row, List.mem_cons.2 (Or.inl (List.mem_singleton.1 hrow)), hp⟩
  · rintro p ⟨row, hrow, hp⟩
    exact ⟨row, List.mem_cons_of_mem _ hrow, hp⟩
  · intro row hrow a i hi target hlookup
    rcases List.mem_cons.1 hrow with rfl | hlater
    · rw [hrest.writes.item a i]
      · exact hfirst.target _ List.mem_cons_self a i hi target hlookup
      · rintro ⟨other, hother, hi'⟩
        have hsame := hs.single _ hrow other (List.mem_cons_of_mem _ hother) a i hi hi'
        exact hid (List.mem_map.2 ⟨other, hother, hsame.symm⟩)
    · rw [← hfirst.writes.built] at hlookup
      exact hrest.target row hlater a i hi target hlookup

theorem ensures_settleRows (hnodup : (rows.map Prod.fst).Nodup) :
    Ensures (Pending rows s) (rows.forM fun row => Told.settleRow row.1 row.2) s H fun _ s' H' =>
      Served rows s H s' H' := by
  induction rows generalizing s H with
  | nil =>
    refine ensures_pure fun _ => ⟨.refl _ _ _, ?_⟩
    intro row hrow
    simp at hrow
  | cons row rows ih =>
    obtain ⟨id, places⟩ := row
    obtain ⟨hid, hnodup⟩ := List.nodup_cons.1 hnodup
    refine Ensures.bind ((ensures_settleRow id places).given ?_) fun _ s₁ H₁ =>
      (ih hnodup).imp ?_ ?_
    · intro _ hs
      refine ⟨fun row hrow => ?_, fun row hrow other hother _ _ _ _ => ?_⟩
      · obtain rfl := List.mem_singleton.1 hrow
        exact hs.holds _ List.mem_cons_self
      · rw [List.mem_singleton.1 hrow, List.mem_singleton.1 hother]
    · exact fun _ ⟨hs, hserved⟩ => hs.next hserved hid
    · exact fun _ _ _ _ ⟨hs, hserved⟩ hrest => hserved.cons hrest hs hid

theorem mem_waitingFor_iff :
    p ∈ s.waitingFor id ↔ ∃ places, (id, places) ∈ s.waiting.entries ∧ p ∈ places := by
  unfold waitingFor
  simp only [← Table.find?_eq_some_iff]
  cases s.waiting.find? id <;> simp

theorem Agrees.pending (hs : Agrees r s H) : Pending s.waiting.entries s where
  holds row hrow a i hi := by
    rw [hs.null a i ⟨row.1, mem_waitingFor_iff.2 ⟨row.2, hrow, hi⟩⟩]
    exact Option.some_ne_none _
  single row hrow other hother a i hi hi' :=
    hs.single a i row.1 other.1 (mem_waitingFor_iff.2 ⟨row.2, hrow, hi⟩)
      (mem_waitingFor_iff.2 ⟨other.2, hother, hi'⟩)

theorem ensures_settleAll :
    Ensures (Agrees r s H) Told.settleAll s H fun _ s' H' =>
      Served s.waiting.entries { s with waiting := .empty } H s' H' := by
  refine ensures_get_bind (Ensures.bind (ensures_silently_of_runs (Q := fun _ s₁ H₁ =>
    s₁ = { s with waiting := .empty } ∧ H₁ = H) (runs_modify _) (fun hbound => hbound)
    fun _ _ => ⟨rfl, rfl⟩) fun _ s₁ H₁ => (ensures_settleRows s.waiting.nodup).imp ?_ ?_)
  · rintro - ⟨hs, rfl, -⟩
    exact ⟨hs.pending.holds, hs.pending.single⟩
  · rintro _ s' H' - ⟨hs, rfl, rfl⟩ hserved
    exact hserved

end

/-! ## Writing Again -/

/-- Some properties have been written again, the last of them with what it is going to see in the
end. -/
structure Renewed (b : Loading P) (rows : List (Handle × String × Handle)) (s : Loading P)
    (H : Account) (s' : Loading P) (H' : Account) : Prop where
  writes : Writes (fun p => ∃ h n a, p = .property h n ∧ (h, n, a) ∈ rows) s H s' H'
  items : ∀ k, s'.heap.items? k = s.heap.items? k
  handed : ∀ h n a, (h, n, a) ∈ rows → ∃ other, (h, n, other) ∈ rows ∧
    H'.lastHanded h n = some (b.realm.expand (.object other))

section

variable {b s s' : Loading P} {H H' : Account} {rows : List (Handle × String × Handle)}

theorem ensures_renewRows :
    Ensures (b.heap.Slotted ∧ ∀ k, s.heap.items? k = b.heap.items? k)
      (rows.forM fun row => Told.hand row.1 row.2.1 (.object row.2.2)
        (write row.1 row.2.1 (.object row.2.2))) s H fun _ s' H' => Renewed b rows s H s' H' := by
  induction rows generalizing s H with
  | nil => exact ensures_pure fun _ => ⟨.refl _ _ _, fun _ => rfl, fun _ _ _ h => by simp at h⟩
  | cons row rows ih =>
    obtain ⟨h, n, a⟩ := row
    have hitems : ∀ k, (after (Realm.putProperty h n (.object a) true) s.realm).heap.items? k =
        s.realm.heap.items? k := by
      intro k
      refine (Realm.items?_putProperty rfl n true k).resolve_right ?_
      rintro ⟨-, hlength, -⟩
      exact hlength (Realm.noLength_object a)
    refine Ensures.bind (ensures_hand fun _ => state_of_write) fun _ s₁ H₁ => ih.imp ?_ ?_
    · rintro - ⟨⟨hslotted, hsame⟩, rfl, -⟩
      exact ⟨hslotted, fun k => (hitems k).trans (hsame k)⟩
    · rintro _ s' H' - ⟨⟨hslotted, hsame⟩, rfl, rfl⟩ hrest
      have hexpand : s.realm.expand (.object a) = b.realm.expand (.object a) :=
        expand_congr hslotted rfl fun _ _ k _ => hsame k
      refine ⟨Writes.trans (writes_hand rfl ⟨h, n, a, rfl, List.mem_cons_self⟩
        (Or.inl (Realm.noLength_object a))) (hrest.writes.imp ?_), fun k =>
          (hrest.items k).trans (hitems k), fun k m c hmem => ?_⟩
      · rintro p ⟨k, m, c, hp, hmem⟩
        exact ⟨k, m, c, hp, List.mem_cons_of_mem _ hmem⟩
      · by_cases hlater : ∃ other, (k, m, other) ∈ rows
        · obtain ⟨other, hother⟩ := hlater
          obtain ⟨last, hlast, hhanded⟩ := hrest.handed k m other hother
          exact ⟨last, List.mem_cons_of_mem _ hlast, hhanded⟩
        -- no later row is about the same property
        · rcases List.mem_cons.1 hmem with heq | hmem
          · cases heq
            refine ⟨a, List.mem_cons_self, ?_⟩
            rw [hrest.writes.handed h n, Account.lastHanded_handed, if_pos ⟨rfl, rfl⟩, hexpand]
            rintro ⟨k, m, c, hp, hmem⟩
            cases hp
            exact hlater ⟨c, hmem⟩
          · exact absurd ⟨c, hmem⟩ hlater

theorem ensures_renewAll :
    Ensures s.heap.Slotted Told.renewAll s H fun _ s' H' =>
      Renewed s s.renewals { s with renewals := [] } H s' H' := by
  refine ensures_get_bind (Ensures.bind (ensures_silently_of_runs (Q := fun _ s₁ H₁ =>
    s₁ = { s with renewals := [] } ∧ H₁ = H) (runs_modify _) (fun hbound => hbound)
    fun _ _ => ⟨rfl, rfl⟩) fun _ s₁ H₁ => (ensures_renewRows (b := s)).imp ?_ ?_)
  · rintro - ⟨hslotted, rfl, -⟩
    exact ⟨hslotted, fun _ => rfl⟩
  · rintro _ s' H' - ⟨-, rfl, rfl⟩ hrenewed
    exact hrenewed

end

/-! ## What Setters See in the End -/

/-- One array has been built for an entry of an object, and its property has seen it as it is in the
end. -/
def Shows (b : Loading P) (H : Account) (h : Handle) (key : String) : Prop :=
  ∃ a, (∀ other, .built h key other ∈ H ↔ other = a) ∧
    H.lastHanded h key = some (b.realm.expand (.object a))

/-- Of each node that has been read into a new object, all entries that are arrays and share their
properties with no other entry have been shown. -/
def Shown (b : Loading P) (H : Account) : Prop :=
  ∀ h node, .filled h node ∈ H → ∀ key items, (key, .array items) ∈ node.entries.entries →
    Alone node.entries.entries key → Shows b H h key

/-- Each item that has had to wait for a node that has been met holds an object of the node. -/
def Delivered (b : Loading P) (H : Account) : Prop :=
  ∀ id a i, .deferred id a i ∈ H → (b.built.lookup id).isSome →
    ∃ target, (id, target) ∈ b.built ∧ b.heap.at? (.item a i) = some (.object target)

section

variable {r : Realm P} {s s₁ s' : Loading P} {H H₁ H' : Account} {snapshot : Snapshot}

theorem agrees_start (hr : r.Sound) : Agrees r (start r) [] where
  registry := rfl
  singletons := rfl
  wellFormed := hr.wellFormed
  slotted := hr.slotted
  before _ hk := ⟨hk, rfl⟩
  waits := nofun
  null := nofun
  single := nofun
  renewals := nofun
  built := nofun
  deferred := nofun

/-- The last two parts of a load, after a graph has been read. -/
structure Closes (r : Realm P) (s : Loading P) (H : Account) (s₁ : Loading P) (H₁ : Account)
    (s' : Loading P) (H' : Account) : Prop where
  agrees : Agrees r s H
  proceeds : Proceeds r (fun _ => False) (start r) [] s H
  served : Served s.waiting.entries { s with waiting := .empty } H s₁ H₁
  bounded : s₁.Bounded
  renewed : Renewed s₁ s₁.renewals { s₁ with renewals := [] } H₁ s' H'

theorem Closes.told (he : Closes r s H s₁ H₁ s' H') {event : Event}
    (hevent : ∀ h n v, event ≠ .handed h n v) : event ∈ H' ↔ event ∈ H :=
  (he.renewed.writes.told event hevent).trans (he.served.writes.told event hevent)

theorem not_mem_waiting {p : Place} (hp : ¬ s.Awaits p) :
    ¬ ∃ row ∈ s.waiting.entries, p ∈ row.2 := by
  rintro ⟨row, hrow, hmem⟩
  exact hp ⟨row.1, mem_waitingFor_iff.2 ⟨row.2, hrow, hmem⟩⟩

theorem Served.slotted (hs : Agrees r s H)
    (hserved : Served s.waiting.entries { s with waiting := .empty } H s₁ H₁) (hbound : s₁.Bounded) :
    s₁.heap.Slotted :=
  (hserved.writes.evolves.heap.sound hs.wellFormed hs.slotted hbound).2

/-- Writing again changes no items. -/
theorem Closes.expand_eq (he : Closes r s H s₁ H₁ s' H') (a : Handle) :
    s'.realm.expand (.object a) = s₁.realm.expand (.object a) :=
  expand_congr (he.served.slotted he.agrees he.bounded) rfl fun _ _ k _ => he.renewed.items k

/-- What is whole is not changed by serving what still waits. -/
theorem Closes.expand_of_whole (he : Closes r s H s₁ H₁ s' H') {a : Handle}
    (hwhole : Whole r (start r) s (.object a)) :
    s₁.realm.expand (.object a) = s.realm.expand (.object a) := by
  apply expand_congr he.agrees.slotted rfl
  intro b hb k hk
  obtain ⟨hissued, hwaits, -⟩ := hwhole b hb k hk
  have hnature : s₁.heap.nature? k = s.heap.nature? k :=
    nature?_of_issued he.served.writes.alters.heap he.agrees.wellFormed he.bounded hissued
  exact Heap.items?_congr hnature fun i => he.served.writes.item k i (not_mem_waiting (hwaits i))

theorem Closes.shown (he : Closes r s H s₁ H₁ s' H') : Shown s' H' := by
  intro h node hfilled key items hentry halone
  have hrenewals : s₁.renewals = s.renewals := he.served.writes.renewals
  have hread := (he.told fun _ _ _ => Event.noConfusion).1 hfilled
  obtain ⟨a, hres⟩ := ((he.proceeds.filled h node hread).resolve_left List.not_mem_nil).resolved key
    items hentry halone
  refine ⟨a, fun other => (he.told fun _ _ _ => Event.noConfusion).trans (hres.built other), ?_⟩
  rw [he.expand_eq]
  by_cases hagain : (h, key, a) ∈ s.renewals
  · obtain ⟨other, hother, hhanded⟩ := he.renewed.handed h key a (hrenewals ▸ hagain)
    rw [hhanded, hres.renewals other (hrenewals ▸ hother)]
  -- a property that is not written again has not waited, and what it was handed is whole
  · rw [he.expand_of_whole (hres.whole.resolve_left hagain), he.renewed.writes.handed h key,
      he.served.writes.handed h key (not_mem_waiting hres.settled)]
    · exact hres.handed.resolve_left hagain
    · rintro ⟨k, n, other, hp, hmem⟩
      cases hp
      rw [hrenewals] at hmem
      exact hagain (hres.renewals other hmem ▸ hmem)

theorem Closes.delivered (he : Closes r s H s₁ H₁ s' H') : Delivered s' H' := by
  intro id a i hdeferred hmet
  have hbuilt : s'.built = s.built := he.renewed.writes.built.trans he.served.writes.built
  have hat : s'.heap.at? (.item a i) = s₁.heap.at? (.item a i) := by
    rw [Heap.at?_item, Heap.at?_item, he.renewed.items a]
    rfl
  rw [hbuilt] at hmet ⊢
  rw [hat]
  rcases he.agrees.deferred id a i ((he.told fun _ _ _ => Event.noConfusion).1 hdeferred) with
    hwaits | ⟨target, htarget, hholds⟩
  · obtain ⟨target, hlookup⟩ := Option.isSome_iff_exists.1 hmet
    obtain ⟨places, hplaces, hi⟩ := mem_waitingFor_iff.1 hwaits
    obtain ⟨later, before, hsplit, -⟩ := List.lookup_eq_some_iff.1 hlookup
    refine ⟨target, ?_, he.served.target _ hplaces a i hi target hlookup⟩
    rw [hsplit]
    exact List.mem_append_right _ List.mem_cons_self
  · refine ⟨target, htarget, ?_⟩
    rw [he.served.writes.item a i]
    · exact hholds
    · apply not_mem_waiting
      intro hi
      rw [he.agrees.null a i hi] at hholds
      cases hholds

theorem ensures_build (hr : r.Sound) (hgrounded : Grounded r snapshot snapshot.root) :
    Ensures True (Told.build snapshot) (start r) [] fun _ b H => Shown b H ∧ Delivered b H := by
  apply ensures_ask_bind
  refine Ensures.bind ((readsWhole_read r snapshot _ snapshot.root (start r) []).given fun _ _ =>
    ⟨hgrounded, agrees_start hr⟩) fun root s H => ?_
  refine Ensures.bind (Q := fun _ s₁ H₁ => s₁.Bounded ∧
    Served s.waiting.entries { s with waiting := .empty } H s₁ H₁)
    (ensures_settleAll.imp (fun _ hpre => hpre.2.agrees) fun _ _ _ hbound _ hserved =>
      ⟨hbound, hserved⟩) fun _ s₁ H₁ => ?_
  refine Ensures.bind (ensures_renewAll.given fun _ ⟨⟨_, hread⟩, hbound, hserved⟩ =>
    hserved.slotted hread.agrees hbound) fun _ s' H' => ensures_pure ?_
  rintro ⟨⟨⟨-, hread⟩, hbound, hserved⟩, hrenewed⟩
  have hcloses : Closes r s H s₁ H₁ s' H' :=
    ⟨hread.agrees, hread.proceeds, hserved, hbound, hrenewed⟩
  exact ⟨hcloses.shown, hcloses.delivered⟩

end

/-! ## The Account of a Load -/

/-- What is told while the graph of a snapshot is built. -/
def account (snapshot : Snapshot) (r : Realm P) : Account :=
  match Realm.answer ((Told.build snapshot).run []) (start r) with
  | .ok (_, H) => H
  | .error _ => []

section

variable {r : Realm P} {snapshot : Snapshot} {entry : Entry}

/-- Where no live object stands among what is read, nothing is taken over from an empty row of
singletons. -/
theorem grounded_of_lifeless (hlive : snapshot.holdsLiveObjects = false) (hr : r.singletons = []) :
    Grounded r snapshot snapshot.root := by
  have hroot : snapshot.root.isLive = false := (Bool.or_eq_false_iff.1 hlive).1
  have hinside : ∀ {entry inner : Entry}, entry.isLive = false → Enters r snapshot entry inner →
      inner.isLive = false := by
    intro entry inner hentry henters
    cases henters with
    | item hmem => exact Snapshot.Entry.isLive_of_mem hentry hmem
    | member hnode _ hmem => exact Snapshot.isLive_of_entry hlive hnode hmem
  have hwalk : ∀ {n : Nat} {entry last : Entry}, WalksTo r snapshot n entry last →
      entry.isLive = false → last.isLive = false := by
    intro n entry last hwalk
    induction hwalk with
    | here => exact id
    | inside henters _ ih => exact fun hentry => ih (hinside hentry henters)
  intro h hborrows
  cases hborrows with
  | reference hreaches => exact nomatch hwalk hreaches hroot
  | singleton _ _ _ hsingleton =>
    obtain ⟨c, -, hlookup⟩ := Option.bind_eq_some_iff.1 hsingleton
    rw [hr] at hlookup
    cases hlookup

theorem exists_told_build {root : Value} {b : Loading P}
    (hrun : Runs (build snapshot) (start r) root b) :
    Runs ((Told.build snapshot).run []) (start r) (root, account snapshot r) b := by
  have htells : Prod.fst <$> (Told.build snapshot).run [] = build snapshot (P := P) :=
    Told.tells_build snapshot []
  rw [← htells, map_eq_pure_bind] at hrun
  obtain ⟨⟨answer, H⟩, s, htold, hrest⟩ := Realm.exists_of_run_bind hrun
  obtain ⟨hanswer, rfl⟩ := Prod.mk.inj hrest
  obtain rfl : answer = root := Except.ok.inj hanswer
  have haccount : account snapshot r = H := by
    unfold account Realm.answer
    rw [htold]
  rw [haccount]
  exact htold

/-- **Setters see resolved arrays.** When the graph of a snapshot has been built, the last value that
has been handed to the property of an entry that is an array, and that shares the property with no
other entry, is the one array that has been built for it as it is in the end, with the items of arrays
inside of it; and no item is null any more that has had to wait for a node that has been met. For this,
what is taken over from the realm must not lead to handles that the load gives out itself. -/
theorem setters_see_resolved_arrays (hr : r.Sound) (hgrounded : Grounded r snapshot snapshot.root)
    {root : Value} {b : Loading P} (hrun : Runs (build snapshot) (start r) root b)
    (hbound : b.Bounded) :
    Shown b (account snapshot r) ∧ Delivered b (account snapshot r) := by
  exact (ensures_build hr hgrounded root b _ (exists_told_build hrun) hbound).2 trivial

end

/-! ## Setters That See Something Else -/

theorem reachable_ofWidget : ofWidget.realm.Reachable := by
  have hcapacity : ofWidget.realm.heap.capacity = 1 := by cbv
  exact ⟨.withWidget, .standard, Scenario.Stage.empty, Registry.declared_withWidget, .refl,
    by rw [hcapacity]; decide⟩

/-- A node whose early property waits for the object of its late one, inside of an inner array. -/
def expecting : Node :=
  ⟨some "Widget", none, ⟨[("size", .array [.array [.stub "1"]]), ("tail", .node 1)], by decide⟩⟩

def ofExpecting : Snapshot := ⟨#[expecting, ⟨none, some "1", .empty⟩], .node 0⟩

/-- The setter of the early property sees null at first, and in the end the object. -/
theorem setters_see_resolved_expecting :
    ofWidget.realm.Sound ∧ Grounded ofWidget.realm ofExpecting ofExpecting.root ∧
    Runs (build ofExpecting) (start ofWidget.realm) (.object ⟨1, 0⟩) (after (build ofExpecting) ofWidget) ∧
    (after (build ofExpecting) ofWidget).Bounded ∧
    .filled ⟨1, 0⟩ expecting ∈ account ofExpecting ofWidget.realm ∧
    (account ofExpecting ofWidget.realm).lastHanded ⟨1, 0⟩ "size" =
      some (.array (some ⟨2, 0⟩) [.array (some ⟨3, 0⟩) [.object ⟨4, 0⟩]]) ∧
    Shown (after (build ofExpecting) ofWidget) (account ofExpecting ofWidget.realm) ∧
    Delivered (after (build ofExpecting) ofWidget) (account ofExpecting ofWidget.realm) := by
  have hgrounded : Grounded ofWidget.realm ofExpecting ofExpecting.root :=
    grounded_of_lifeless (by cbv) (by cbv)
  have hanswer : Realm.answer (build ofExpecting) ofWidget = .ok (.object ⟨1, 0⟩) := by cbv
  have hrun : Runs (build ofExpecting) (start ofWidget.realm) (.object ⟨1, 0⟩)
      (after (build ofExpecting) ofWidget) := Realm.run_of_answer hanswer
  have hcapacity : (after (build ofExpecting) ofWidget).heap.capacity = 5 := by cbv
  have hbound : (after (build ofExpecting) ofWidget).Bounded := by
    unfold Bounded
    rw [hcapacity]
    decide
  have hfilled : .filled ⟨1, 0⟩ expecting ∈ account ofExpecting ofWidget.realm := by
    have haccount : (account ofExpecting ofWidget.realm)[1]? = some (.filled ⟨1, 0⟩ expecting) := by cbv
    exact List.mem_of_getElem? haccount
  exact ⟨reachable_ofWidget.sound, hgrounded, hrun, hbound, hfilled, by cbv,
    setters_see_resolved_arrays reachable_ofWidget.sound hgrounded hrun hbound⟩

/-- A node with an array and a function for the same property. -/
def twofold : Node :=
  ⟨some "Widget", none,
    ⟨[("size", .array [.int 1]), ("size()", .string "return 1")], by decide⟩⟩

/-- A node with an array that holds a live one, and with an empty array. -/
def borrowing : Node :=
  ⟨some "Widget", none, ⟨[("size", .array [.reference ⟨1, 0⟩]), ("tail", .array [])], by decide⟩⟩

/-- A realm with an array that holds a handle which has not been given out so far. -/
def ofForged : Loading Scenario.platform := start (ofWidget.realm.newArray [.object ⟨4, 0⟩]).2

theorem reachable_ofForged : ofForged.realm.Reachable := by
  have hcapacity : ofForged.realm.heap.capacity = 2 := by cbv
  exact ⟨.withWidget, .standard, Scenario.Stage.empty, Registry.declared_withWidget,
    .single (.newArray [.object ⟨4, 0⟩] _), by rw [hcapacity]; decide⟩

theorem not_shows {b : Loading P} {H : Account} {h a : Handle} {key : String} {v : Value}
    (hbuilt : .built h key a ∈ H) (hhanded : H.lastHanded h key = some v)
    (hne : b.realm.expand (.object a) ≠ v) : ¬ Shows b H h key := by
  rintro ⟨other, hother, hlast⟩
  obtain rfl := (hother a).1 hbuilt
  exact hne (Option.some.inj (hlast.symm.trans hhanded))

/-- What is handed to a property last is not the array of an entry, if there is a function for the same
property; nor is it the array as it is in the end, if a live array holds a handle that the load is
going to give out. -/
theorem handed_last_otherwise :
    (ofWidget.realm.Reachable ∧
      Realm.answer (build ⟨#[twofold], .node 0⟩) ofWidget = .ok (.object ⟨1, 0⟩) ∧
      .filled ⟨1, 0⟩ twofold ∈ account ⟨#[twofold], .node 0⟩ ofWidget.realm ∧
      ("size", .array [.int 1]) ∈ twofold.entries.entries ∧
      ¬ Shows (after (build ⟨#[twofold], .node 0⟩) ofWidget)
        (account ⟨#[twofold], .node 0⟩ ofWidget.realm) ⟨1, 0⟩ "size") ∧
    (ofForged.realm.Reachable ∧
      Realm.answer (build ⟨#[borrowing], .node 0⟩) ofForged = .ok (.object ⟨2, 0⟩) ∧
      .filled ⟨2, 0⟩ borrowing ∈ account ⟨#[borrowing], .node 0⟩ ofForged.realm ∧
      ("size", .array [.reference ⟨1, 0⟩]) ∈ borrowing.entries.entries ∧
      Alone borrowing.entries.entries "size" ∧
      ¬ Shows (after (build ⟨#[borrowing], .node 0⟩) ofForged)
        (account ⟨#[borrowing], .node 0⟩ ofForged.realm) ⟨2, 0⟩ "size") := by
  constructor
  · have hfilled : (account ⟨#[twofold], .node 0⟩ ofWidget.realm)[0]? =
        some (.filled ⟨1, 0⟩ twofold) := by cbv
    have hbuilt : (account ⟨#[twofold], .node 0⟩ ofWidget.realm)[3]? =
        some (.built ⟨1, 0⟩ "size" ⟨2, 0⟩) := by cbv
    have hhanded : (account ⟨#[twofold], .node 0⟩ ofWidget.realm).lastHanded ⟨1, 0⟩ "size" =
        some (.function ⟨3, 0⟩) := by cbv
    have hexpand : (after (build ⟨#[twofold], .node 0⟩) ofWidget).realm.expand (.object ⟨2, 0⟩) =
        .array (some ⟨2, 0⟩) [.int 1] := by cbv
    refine ⟨reachable_ofWidget, by cbv, List.mem_of_getElem? hfilled, List.mem_cons_self,
      not_shows (List.mem_of_getElem? hbuilt) hhanded ?_⟩
    rw [hexpand]
    intro heq
    cases heq
  · have hfilled : (account ⟨#[borrowing], .node 0⟩ ofForged.realm)[0]? =
        some (.filled ⟨2, 0⟩ borrowing) := by cbv
    have hbuilt : (account ⟨#[borrowing], .node 0⟩ ofForged.realm)[4]? =
        some (.built ⟨2, 0⟩ "size" ⟨3, 0⟩) := by cbv
    have hhanded : (account ⟨#[borrowing], .node 0⟩ ofForged.realm).lastHanded ⟨2, 0⟩ "size" =
        some (.array (some ⟨3, 0⟩) [.array (some ⟨1, 0⟩) [.object ⟨4, 0⟩]]) := by cbv
    have hexpand : (after (build ⟨#[borrowing], .node 0⟩) ofForged).realm.expand (.object ⟨3, 0⟩) =
        .array (some ⟨3, 0⟩) [.array (some ⟨1, 0⟩) [.array (some ⟨4, 0⟩) []]] := by cbv
    refine ⟨reachable_ofForged, by cbv, List.mem_of_getElem? hfilled, List.mem_cons_self, ?_,
      not_shows (List.mem_of_getElem? hbuilt) hhanded ?_⟩
    · intro e he hname
      rcases List.mem_cons.1 he with rfl | he
      · rfl
      · obtain rfl := List.mem_singleton.1 he
        exact absurd hname (by decide)
    · rw [hexpand]
      intro heq
      cases heq

end Loading

end ScriptBridge
