import ScriptBridge.Proofs.Snapshot.Handing

/-!
# Reading Live Objects

Reading an entry hands nothing to the properties of objects that were there before, unless something
is still noted for them. So when the entries of a node have been written, a property to which one
entry with a live object is written has been handed this object, and nothing is handed to it any more
until the load is over. And no node is passed over: wherever one stands inside of what is read, its
entries are written to an object of its own.

Main statements: `ensures_stored` (one entry), `ensures_supplied_rebuildNode` (one node) and
`supplied_build`.
-/

namespace ScriptBridge

open Realm (after)

variable {P : Platform}

namespace Loading

open Snapshot (Entry Node fieldName functionOf?)
open Told (Ensures ensures_pure ensures_silently ensures_silently_of_runs ensures_tell_bind
  ensures_throw ensures_throw_bind ensures_get_bind ensures_ask_bind)

/-! ## Reading -/

/-- What has been read for an entry. -/
structure Supplied (r : Realm P) (snapshot : Snapshot) (entry : Entry) (s : Loading P) (H : Account)
    (v : Value) (s' : Loading P) (H' : Account) : Prop where
  keeps : KeepsAll r snapshot s H s' H'
  inline : v.isInline = false
  covered : Covered r snapshot entry H'
  reference : ∀ k, entry = .reference k → r.resolves k = true → v = .object k
  node : ∀ i node, entry = .node i → snapshot.nodes[i]? = some node →
    singletonName? r node = none → ∃ h, v = .object h ∧ .filled h node ∈ H'

/-- Whatever is read for an entry leaves alone what has been handed. -/
def Supplies (r : Realm P) (snapshot : Snapshot) (inner : Told.Inner P) : Prop :=
  ∀ entry s H, Ensures (Tidy r s) (inner entry) s H (Supplied r snapshot entry s H)

/-- An entry has been read, or something waits in its place. -/
structure Readied (r : Realm P) (snapshot : Snapshot) (h : Handle) (key : String) (entry : Entry)
    (s : Loading P) (H : Account) (v : Value) (s' : Loading P) (H' : Account) : Prop where
  keeps : Keeps r snapshot (fun k n => k = h ∧ n = fieldName (key, entry)) s H s' H'
  inline : v.isInline = false
  covered : Covered r snapshot entry H'
  reference : ∀ k, entry = .reference k → r.resolves k = true →
    v = .object k ∧ (s.AtRest h key → s'.AtRest h key)

/-- An entry has been written, and its live object has been handed over. -/
structure Stored (r : Realm P) (snapshot : Snapshot) (h : Handle) (key : String) (entry : Entry)
    (s : Loading P) (H : Account) (s' : Loading P) (H' : Account) : Prop where
  keeps : Keeps r snapshot (fun k n => k = h ∧ n = fieldName (key, entry)) s H s' H'
  covered : Covered r snapshot entry H'
  lent : ∀ k, entry = .reference k → r.resolves k = true → s.AtRest h key → Lent r s' H' h key k

section

variable {r : Realm P} {snapshot : Snapshot} {s s₁ s' : Loading P} {H H₁ H' : Account} {h : Handle}
  {key : String} {v : Value} {entry : Entry} {inner : Told.Inner P}

/-- What has been read for an entry is at hand. -/
theorem Supplied.readied (hread : Supplied r snapshot entry s H v s' H') (hh : s.heap.Issued h)
    (key : String) : Readied r snapshot h key entry s H v s' H' where
  keeps := hread.keeps.widen fun _ _ heq => heq.1 ▸ hh
  inline := hread.inline
  covered := hread.covered
  reference k hentry hk :=
    ⟨hread.reference k hentry hk, hread.keeps.rest h key (fun hfalse => hfalse) hh⟩

/-- It is told of an array that has been read. -/
theorem Readied.tell (hs : Readied r snapshot h key entry s H v s' H') (a : Handle) :
    Readied r snapshot h key entry s H v s' (.built h key a :: H') where
  keeps := hs.keeps.tell nofun nofun
  inline := hs.inline
  covered := hs.covered.told fun _ => List.mem_cons_of_mem _
  reference := hs.reference

/-- The property of an array is noted, to be written again. -/
theorem Readied.noted {items : List Entry} (hs : Readied r snapshot h key (.array items) s H v s' H')
    (hh : s.heap.Issued h) (a : Handle) (hbound : s'.Bounded) :
    Readied r snapshot h key (.array items) s H v
      { s' with renewals := s'.renewals ++ [(h, key, a)] } H' := by
  have hnote : Keeps r snapshot (fun k n => k = h ∧ n = key) s' H'
      { s' with renewals := s'.renewals ++ [(h, key, a)] } H' := by
    refine hs.keeps.tidy.keeps ?_ .refl hbound (fun _ => Or.inl) (fun k n b hmem => ?_)
      (fun _ h => h) (fun _ _ _ => rfl) fun _ _ h => h
    · rintro k n ⟨rfl, rfl⟩
      exact hs.keeps.persists.issued k hh
    · refine (List.mem_append.1 hmem).imp id fun hlast => ?_
      obtain ⟨rfl, hrest⟩ := Prod.mk.inj (List.mem_singleton.1 hlast)
      exact ⟨rfl, (Prod.mk.inj hrest).1⟩
  exact ⟨hs.keeps.trans hnote, hs.inline, hs.covered, nofun⟩

theorem ensures_readied_readNoting (hinner : Supplies r snapshot inner) :
    Ensures (Tidy r s ∧ s.heap.Issued h) (Told.readNoting inner h key entry) s H
      (Readied r snapshot h key entry s H) := by
  refine ensures_get_bind (((hinner entry s H).given fun _ => And.left).bind fun v s₁ H₁ => ?_)
  have hother : Ensures ((Tidy r s ∧ s.heap.Issued h) ∧ Supplied r snapshot entry s H v s₁ H₁)
      (pure v : ToldM P Value) s₁ H₁ (Readied r snapshot h key entry s H) :=
    ensures_pure fun ⟨⟨_, hh⟩, hread⟩ => hread.readied hh key
  cases entry with
  | array items =>
    cases v with
    | object a =>
      refine ensures_tell_bind (ensures_get_bind ?_)
      dsimp only
      split
      -- some item has had to wait, so the property is going to be written again
      · refine Ensures.bind (ensures_silently_of_runs (Q := fun _ s₂ H₂ => s₁.Bounded ∧
          s₂ = { s₁ with renewals := s₁.renewals ++ [(h, key, a)] } ∧ H₂ = .built h key a :: H₁)
          (runs_modify _) (fun hbound => hbound) fun hbound _ => ⟨hbound, rfl, rfl⟩) fun _ s₂ H₂ =>
            ensures_pure ?_
        rintro ⟨⟨⟨-, hh⟩, hread⟩, hbound, rfl, rfl⟩
        exact ((hread.readied hh key).tell a).noted hh a hbound
      · exact ensures_pure fun ⟨⟨_, hh⟩, hread⟩ => (hread.readied hh key).tell a
    | _ => exact hother
  | _ => exact hother

theorem ensures_readied_prepare (hinner : Supplies r snapshot inner) :
    Ensures (Tidy r s ∧ s.heap.Issued h) (Told.prepare inner h key entry) s H
      (Readied r snapshot h key entry s H) := by
  unfold Told.prepare
  cases hfunction : functionOf? (key, entry) with
  | some function =>
    obtain ⟨name, source⟩ := function
    obtain ⟨_, heq, -⟩ := functionOf?_eq_some hfunction
    obtain ⟨-, rfl⟩ := Prod.mk.inj heq
    refine ensures_silently_of_runs ((runs_newFunction name (.script source)).bind (runs_pure _)) ?_
      fun hbound ⟨hs, hh⟩ => ?_
    · have halters : Realm.Freely s.realm
          (s.allocated (.ofForm (.function ⟨name, .script source⟩))).realm :=
        Realm.alters_allocate trivial s.realm
      exact fun hbound => Nat.le_trans halters.heap.capacity_le hbound
    · have hmade : KeepsAll r snapshot s H
          (s.allocated (.ofForm (.function ⟨name, .script source⟩))) H :=
        hs.keepsAll (.single (.function ⟨name, .script source⟩)) hbound (fun _ => Or.inl) fun _ h => h
      exact ⟨hmade.widen fun _ _ heq => heq.1 ▸ hh, rfl, covered_of_isLeaf rfl H, nofun⟩
  | none =>
    cases entry with
    | stub id =>
      refine ensures_silently_of_runs ((runs_await id (.property h key)).bind (runs_pure _))
        (fun hbound => hbound) fun hbound ⟨hs, hh⟩ => ?_
      have hwaiting : Keeps r snapshot (fun k n => Place.property h key = .property k n) s H
          (s.awaiting id (.property h key)) H := hs.awaiting hh hbound
      refine ⟨hwaiting.imp ?_ fun _ _ heq => heq.1 ▸ hh, rfl, covered_of_isLeaf rfl H, nofun⟩
      rintro k n heq
      obtain ⟨rfl, rfl⟩ := Place.property.inj heq
      exact ⟨rfl, rfl⟩
    | _ => exact ensures_readied_readNoting hinner

/-- What is at hand is written, and a live object is what the property is handed. -/
theorem Readied.stored (hs : Readied r snapshot h key entry s H v s₁ H₁) (hh : s.heap.Issued h)
    (hstate : s' = { s₁ with
      realm := after (Realm.putProperty h (fieldName (key, entry)) v true) s₁.realm })
    (haccount : H' = .handed h (fieldName (key, entry)) (s₁.realm.expand v) :: H₁)
    (hbound : s'.Bounded) : Stored r snapshot h key entry s H s' H' := by
  have hhand : Keeps r snapshot (fun k n => k = h ∧ n = fieldName (key, entry)) s₁ H₁ s' H' :=
    hs.keeps.tidy.hand (hs.keeps.persists.issued h hh) hs.inline hstate haccount hbound
  refine ⟨hs.keeps.trans hhand, hs.covered.told hhand.told, ?_⟩
  rintro k rfl hk hrest
  obtain ⟨rfl, hstill⟩ := hs.reference k rfl hk
  have hrest₁ := hstill hrest
  subst hstate haccount
  refine ⟨⟨hrest₁.waits, hrest₁.renewals⟩, _, ?_, hs.keeps.tidy.since.presents hk⟩
  rw [Account.lastHanded_handed]
  exact if_pos ⟨rfl, rfl⟩

theorem ensures_stored (hinner : Supplies r snapshot inner) :
    Ensures (Tidy r s ∧ s.heap.Issued h) (Told.restoreEntry inner h key entry) s H
      fun _ s' H' => Stored r snapshot h key entry s H s' H' := by
  refine Ensures.bind (ensures_readied_prepare hinner) fun v s₁ H₁ => ?_
  refine (ensures_hand fun _ => state_of_writeFirst).imp (fun _ h => h) ?_
  rintro _ s' H' hbound ⟨⟨-, hh⟩, hs⟩ ⟨hstate, haccount⟩
  exact hs.stored hh hstate haccount hbound

end

/-! ## Reading Nodes -/

/-- Some entries of a node are going to be written to its object, on which nothing is under way. -/
structure Fresh (r : Realm P) (s : Loading P) (h : Handle) (all entries : List (String × Entry)) :
    Prop where
  tidy : Tidy r s
  issued : s.heap.Issued h
  rest : ∀ key k, (key, .reference k) ∈ entries → Alone all key → s.AtRest h key

/-- Some entries of a node have been written. -/
structure Stocked (r : Realm P) (snapshot : Snapshot) (all entries : List (String × Entry))
    (h : Handle) (s : Loading P) (H : Account) (s' : Loading P) (H' : Account) : Prop where
  keeps : Keeps r snapshot (fun k n => k = h ∧ Names entries n) s H s' H'
  covered : ∀ e ∈ entries, Covered r snapshot e.2 H'
  lent : ∀ key k, (key, .reference k) ∈ entries → Alone all key → r.resolves k = true →
    Lent r s' H' h key k

/-- An object of a class has been made, and nothing is under way on it. -/
structure Begun (r : Realm P) (snapshot : Snapshot) (s : Loading P) (H : Account) (c : ClassNumber)
    (h : Handle) (s' : Loading P) (H' : Account) : Prop where
  keeps : KeepsAll r snapshot s H s' H'
  same : H' = H
  fresh : ¬ s.heap.Issued h
  nature : s'.heap.nature? h = some (ScriptObject.ofForm (s.realm.freshForm c)).nature
  rest : ∀ n, s'.AtRest h n

section

variable {r : Realm P} {snapshot : Snapshot} {s s₁ s' : Loading P} {H H₁ H' : Account}
  {h a : Handle} {key : String} {entry : Entry} {node : Node} {all entries : List (String × Entry)}
  {inner : Told.Inner P} {pre : Prop} {c : ClassNumber}

theorem Fresh.next (hs : Fresh r s h all ((key, entry) :: entries))
    (hw : Stored r snapshot h key entry s H s₁ H₁) (hall : (key, entry) ∈ all)
    (hkey : key ∉ entries.map Prod.fst) : Fresh r s₁ h all entries where
  tidy := hw.keeps.tidy
  issued := hw.keeps.persists.issued h hs.issued
  rest m k hmem halone := by
    have hrest := hs.rest m k (List.mem_cons_of_mem _ hmem) halone
    refine hw.keeps.rest h m ?_ hs.issued hrest
    rintro ⟨-, hname⟩
    have hsame : key = m := halone (key, entry) hall hname.symm
    exact hkey (hsame ▸ List.mem_map_of_mem hmem)

/-- One entry has been written, then the others. -/
theorem Stored.stocked (hw : Stored r snapshot h key entry s H s₁ H₁)
    (hs : Fresh r s h all ((key, entry) :: entries))
    (hrest : Stocked r snapshot all entries h s₁ H₁ s' H') (hsub : ∀ e ∈ entries, e ∈ all)
    (hkey : key ∉ entries.map Prod.fst) :
    Stocked r snapshot all ((key, entry) :: entries) h s H s' H' where
  keeps := by
    have hfirst := hw.keeps.imp (Y := fun k n => k = h ∧ Names ((key, entry) :: entries) n)
      (fun k n ⟨hk, hn⟩ => ⟨hk, _, List.mem_cons_self, hn.symm⟩) fun k n heq => heq.1 ▸ hs.issued
    apply hfirst.trans
    apply hrest.keeps.imp
    · rintro k n ⟨hk, e, he, hn⟩
      exact ⟨hk, e, List.mem_cons_of_mem _ he, hn⟩
    · exact fun k n heq => heq.1 ▸ hw.keeps.persists.issued h hs.issued
  covered e he := by
    rcases List.mem_cons.1 he with rfl | he
    · exact hw.covered.told hrest.keeps.told
    · exact hrest.covered e he
  lent m k hmem halone hk := by
    rcases List.mem_cons.1 hmem with heq | hmem
    · obtain ⟨rfl, rfl⟩ := Prod.mk.inj heq
      have hlent := hw.lent k rfl hk (hs.rest m k List.mem_cons_self halone)
      refine hlent.keeps hrest.keeps ?_ (hw.keeps.persists.issued h hs.issued)
      exact fun hX => halone.not_names hsub hkey hX.2
    · exact hrest.lent m k hmem halone hk

theorem ensures_stocked (hinner : Supplies r snapshot inner) (hsub : ∀ e ∈ entries, e ∈ all)
    (hnodup : (entries.map Prod.fst).Nodup) :
    Ensures (Fresh r s h all entries)
      (entries.forM fun entry => Told.restoreEntry inner h entry.1 entry.2) s H fun _ s' H' =>
        Stocked r snapshot all entries h s H s' H' := by
  induction entries generalizing s H with
  | nil =>
    refine ensures_pure fun hs => ⟨?_, ?_, ?_⟩
    · exact (Keeps.refl hs.tidy H).widen fun _ _ heq => heq.1 ▸ hs.issued
    · exact fun e he => by cases he
    · exact fun m k hmem => by cases hmem
  | cons entry entries ih =>
    obtain ⟨key, entry⟩ := entry
    obtain ⟨hkey, hnodup⟩ := List.nodup_cons.1 hnodup
    have hsub' : ∀ e ∈ entries, e ∈ all := fun e he => hsub e (List.mem_cons_of_mem _ he)
    refine Ensures.bind ((ensures_stored hinner).given fun _ hs => ⟨hs.tidy, hs.issued⟩)
      fun _ s₁ H₁ => (ih hsub' hnodup).imp ?_ ?_
    · rintro - ⟨hs, hw⟩
      exact hs.next hw (hsub _ List.mem_cons_self) hkey
    · rintro _ s' H' - ⟨hs, hw⟩ hstocked
      exact hw.stocked hs hstocked hsub' hkey

/-- A new object, which nothing that is noted for later can belong to. -/
theorem Tidy.begun (hs : Tidy r s) (c : ClassNumber) (sleepers : List Handle)
    (hbound : (s.withNew c sleepers).Bounded) :
    Begun r snapshot s H c (s.realm.instantiate c).1 (s.withNew c sleepers) H := by
  have hkeeps : KeepsAll r snapshot s H (s.withNew c sleepers) H :=
    hs.keepsAll (.single (.make c)) hbound (fun _ => Or.inl) fun _ h => h
  have hfresh : ¬ s.heap.Issued (s.realm.instantiate c).1 := by
    obtain ⟨object, -, hh, hheap⟩ := (allocates_withNew s c sleepers).heap
    have hcapacity : (s.withNew c sleepers).heap.capacity ≤ UInt32.size := hbound
    rw [hheap] at hcapacity
    rw [hh]
    exact hs.wellFormed.not_issued_allocate
      (Heap.hasRoom_of_capacity_allocate hs.wellFormed hcapacity) object
  refine ⟨hkeeps, rfl, hfresh, nature?_instantiate hs.wellFormed hbound, fun n => ?_⟩
  refine ⟨fun hp => ?_, fun a hmem => ?_⟩
  · exact hfresh (hs.waits _ hp)
  · exact hfresh (hs.renewals _ _ _ hmem)

theorem ensures_begun (snapshot : Snapshot) (className : Option String) :
    Ensures (Tidy r s) (Told.silently (make className)) s H
      (Begun r snapshot s H (classFor s.realm className)) := by
  apply ensures_silently
  intro h s' hrun hbound
  obtain ⟨-, error, hfails⟩ | hmade := make_cases className s
  · exact nomatch (Prod.mk.inj (hfails.symm.trans hrun)).1
  · obtain ⟨hanswer, rfl⟩ := Prod.mk.inj (hmade.symm.trans hrun)
    obtain rfl := Except.ok.inj hanswer
    exact ⟨bounded_withNew hbound, fun hs => hs.begun _ _ hbound⟩

theorem Begun.issued (hb : Begun r snapshot s H c h s' H') : s'.heap.Issued h := by
  obtain ⟨object, hget, -⟩ := Option.map_eq_some_iff.1 hb.nature
  exact Heap.issued_of_get? hget

/-- What a new object is depends on its class alone. -/
theorem nature_freshForm (r r' : Realm P) (c : ClassNumber) :
    (ScriptObject.ofForm (r.freshForm c)).nature = (ScriptObject.ofForm (r'.freshForm c)).nature := by
  unfold Realm.freshForm
  split
  · rfl
  · split <;> rfl

/-- The entries of a node have been written to its new object, and that is told. -/
theorem Begun.equipped {s₂ : Loading P} {H₂ : Account}
    (hb : Begun r snapshot s H (classFor r node.className) h s₁ H₁)
    (hserved : KeepsAll r snapshot s₁ H₁ s₂ H₂) (hperm : entries.Perm node.entries.entries)
    (hstocked : Stocked r snapshot entries entries h s₂ H₂ s' H') :
    KeepsAll r snapshot s H s' (.filled h node :: H') := by
  obtain rfl := hb.same
  have hX : ∀ k n, k = h ∧ Names entries n → s₁.heap.Issued k := fun k n heq => heq.1 ▸ hb.issued
  -- since the object was made, nothing has been handed over but to its properties
  have hmade := hb.keeps.making ((hserved.widen hX).trans hstocked.keeps) fun k n heq =>
    heq.1 ▸ hb.fresh
  refine hmade.tell (fun _ _ _ hevent => nomatch hevent) fun k other hevent => ?_
  obtain ⟨rfl, rfl⟩ := Event.filled.inj hevent
  have hlater := (hserved.widen hX).trans hstocked.keeps
  constructor
  case new => exact hb.fresh
  case issued => exact hlater.persists.issued h hb.issued
  case nature =>
    rw [nature_freshForm r s.realm]
    exact hlater.persists.nature h _ hb.nature
  case inside => exact fun e he => hstocked.covered e (hperm.mem_iff.2 he)
  case lent =>
    intro key j hmem halone hj
    refine hstocked.lent key j (hperm.mem_iff.2 hmem) (fun e he => ?_) hj
    exact halone e (hperm.mem_iff.1 he)

theorem classFor_congr {r' : Realm P} (hregistry : r'.registry = r.registry)
    (className : Option String) : classFor r' className = classFor r className := by
  rw [classFor, hregistry, classFor]

theorem covered_node_iff {index : Nat} (hnode : snapshot.nodes[index]? = some node) :
    Covered r snapshot (.node index) H ↔
      (singletonName? r node = none → ∃ h, .filled h node ∈ H) := by
  constructor
  · exact fun hc => hc index List.mem_cons_self node hnode
  · intro h i hi other hother
    obtain rfl := List.mem_singleton.1 hi
    obtain rfl := Option.some.inj (hnode.symm.trans hother)
    exact h

/-- The entries of the node of a singleton are not read. -/
theorem supplied_of_singleton {index : Nat} (hnode : snapshot.nodes[index]? = some node)
    {name : String} (hname : singletonName? r node = some name)
    (hkeeps : KeepsAll r snapshot s H s' H') (h? : Option Handle) :
    Supplied r snapshot (.node index) s H (.ofObject? h?) s' H' where
  keeps := hkeeps
  inline := isInline_ofObject? h?
  covered := (covered_node_iff hnode).2 fun hnone => by rw [hname] at hnone; cases hnone
  reference := nofun
  node i other heq hother hnone := by
    obtain rfl := Entry.node.inj heq
    obtain rfl := Option.some.inj (hnode.symm.trans hother)
    rw [hname] at hnone
    cases hnone

/-- The entries of any other node have been written to an object of its own. -/
theorem supplied_of_filled {index : Nat} (hnode : snapshot.nodes[index]? = some node)
    (hkeeps : KeepsAll r snapshot s H s' H') (htold : .filled h node ∈ H') :
    Supplied r snapshot (.node index) s H (.object h) s' H' where
  keeps := hkeeps
  inline := rfl
  covered := (covered_node_iff hnode).2 fun _ => ⟨h, htold⟩
  reference := nofun
  node i other heq hother _ := by
    obtain rfl := Entry.node.inj heq
    obtain rfl := Option.some.inj (hnode.symm.trans hother)
    exact ⟨h, rfl, htold⟩

/-- The entries of a node are written to its new object. -/
theorem ensures_equip (hinner : Supplies r snapshot inner) {index : Nat}
    (hnode : snapshot.nodes[index]? = some node) {s₂ : Loading P} {H₂ : Account}
    (hpre : pre → Tidy r s ∧ Begun r snapshot s H (classFor s.realm node.className) h s₁ H₁ ∧
      KeepsAll r snapshot s₁ H₁ s₂ H₂) :
    Ensures pre (do
        let entries ← Told.silently (ask fun r => inPhases r (r.classOf? h) node.entries)
        entries.forM fun entry => Told.restoreEntry inner h entry.1 entry.2
        Told.tell (.filled h node)
        return some h) s₂ H₂ fun h? s' H' =>
      Supplied r snapshot (.node index) s H (.ofObject? h?) s' H' := by
  apply ensures_ask_bind
  have hperm := inPhases_perm s₂.realm (s₂.realm.classOf? h) node.entries
  refine Ensures.bind ((ensures_stocked hinner (fun _ he => he)
    ((hperm.map Prod.fst).nodup_iff.2 node.entries.nodup)).given ?_)
    fun _ s' H' => ensures_tell_bind (ensures_pure ?_)
  · rintro - hp
    obtain ⟨-, hb, hserved⟩ := hpre hp
    refine ⟨hserved.tidy, hserved.persists.issued h hb.issued, fun key _ _ _ => ?_⟩
    exact hserved.rest h key (fun hfalse => hfalse) hb.issued (hb.rest key)
  · rintro ⟨hp, hstocked⟩
    obtain ⟨hs, hb, hserved⟩ := hpre hp
    rw [classFor_congr hs.registry] at hb
    exact supplied_of_filled hnode (hb.equipped hserved hperm hstocked) List.mem_cons_self

theorem ensures_supplied_rebuildNode (hinner : Supplies r snapshot inner) {index : Nat}
    (hnode : snapshot.nodes[index]? = some node) :
    Ensures (Tidy r s) (Told.rebuildNode inner node) s H
      fun h? s' H' => Supplied r snapshot (.node index) s H (.ofObject? h?) s' H' := by
  apply ensures_ask_bind
  cases hname : singletonName? s.realm node with
  | some name =>
    have hsingle : Tidy r s → singletonName? r node = some name :=
      fun hs => (singletonName?_congr hs.registry node).symm.trans hname
    refine Ensures.bind (ensures_silently (Q := fun found s₁ H₁ => s₁ = s ∧ H₁ = H)
      fun found s₁ hrun hbound => ?_) fun found s₁ H₁ => ?_
    · obtain ⟨rfl, -⟩ := of_runs_findSingleton hrun
      exact ⟨hbound, fun _ => ⟨rfl, rfl⟩⟩
    · cases found with
      | none =>
        apply ensures_pure
        rintro ⟨hs, rfl, rfl⟩
        exact supplied_of_singleton hnode (hsingle hs) (Keeps.refl hs _) none
      | some h =>
        dsimp only
        cases node.id with
        | none =>
          apply ensures_pure
          rintro ⟨hs, rfl, rfl⟩
          exact supplied_of_singleton hnode (hsingle hs) (Keeps.refl hs _) (some h)
        | some id =>
          refine Ensures.bind ((keeps_announce r snapshot id h).given ?_)
            fun _ s' H' => ensures_pure ?_
          · rintro - ⟨hs, rfl, rfl⟩
            exact hs
          · rintro ⟨⟨hs, rfl, rfl⟩, hkeeps⟩
            exact supplied_of_singleton hnode (hsingle hs) hkeeps (some h)
  | none =>
    refine (ensures_begun snapshot node.className).bind fun h s₁ H₁ => ?_
    dsimp only
    -- what waits for the identifier of the node is served before its entries are read
    cases node.id with
    | none =>
      apply ensures_equip hinner hnode
      rintro ⟨hs, hb⟩
      exact ⟨hs, hb, Keeps.refl hb.keeps.tidy H₁⟩
    | some id =>
      refine Ensures.bind ((keeps_announce r snapshot id h).given fun _ hpre => hpre.2.keeps.tidy)
        fun _ s₂ H₂ => ensures_equip hinner hnode fun ⟨⟨hs, hb⟩, hserved⟩ => ⟨hs, hb, hserved⟩

/-! ## Reading Arrays -/

theorem ensures_supplied_items (hinner : Supplies r snapshot inner) (index : Nat)
    (items : List Entry) :
    Ensures (Tidy r s ∧ (s.heap.items? a).isSome = true) (Told.rebuildItems inner a index items) s H
      fun _ s' H' => KeepsAll r snapshot s H s' H' ∧ ∀ item ∈ items, Covered r snapshot item H' := by
  induction items generalizing index s H with
  | nil => exact ensures_pure fun ⟨hs, _⟩ => ⟨Keeps.refl hs H, fun _ hitem => by cases hitem⟩
  | cons item items ih =>
    -- whatever is done for the first item, the others are read in the same way
    have hrest : ∀ {pre : Prop} {v : Value} {s₁ : Loading P} {H₁ : Account},
        (pre → (s.heap.items? a).isSome = true ∧ v.isInline = false ∧
          KeepsAll r snapshot s H s₁ H₁ ∧ Covered r snapshot item H₁) →
        Ensures pre (Told.silently (discard (perform (Realm.assignElement a index v))) >>= fun _ =>
          Told.rebuildItems inner a (index + 1) items) s₁ H₁ fun _ s' H' =>
            KeepsAll r snapshot s H s' H' ∧ ∀ other ∈ item :: items, Covered r snapshot other H' := by
      intro pre v s₁ H₁ hpre
      have harray : ∀ {s₂ : Loading P}, s.heap.Persists s₂.heap → (s.heap.items? a).isSome = true →
          (s₂.heap.items? a).isSome = true := fun hpersists h => hpersists.fits (p := .item a index) h
      have hassign : Ensures pre (Told.silently (discard (perform (Realm.assignElement a index v))))
          s₁ H₁ fun _ s₂ H₂ => KeepsAll r snapshot s₁ H₁ s₂ H₂ :=
        ensures_assignItem (fun hp => (hpre hp).2.1) fun hp =>
          ⟨(hpre hp).2.2.1.tidy, harray (hpre hp).2.2.1.persists (hpre hp).1⟩
      refine hassign.bind fun _ s₂ H₂ => (ih (index + 1)).imp ?_ ?_
      · rintro - ⟨hp, hkeeps⟩
        obtain ⟨hsome, -, hfirst, -⟩ := hpre hp
        exact ⟨hkeeps.tidy, harray (hfirst.trans hkeeps).persists hsome⟩
      · rintro _ s' H' - ⟨hp, hkeeps⟩ ⟨hlater, hitems⟩
        obtain ⟨-, -, hfirst, hcovered⟩ := hpre hp
        refine ⟨(hfirst.trans hkeeps).trans hlater, fun other hother => ?_⟩
        rcases List.mem_cons.1 hother with rfl | hother
        · exact hcovered.told fun event hevent => hlater.told _ (hkeeps.told _ hevent)
        · exact hitems other hother
    have hread : Ensures (Tidy r s ∧ (s.heap.items? a).isSome = true)
        (inner item >>= fun value =>
          Told.silently (discard (perform (Realm.assignElement a index value))) >>= fun _ =>
            Told.rebuildItems inner a (index + 1) items) s H fun _ s' H' =>
          KeepsAll r snapshot s H s' H' ∧ ∀ other ∈ item :: items, Covered r snapshot other H' :=
      Ensures.bind ((hinner item s H).given fun _ => And.left) fun v s₁ H₁ => hrest
        fun ⟨⟨_, hsome⟩, hsupplied⟩ =>
          ⟨hsome, hsupplied.inline, hsupplied.keeps, hsupplied.covered⟩
    unfold Told.rebuildItems
    cases item with
    -- a stub waits, and null stands in its place until then
    | stub id =>
      simp only [pure_bind]
      refine Ensures.bind (ensures_silently_of_runs (Q := fun _ s₁ H₁ => s.Bounded ∧
        s₁ = s.awaiting id (.item a index) ∧ H₁ = H) (runs_await id _) (fun hbound => hbound)
        fun hbound _ => ⟨hbound, rfl, rfl⟩) fun _ s₁ H₁ => ensures_tell_bind (hrest ?_)
      rintro ⟨⟨hs, hsome⟩, hbound, rfl, rfl⟩
      have hfits : (Place.item a index).Fits s.heap := hsome
      have hwaiting : KeepsAll r snapshot s H₁ (s.awaiting id (.item a index)) H₁ :=
        (hs.awaiting hfits hbound).imp (fun _ _ heq => by cases heq) fun _ _ hfalse => hfalse.elim
      have hdeferred : KeepsAll r snapshot s H₁ (s.awaiting id (.item a index))
          (.deferred id a index :: H₁) :=
        hwaiting.tell (fun _ _ _ hevent => by cases hevent) fun _ _ hevent => by cases hevent
      exact ⟨hsome, rfl, hdeferred, covered_of_isLeaf rfl _⟩
    | _ => exact hread

theorem ensures_supplied_array (hinner : Supplies r snapshot inner) (items : List Entry) :
    Ensures (Tidy r s) (Told.rebuildArray inner items) s H fun _ s' H' =>
      KeepsAll r snapshot s H s' H' ∧ Covered r snapshot (.array items) H' := by
  refine Ensures.bind (ensures_silently_of_runs (Q := fun a s₁ H₁ =>
    Begun r snapshot s H .array a s₁ H₁) (runs_makeArray s) bounded_withNew
    fun hbound hs => hs.begun .array _ hbound) fun a s₁ H₁ => ?_
  refine Ensures.bind ((ensures_supplied_items hinner 0 items).given ?_) fun _ s' H' => ensures_pure ?_
  · rintro - ⟨-, hb⟩
    refine ⟨hb.keeps.tidy, ?_⟩
    obtain ⟨⟨form, fields⟩, hget, hform⟩ := Option.map_eq_some_iff.1 hb.nature
    have hget' : s₁.heap.get? a = some ⟨form, fields⟩ := hget
    rw [Heap.items?, hget', Option.bind_some]
    cases form with
    | array items => rfl
    | _ => cases hform
  · rintro ⟨⟨-, hb⟩, hkeeps, hitems⟩
    refine ⟨hb.keeps.trans hkeeps, fun i hi node hnode hsingle => ?_⟩
    obtain ⟨item, hitem, hi⟩ := Entry.mem_positionsOf_iff.1 hi
    exact hitems item hitem i hi node hnode hsingle

/-! ## Reading Everything -/

/-- An entry is read without room for a container. -/
theorem ensures_supplied_leaf (entry : Entry) :
    Ensures (Tidy r s) (Told.silently (Loading.rebuildWith snapshot none entry)) s H
      (Supplied r snapshot entry s H) := by
  have hrest : ∀ {v : Value}, v.isInline = false → entry.isLeaf = true →
      (∀ k, entry ≠ .reference k) → Ensures (Tidy r s) (Told.silently (pure v)) s H
        (Supplied r snapshot entry s H) := fun hinline hleaf hreference =>
    ensures_silently_of_runs (runs_pure _) (fun hbound => hbound) fun _ hs =>
      ⟨Keeps.refl hs H, hinline, covered_of_isLeaf hleaf H, fun k hk => absurd hk (hreference k),
        fun i node hi => by rw [hi] at hleaf; cases hleaf⟩
  cases entry with
  | null => exact hrest rfl rfl nofun
  | bool b => exact hrest rfl rfl nofun
  | int n => exact hrest (isInline_intValue n) rfl nofun
  | double x => exact hrest rfl rfl nofun
  | string text => exact hrest rfl rfl nofun
  | reference h =>
    have hrun : Runs (Loading.rebuildWith snapshot none (.reference h)) s
        (if s.realm.resolves h then .object h else .null) s := (runs_ask _).bind (runs_pure _)
    refine ensures_silently_of_runs hrun (fun hbound => hbound) fun _ hs => ?_
    refine ⟨Keeps.refl hs H, ?_, covered_of_isLeaf rfl H, fun k hk halive => ?_, nofun⟩
    · split <;> rfl
    -- what was alive when the load started still is
    · obtain rfl := Entry.reference.inj hk
      exact if_pos (hs.since.contains halive)
  | stub id => exact ensures_throw
  | array items => exact ensures_silently fun _ _ hrun => nomatch (Prod.mk.inj hrun).1
  | node index => exact ensures_silently fun _ _ hrun => nomatch (Prod.mk.inj hrun).1

theorem supplies_rebuildWith (r : Realm P) (snapshot : Snapshot) {inner? : Option (Told.Inner P)}
    (hinner : ∀ inner, inner? = some inner → Supplies r snapshot inner) :
    Supplies r snapshot (Told.rebuildWith snapshot inner?) := by
  intro entry s H
  cases inner? with
  | none => cases entry <;> exact ensures_supplied_leaf _
  | some inner =>
    have hinner := hinner inner rfl
    cases entry with
    | array items =>
      refine (ensures_supplied_array hinner items).bind fun a s' H' => ensures_pure ?_
      rintro ⟨-, hkeeps, hcovered⟩
      exact ⟨hkeeps, rfl, hcovered, nofun, nofun⟩
    | node index =>
      simp only [Told.rebuildWith]
      cases hfound : snapshot.node index with
      | error error => exact ensures_throw_bind
      | ok node =>
        have hread : Ensures (Tidy r s)
            (Told.rebuildNode inner node >>= fun h? => pure (.ofObject? h?)) s H
            (Supplied r snapshot (.node index) s H) :=
          (ensures_supplied_rebuildNode hinner (Snapshot.node_eq_ok_iff.1 hfound)).bind
            fun h? s' H' => ensures_pure And.right
        exact hread
    | _ => exact ensures_supplied_leaf _

theorem supplies_read (r : Realm P) (snapshot : Snapshot) (room : Nat) :
    Supplies r snapshot (Told.read snapshot room) := by
  -- by the room that is left for nesting
  induction room with
  | zero => exact supplies_rebuildWith r snapshot (by simp)
  | succ room ih =>
    apply supplies_rebuildWith
    intro inner hsome
    exact Option.some.inj hsome ▸ ih

theorem tidy_start (hwf : r.heap.WellFormed) : Tidy r (start r) where
  registry := rfl
  wellFormed := hwf
  since := ⟨fun _ h => h, fun _ _ h => h⟩
  waits p hp := by
    obtain ⟨id, hid⟩ := hp
    cases hid
  renewals _ _ _ hmem := by cases hmem

/-- Whatever is built, the live objects of each node that has been read are what its properties have
been handed last. -/
theorem supplied_build (hwf : r.heap.WellFormed) (snapshot : Snapshot) :
    Ensures True (Told.build snapshot) (start r) []
      (Supplied r snapshot snapshot.root (start r) []) := by
  apply ensures_ask_bind
  refine Ensures.bind ((supplies_read r snapshot _ snapshot.root _ _).given fun _ _ => tidy_start hwf)
    fun root s₁ H₁ => ?_
  refine Ensures.bind ((keeps_settleAll r snapshot).given fun _ hp => hp.2.keeps.tidy)
    fun _ s₂ H₂ => ?_
  refine Ensures.bind ((keeps_renewAll r snapshot).given fun _ hp => hp.2.tidy)
    fun _ s₃ H₃ => ensures_pure ?_
  rintro ⟨⟨⟨-, hread⟩, hsettled⟩, hrenewed⟩
  have hlater := hsettled.trans hrenewed
  refine ⟨hread.keeps.trans hlater, hread.inline, hread.covered.told hlater.told, hread.reference, ?_⟩
  intro i node hi hnode hsingle
  obtain ⟨h, hroot, hfilled⟩ := hread.node i node hi hnode hsingle
  exact ⟨h, hroot, hlater.told _ hfilled⟩

end

end Loading

end ScriptBridge
