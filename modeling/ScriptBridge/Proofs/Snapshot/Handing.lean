import ScriptBridge.Proofs.Snapshot.LastHanded
import ScriptBridge.Proofs.Snapshot.Renewal

/-!
# What References Hand Over

A live object that stands in an entry of a node is handed to the property of the entry. After that
the property is handed something only if it has waited for a node, if its array has received late
items, or if another entry of the node is about it. So where nothing of this is the case, the live
object is what the property has been handed last, however much is still read.

`Keeps` says what a step leaves as it is, and `Equipped` what is known of a node whose entries have
all been written.

Main statements: `Keeps.trans` and `Equipped.keeps` (one step after another), and `keeps_announce`,
`keeps_settleAll` and `keeps_renewAll` (what is put into places that wait).
-/

namespace ScriptBridge

open Realm (after)

variable {P : Platform}

/-- Handles that have been given out remain so, and objects stay what they are. -/
structure Heap.Persists (heap heap' : Heap P) : Prop where
  issued : ∀ k, heap.Issued k → heap'.Issued k
  nature : ∀ k form, heap.nature? k = some form → heap'.nature? k = some form

/-- A place that something can be put into later on. -/
def Place.Fits (heap : Heap P) : Place → Prop
  | .property h _ => heap.Issued h
  | .item a _ => (heap.items? a).isSome = true

theorem Heap.Persists.trans {a b c : Heap P} (h : a.Persists b) (h' : b.Persists c) :
    a.Persists c where
  issued k hk := h'.issued k (h.issued k hk)
  nature k form hk := h'.nature k form (h.nature k form hk)

theorem Heap.Persists.contains {heap heap' : Heap P} (h : heap.Persists heap') {k : Handle}
    (hk : heap.contains k = true) : heap'.contains k = true := by
  obtain ⟨object, hget⟩ := Heap.contains_iff.1 hk
  have hlater := h.nature k object.nature (congrArg (Option.map ScriptObject.nature) hget)
  obtain ⟨other, hother, -⟩ := Option.map_eq_some_iff.1 hlater
  exact Heap.contains_iff.2 ⟨other, hother⟩

/-- An object is seen as an array, or by its handle, as it has been before. -/
theorem Heap.Persists.presents {heap heap' : Heap P} (h : heap.Persists heap') {k : Handle}
    (hk : heap.contains k = true) : heap.Presents k (heap'.expand (.object k)) := by
  obtain ⟨object, hget⟩ := Heap.contains_iff.1 hk
  have hnature : heap.nature? k = some object.nature :=
    congrArg (Option.map ScriptObject.nature) hget
  exact Heap.presents_expand (Heap.isSome_items?_congr ((h.nature k _ hnature).trans hnature.symm))

theorem Heap.Persists.fits {heap heap' : Heap P} (h : heap.Persists heap') {p : Place}
    (hp : p.Fits heap) : p.Fits heap' := by
  cases p with
  | property owner n => exact h.issued owner hp
  | item a i =>
    have hsome : (heap.items? a).isSome = true := hp
    obtain ⟨items, hitems⟩ := Option.isSome_iff_exists.1 hsome
    obtain ⟨fields, hget⟩ := Heap.get?_of_items? hitems
    have hbefore : heap.nature? a = some (.array #[]) := by
      rw [Heap.nature?, hget]
      rfl
    show (heap'.items? a).isSome = true
    rw [Heap.isSome_items?_congr ((h.nature a _ hbefore).trans hbefore.symm)]
    exact hsome

namespace Loading

open Snapshot (Entry Node)
open Told (Effects Ensures ensures_pure ensures_silently ensures_silently_of_runs ensures_get_bind)

/-! ## What a Step Leaves Alone -/

/-- Nothing waits to be put into a property, and it is not going to be written again. -/
structure AtRest (s : Loading P) (h : Handle) (n : String) : Prop where
  waits : ¬ s.Awaits (.property h n)
  renewals : ∀ a, (h, n, a) ∉ s.renewals

/-- What is noted for later belongs to what has been made, and what was alive before still is. -/
structure Tidy (r : Realm P) (s : Loading P) : Prop where
  registry : s.realm.registry = r.registry
  wellFormed : s.heap.WellFormed
  since : r.heap.Persists s.heap
  waits : ∀ p, s.Awaits p → p.Fits s.heap
  renewals : ∀ h n a, (h, n, a) ∈ s.renewals → s.heap.Issued h

/-- A property has been handed a live object last, and is not going to be handed anything else. -/
structure Lent (r : Realm P) (s : Loading P) (H : Account) (h : Handle) (n : String) (k : Handle) :
    Prop extends AtRest s h n where
  handed : ∃ v, H.lastHanded h n = some v ∧ r.heap.Presents k v

/-- The nodes that stand in an entry have been read. -/
def Covered (r : Realm P) (snapshot : Snapshot) (entry : Entry) (H : Account) : Prop :=
  ∀ i ∈ entry.positions, ∀ node, snapshot.nodes[i]? = some node → singletonName? r node = none →
    ∃ h, .filled h node ∈ H

/-- A node has been read into a new object of its class, and what it refers to has been handed to the
properties. -/
structure Equipped (r : Realm P) (snapshot : Snapshot) (b s : Loading P) (H : Account) (h : Handle)
    (node : Node) : Prop where
  new : ¬ b.heap.Issued h
  issued : s.heap.Issued h
  nature : s.heap.nature? h =
    some (ScriptObject.ofForm (r.freshForm (classFor r node.className))).nature
  inside : ∀ e ∈ node.entries.entries, Covered r snapshot e.2 H
  lent : ∀ key k, (key, .reference k) ∈ node.entries.entries → Alone node.entries.entries key →
    r.resolves k = true → Lent r s H h key k

/-- What a step leaves alone that hands something to some properties only, beside those that are not
at rest and those of new objects. -/
structure Keeps (r : Realm P) (snapshot : Snapshot) (X : Handle → String → Prop) (s : Loading P)
    (H : Account) (s' : Loading P) (H' : Account) : Prop where
  tidy : Tidy r s'
  effects : Effects (s.realm, H) (s'.realm, H')
  within : ∀ h n, X h n → s.heap.Issued h
  persists : s.heap.Persists s'.heap
  told : ∀ event ∈ H, event ∈ H'
  rest : ∀ h n, ¬ X h n → s.heap.Issued h → s.AtRest h n → s'.AtRest h n
  handed : ∀ h n, ¬ X h n → s.heap.Issued h → s.AtRest h n → H'.lastHanded h n = H.lastHanded h n
  filled : ∀ h node, .filled h node ∈ H' → .filled h node ∈ H ∨ Equipped r snapshot s s' H' h node

/-- What a step leaves alone that hands nothing to any property, but for those that are not at rest
and those of new objects. -/
abbrev KeepsAll (r : Realm P) (snapshot : Snapshot) (s : Loading P) (H : Account) (s' : Loading P)
    (H' : Account) : Prop := Keeps r snapshot (fun _ _ => False) s H s' H'

section

variable {r : Realm P} {snapshot : Snapshot} {X Y : Handle → String → Prop} {b s s₁ s' : Loading P}
  {H H₁ H' : Account} {h k : Handle} {n : String} {node : Node} {entry : Entry}

theorem Covered.told (hc : Covered r snapshot entry H) (htold : ∀ event ∈ H, event ∈ H') :
    Covered r snapshot entry H' := fun i hi node hnode hsingle =>
  (hc i hi node hnode hsingle).imp fun _ hmem => htold _ hmem

theorem covered_of_isLeaf (hleaf : entry.isLeaf = true) (H : Account) :
    Covered r snapshot entry H := by
  intro i hi
  rw [Entry.positions_of_isLeaf hleaf] at hi
  cases hi

theorem Tidy.persists (hs : Tidy r s) (heffects : Effects (s.realm, H) (s'.realm, H'))
    (hbound : s'.Bounded) : s.heap.Persists s'.heap :=
  ⟨fun _ hk => heffects.changes.issued hs.wellFormed hbound hk,
    fun _ _ hk => heffects.changes.nature? hs.wellFormed hbound hk⟩

/-- A step that makes and writes things, and notes nothing for later but properties that it may
write. -/
theorem Tidy.keeps (hs : Tidy r s) (hwithin : ∀ h n, X h n → s.heap.Issued h)
    (heffects : Effects (s.realm, H) (s'.realm, H')) (hbound : s'.Bounded)
    (hwaits : ∀ p, s'.Awaits p → s.Awaits p ∨ p.Fits s.heap ∧ ∀ h n, p = .property h n → X h n)
    (hrenewals : ∀ h n a, (h, n, a) ∈ s'.renewals → (h, n, a) ∈ s.renewals ∨ X h n)
    (htold : ∀ event ∈ H, event ∈ H')
    (hhanded : ∀ h n, ¬ X h n → H'.lastHanded h n = H.lastHanded h n)
    (hfilled : ∀ h node, .filled h node ∈ H' → .filled h node ∈ H) :
    Keeps r snapshot X s H s' H' := by
  have hpersists := hs.persists heffects hbound
  constructor
  case tidy =>
    refine ⟨heffects.evolves.registry.trans hs.registry,
      heffects.changes.wellFormed hs.wellFormed hbound, hs.since.trans hpersists, fun p hp => ?_,
      fun h n a hmem => hpersists.issued h ?_⟩
    · exact hpersists.fits ((hwaits p hp).elim (hs.waits p) And.left)
    · exact (hrenewals h n a hmem).elim (hs.renewals h n a) (hwithin h n)
  case rest =>
    intro h n hX _ hrest
    refine ⟨fun hp => ?_, fun a hmem => (hrenewals h n a hmem).elim (hrest.renewals a) hX⟩
    exact (hwaits _ hp).elim hrest.waits fun hfits => hX (hfits.2 h n rfl)
  case effects => exact heffects
  case within => exact hwithin
  case persists => exact hpersists
  case told => exact htold
  case handed => exact fun h n hX _ _ => hhanded h n hX
  case filled => exact fun h node hmem => Or.inl (hfilled h node hmem)

theorem Keeps.refl (hs : Tidy r s) (H : Account) : KeepsAll r snapshot s H s H where
  tidy := hs
  effects := .refl
  within _ _ h := h.elim
  persists := ⟨fun _ h => h, fun _ _ h => h⟩
  told _ h := h
  rest _ _ _ _ h := h
  handed _ _ _ _ _ := rfl
  filled _ _ h := Or.inl h

theorem Keeps.imp (h : Keeps r snapshot X s H s' H') (hsub : ∀ h n, X h n → Y h n)
    (hY : ∀ h n, Y h n → s.heap.Issued h) : Keeps r snapshot Y s H s' H' :=
  { h with
    within := hY
    rest := fun k n hn => h.rest k n fun hX => hn (hsub k n hX)
    handed := fun k n hn => h.handed k n fun hX => hn (hsub k n hX) }

theorem Keeps.widen (h : KeepsAll r snapshot s H s' H') (hX : ∀ h n, X h n → s.heap.Issued h) :
    Keeps r snapshot X s H s' H' :=
  h.imp (fun _ _ h => h.elim) hX

/-- Properties that are not at rest need not be named. -/
theorem Keeps.narrow (h : Keeps r snapshot X s H s' H') (hX : ∀ h n, X h n → ¬ s.AtRest h n) :
    KeepsAll r snapshot s H s' H' :=
  { h with
    within := fun _ _ h => h.elim
    rest := fun k n _ hk hrest => h.rest k n (fun hx => hX k n hx hrest) hk hrest
    handed := fun k n _ hk hrest => h.handed k n (fun hx => hX k n hx hrest) hk hrest }

theorem Lent.keeps (hl : Lent r s H h n k) (hs : Keeps r snapshot X s H s' H') (hX : ¬ X h n)
    (hh : s.heap.Issued h) : Lent r s' H' h n k where
  toAtRest := hs.rest h n hX hh hl.toAtRest
  handed := by
    rw [hs.handed h n hX hh hl.toAtRest]
    exact hl.handed

/-- A node whose entries have been written is left alone by what comes later. -/
theorem Equipped.keeps (he : Equipped r snapshot b s H h node) (hs : Keeps r snapshot X s H s' H')
    (hX : ∀ n, ¬ X h n) : Equipped r snapshot b s' H' h node where
  new := he.new
  issued := hs.persists.issued h he.issued
  nature := hs.persists.nature h _ he.nature
  inside e hmem := (he.inside e hmem).told hs.told
  lent key k hmem halone hk := (he.lent key k hmem halone hk).keeps hs (hX key) he.issued

theorem Equipped.rebase (he : Equipped r snapshot s₁ s' H' h node)
    (hissued : ∀ k, s.heap.Issued k → s₁.heap.Issued k) : Equipped r snapshot s s' H' h node :=
  { he with new := fun hk => he.new (hissued h hk) }

/-- What the first step has made does not count as having been there. -/
theorem Keeps.comp (h : Keeps r snapshot X s H s₁ H₁) (h' : Keeps r snapshot Y s₁ H₁ s' H')
    (hY : ∀ k n, Y k n → s.heap.Issued k → X k n)
    (hfilled : ∀ k node, .filled k node ∈ H' →
      .filled k node ∈ H ∨ Equipped r snapshot s s' H' k node) :
    Keeps r snapshot X s H s' H' where
  tidy := h'.tidy
  effects := h.effects.trans h'.effects
  within := h.within
  persists := h.persists.trans h'.persists
  told event hevent := h'.told event (h.told event hevent)
  rest k n hn hk hrest :=
    h'.rest k n (fun hy => hn (hY k n hy hk)) (h.persists.issued k hk) (h.rest k n hn hk hrest)
  handed k n hn hk hrest :=
    (h'.handed k n (fun hy => hn (hY k n hy hk)) (h.persists.issued k hk)
      (h.rest k n hn hk hrest)).trans (h.handed k n hn hk hrest)
  filled := hfilled

/-- One step after another. -/
theorem Keeps.trans (h : Keeps r snapshot X s H s₁ H₁) (h' : Keeps r snapshot X s₁ H₁ s' H') :
    Keeps r snapshot X s H s' H' := by
  apply h.comp h' fun _ _ hX _ => hX
  intro k node hmem
  rcases h'.filled k node hmem with hmem | he
  -- a node that the first step has filled is new, so the second one does not write to it
  · exact (h.filled k node hmem).imp id fun he => he.keeps h' fun n hX => he.new (h.within k n hX)
  · exact Or.inr (he.rebase h.persists.issued)

/-- The first step does nothing but make what the second one writes to. -/
theorem Keeps.making (h : KeepsAll r snapshot s H s₁ H) (h' : Keeps r snapshot Y s₁ H s' H')
    (hY : ∀ k n, Y k n → ¬ s.heap.Issued k) : KeepsAll r snapshot s H s' H' := by
  apply h.comp h' fun k n hy hk => hY k n hy hk
  intro k node hmem
  exact (h'.filled k node hmem).imp id fun he => he.rebase h.persists.issued

/-- Something is told that no property is handed, and of no node but one that has been read. -/
theorem Keeps.tell {event : Event} (h : Keeps r snapshot X s H s' H')
    (hhanded : ∀ k n v, event ≠ .handed k n v)
    (hfilled : ∀ k node, event = .filled k node → Equipped r snapshot s s' H' k node) :
    Keeps r snapshot X s H s' (event :: H') := by
  have hlast : ∀ k n, Account.lastHanded (event :: H') k n = H'.lastHanded k n := by
    intro k n
    cases event with
    | handed owner name value => exact absurd rfl (hhanded owner name value)
    | _ => rfl
  have htold : ∀ other ∈ H', other ∈ event :: H' := fun _ => List.mem_cons_of_mem _
  have hmore : ∀ k node, Equipped r snapshot s s' H' k node →
      Equipped r snapshot s s' (event :: H') k node := by
    intro k node he
    refine { he with inside := fun e hmem => (he.inside e hmem).told htold, lent := ?_ }
    intro key j hmem halone hj
    have hl := he.lent key j hmem halone hj
    exact { hl with handed := by rw [hlast]; exact hl.handed }
  refine { h with effects := h.effects.tail (.tell hlast), told := ?_, handed := ?_, filled := ?_ }
  · exact fun other hother => htold other (h.told other hother)
  · exact fun k n hn hk hrest => (hlast k n).trans (h.handed k n hn hk hrest)
  · intro k node hmem
    rcases List.mem_cons.1 hmem with heq | hmem
    · exact Or.inr (hmore k node (hfilled k node heq.symm))
    · exact (h.filled k node hmem).imp id (hmore k node)

end

/-! ## Writing and Waiting -/

section

variable {r : Realm P} {snapshot : Snapshot} {X : Handle → String → Prop} {s s' : Loading P}
  {H H' : Account} {h a : Handle} {n id : String} {v : Value} {p : Place} {i : Nat} {pre : Prop}

/-- A property is handed a value. -/
theorem Tidy.hand (hs : Tidy r s) (hh : s.heap.Issued h) (hinline : v.isInline = false)
    (hstate : s' = { s with realm := after (Realm.putProperty h n v true) s.realm })
    (haccount : H' = .handed h n (s.realm.expand v) :: H) (hbound : s'.Bounded) :
    Keeps r snapshot (fun k m => k = h ∧ m = n) s H s' H' := by
  subst hstate haccount
  apply hs.keeps
  · rintro k m ⟨rfl, rfl⟩
    exact hh
  · exact .single (.hand n hh hinline)
  · exact hbound
  · exact fun p hp => Or.inl hp
  · exact fun k m a hmem => Or.inl hmem
  · exact fun event => List.mem_cons_of_mem _
  · intro k m hne
    rw [Account.lastHanded_handed, if_neg]
    rintro ⟨rfl, rfl⟩
    exact hne ⟨rfl, rfl⟩
  · exact fun k node hmem => (List.mem_cons.1 hmem).resolve_left nofun

/-- A step that writes an item, makes something or notes something hands nothing over. -/
theorem Tidy.keepsAll (hs : Tidy r s) (heffects : Effects (s.realm, H) (s'.realm, H))
    (hbound : s'.Bounded)
    (hwaits : ∀ p, s'.Awaits p → s.Awaits p ∨ p.Fits s.heap ∧ ∀ h n, p ≠ .property h n)
    (hrenewals : ∀ renewal ∈ s'.renewals, renewal ∈ s.renewals) : KeepsAll r snapshot s H s' H :=
  hs.keeps (fun _ _ h => h.elim) heffects hbound (fun p hp => hwaits p hp)
    (fun _ _ _ hmem => Or.inl (hrenewals _ hmem)) (fun _ h => h) (fun _ _ _ => rfl) fun _ _ h => h

theorem ensures_assignItem (hinline : pre → v.isInline = false)
    (hpre : pre → Tidy r s ∧ (s.heap.items? a).isSome = true) :
    Ensures pre (Told.silently (discard (perform (Realm.assignElement a i v)))) s H
      fun _ s' H' => KeepsAll r snapshot s H s' H' := by
  apply ensures_silently
  intro _ s' hrun hbound
  obtain rfl := state_of_assign hrun
  have halters : Realm.Freely s.realm (after (Realm.assignElement a i v) s.realm) :=
    Realm.alters_assignElement trivial i (Or.inr Heap.stores_freely) s.realm
  refine ⟨Nat.le_trans halters.heap.capacity_le hbound, fun hp => ?_⟩
  obtain ⟨hs, harray⟩ := hpre hp
  exact hs.keepsAll (.single (.assign i harray (hinline hp))) hbound (fun _ hp => Or.inl hp)
    fun _ hmem => hmem

theorem Tidy.awaiting (hs : Tidy r s) (hp : p.Fits s.heap) (hbound : s.Bounded) :
    Keeps r snapshot (fun h n => p = .property h n) s H (s.awaiting id p) H := by
  have hwithin : ∀ h n, p = .property h n → s.heap.Issued h := by
    rintro h n rfl
    exact hp
  refine hs.keeps hwithin .refl hbound (fun q hq => ?_) (fun _ _ _ => Or.inl) (fun _ h => h)
    (fun _ _ _ => rfl) fun _ _ h => h
  rcases awaits_awaiting_iff.1 hq with hq | rfl
  · exact Or.inl hq
  · exact Or.inr ⟨hp, fun _ _ heq => heq⟩

/-- An object is put into a place that waits for it. -/
theorem ensures_putInto (target : Handle) :
    Ensures (Tidy r s ∧ p.Fits s.heap) (Told.settle target p) s H
      fun _ s' H' => Keeps r snapshot (fun h n => p = .property h n) s H s' H' := by
  cases p with
  | property owner name =>
    have hstep : ∀ s', Runs (write owner name (.object target)) s () s' → _ := fun _ => state_of_write
    refine (ensures_hand hstep).imp (fun _ hpre => hpre) ?_
    rintro _ s' H' hbound ⟨hs, hfits⟩ ⟨hstate, haccount⟩
    have hkeeps : Keeps r snapshot (fun k m => k = owner ∧ m = name) s H s' H' :=
      hs.hand hfits rfl hstate haccount hbound
    apply hkeeps.imp
    · rintro _ _ ⟨rfl, rfl⟩
      rfl
    · rintro _ _ heq
      obtain ⟨rfl, rfl⟩ := Place.property.inj heq
      exact hfits
  | item array index =>
    have hassign : Ensures (Tidy r s ∧ (s.heap.items? array).isSome = true)
        (Told.settle target (.item array index)) s H fun _ s' H' => KeepsAll r snapshot s H s' H' :=
      ensures_assignItem (fun _ => rfl) fun hpre => hpre
    refine hassign.imp (fun _ hpre => hpre) fun _ s' H' _ _ hkeeps => ?_
    exact hkeeps.widen fun _ _ heq => nomatch heq

/-- One step for each member of a list. -/
theorem ensures_each {ι : Type} {xs : List ι} {step : ι → ToldM P PUnit}
    {F : ι → Heap P → Prop} {Y : ι → Handle → String → Prop}
    (hmono : ∀ x {heap heap' : Heap P}, heap.Persists heap' → F x heap → F x heap')
    (hwithin : ∀ x {heap : Heap P}, F x heap → ∀ h n, Y x h n → heap.Issued h)
    (hstep : ∀ x s H, Ensures (Tidy r s ∧ F x s.heap) (step x) s H
      fun _ s' H' => Keeps r snapshot (Y x) s H s' H') :
    Ensures (Tidy r s ∧ ∀ x ∈ xs, F x s.heap) (xs.forM step) s H
      fun _ s' H' => Keeps r snapshot (fun h n => ∃ x ∈ xs, Y x h n) s H s' H' := by
  induction xs generalizing s H with
  | nil =>
    exact ensures_pure fun ⟨hs, _⟩ => (Keeps.refl hs H).widen fun h n ⟨x, hx, _⟩ => by cases hx
  | cons x xs ih =>
    refine Ensures.bind ((hstep x s H).given fun _ ⟨hs, hfit⟩ => ⟨hs, hfit x List.mem_cons_self⟩)
      fun _ s₁ H₁ => (ih (s := s₁) (H := H₁)).imp ?_ ?_
    · rintro - ⟨⟨-, hfit⟩, hkeeps⟩
      refine ⟨hkeeps.tidy, fun y hy => hmono y hkeeps.persists ?_⟩
      exact hfit y (List.mem_cons_of_mem _ hy)
    · rintro _ s' H' - ⟨⟨-, hfit⟩, hkeeps⟩ hrest
      have hall : ∀ h n, (∃ y ∈ x :: xs, Y y h n) → s.heap.Issued h :=
        fun h n ⟨y, hy, hn⟩ => hwithin y (hfit y hy) h n hn
      refine (hkeeps.imp (fun h n hn => ⟨x, List.mem_cons_self, hn⟩) hall).trans (hrest.imp ?_ ?_)
      · rintro h n ⟨y, hy, hn⟩
        exact ⟨y, List.mem_cons_of_mem _ hy, hn⟩
      · exact fun h n hn => hkeeps.persists.issued h (hall h n hn)

/-- Places that wait for a node are served. -/
theorem ensures_serve (target : Handle) {places : List Place} :
    Ensures (Tidy r s ∧ ∀ p ∈ places, p.Fits s.heap) (places.forM (Told.settle target)) s H
      fun _ s' H' => Keeps r snapshot (fun h n => .property h n ∈ places) s H s' H' := by
  have heach : Ensures (Tidy r s ∧ ∀ p ∈ places, p.Fits s.heap) (places.forM (Told.settle target))
      s H fun _ s' H' => Keeps r snapshot (fun h n => ∃ p ∈ places, p = .property h n) s H s' H' := by
    apply ensures_each (F := fun (p : Place) heap => p.Fits heap)
      (Y := fun p h n => p = .property h n)
    · exact fun p _ _ hpersists => hpersists.fits
    · rintro _ heap hp h n rfl
      exact hp
    · exact fun p s H => ensures_putInto target
  refine heach.imp (fun _ hpre => hpre) fun _ s' H' _ ⟨_, hfits⟩ hkeeps => hkeeps.imp ?_ ?_
  · rintro h n ⟨p, hp, rfl⟩
    exact hp
  · exact fun h n hp => hfits _ hp

/-- A property that waits is not at rest. -/
theorem Keeps.narrowAwaited (h : Keeps r snapshot X s H s' H')
    (hX : ∀ h n, X h n → s.Awaits (.property h n)) : KeepsAll r snapshot s H s' H' :=
  h.narrow fun k n hx hrest => hrest.waits (hX k n hx)

/-- Something is made or noted, and then something is handed to properties that have waited. -/
theorem Keeps.serving {s₁ : Loading P} {H₁ : Account} (h : KeepsAll r snapshot s H s₁ H₁)
    (h' : Keeps r snapshot X s₁ H₁ s' H') (hs : Tidy r s)
    (hX : ∀ h n, X h n → s.Awaits (.property h n)) : KeepsAll r snapshot s H s' H' :=
  ((h.widen fun k n hx => hs.waits _ (hX k n hx)).trans h').narrowAwaited hX

theorem keeps_announce (r : Realm P) (snapshot : Snapshot) (id : String) (target : Handle) :
    Ensures (Tidy r s) (Told.announce id target) s H
      fun _ s' H' => KeepsAll r snapshot s H s' H' := by
  refine ensures_get_bind ((ensures_silently_of_runs (Q := fun _ s₁ H₁ =>
    s₁ = s.met (some id) target ∧ H₁ = H) (runs_modify _) (fun hbound => hbound)
      fun _ _ => ⟨rfl, rfl⟩).bind fun _ s₁ H₁ => ?_)
  have hmet : Tidy r s → s.Bounded → KeepsAll r snapshot s H (s.met (some id) target) H :=
    fun hs hbound => hs.keepsAll .refl hbound (fun p hp => Or.inl (awaits_of_met hp))
      fun _ hmem => hmem
  have hserve : Ensures (Tidy r s₁ ∧ ∀ p ∈ s.waitingFor id, p.Fits s₁.heap)
      ((s.waitingFor id).forM (Told.settle target)) s₁ H₁ fun _ s' H' =>
        Keeps r snapshot (fun h n => .property h n ∈ s.waitingFor id) s₁ H₁ s' H' :=
    ensures_serve target
  refine hserve.imp ?_ ?_
  · rintro hbound ⟨hs, rfl, rfl⟩
    exact ⟨(hmet hs hbound).tidy, fun p hp => hs.waits p ⟨id, hp⟩⟩
  · rintro _ s' H' hbound ⟨hs, rfl, rfl⟩ hserved
    have hbefore : s.Bounded := Nat.le_trans hserved.effects.changes.capacity_le hbound
    exact (hmet hs hbefore).serving hserved hs fun h n hp => ⟨id, hp⟩

theorem ensures_serveRow (id : String) (places : List Place) :
    Ensures (Tidy r s ∧ ∀ p ∈ places, p.Fits s.heap) (Told.settleRow id places) s H
      fun _ s' H' => Keeps r snapshot (fun h n => .property h n ∈ places) s H s' H' := by
  apply ensures_get_bind
  cases s.built.lookup id with
  | some target => exact ensures_serve target
  | none =>
    apply ensures_silently
    intro _ s' hrun hbound
    obtain ⟨strict, s₁, hask, hlast⟩ := Realm.exists_of_run_bind hrun
    obtain ⟨-, rfl⟩ := Prod.mk.inj hask
    cases strict with
    | true => exact nomatch (Prod.mk.inj hlast).1
    | false =>
      obtain ⟨-, rfl⟩ := Prod.mk.inj hlast
      exact ⟨hbound, fun ⟨hs, hfits⟩ => (Keeps.refl hs H).widen fun h n hp => hfits _ hp⟩

theorem keeps_settleAll (r : Realm P) (snapshot : Snapshot) :
    Ensures (Tidy r s) Told.settleAll s H fun _ s' H' => KeepsAll r snapshot s H s' H' := by
  refine ensures_get_bind ((ensures_silently_of_runs (Q := fun _ s₁ H₁ =>
    s₁ = { s with waiting := .empty } ∧ H₁ = H) (runs_modify _) (fun hbound => hbound)
      fun _ _ => ⟨rfl, rfl⟩).bind fun _ s₁ H₁ => ?_)
  have hawaits : ∀ row ∈ s.waiting.entries, ∀ p ∈ row.2, s.Awaits p := fun row hrow p hp =>
    ⟨row.1, mem_waitingFor_iff.2 ⟨row.2, hrow, hp⟩⟩
  have hcleared : Tidy r s → s.Bounded →
      KeepsAll r snapshot s H { s with waiting := .empty } H := fun hs hbound =>
    hs.keepsAll .refl hbound (fun p ⟨id, hp⟩ => by cases hp) fun _ hmem => hmem
  have heach : Ensures (Tidy r s₁ ∧ ∀ row ∈ s.waiting.entries, ∀ p ∈ row.2, p.Fits s₁.heap)
      (s.waiting.entries.forM fun row => Told.settleRow row.1 row.2) s₁ H₁ fun _ s' H' =>
        Keeps r snapshot (fun h n => ∃ row ∈ s.waiting.entries, .property h n ∈ row.2) s₁ H₁ s' H' := by
    apply ensures_each (F := fun (row : String × List Place) heap => ∀ p ∈ row.2, p.Fits heap)
      (Y := fun row h n => .property h n ∈ row.2)
    · exact fun _ _ _ hpersists hfits p hp => hpersists.fits (hfits p hp)
    · exact fun _ _ hfits h n hp => hfits (.property h n) hp
    · exact fun row s H => ensures_serveRow row.1 row.2
  refine heach.imp ?_ ?_
  · rintro hbound ⟨hs, rfl, rfl⟩
    exact ⟨(hcleared hs hbound).tidy, fun row hrow p hp => hs.waits p (hawaits row hrow p hp)⟩
  · rintro _ s' H' hbound ⟨hs, rfl, rfl⟩ hserved
    have hbefore : s.Bounded := Nat.le_trans hserved.effects.changes.capacity_le hbound
    exact (hcleared hs hbefore).serving hserved hs fun h n ⟨row, hrow, hp⟩ =>
      hawaits row hrow _ hp

theorem keeps_renewAll (r : Realm P) (snapshot : Snapshot) :
    Ensures (Tidy r s) Told.renewAll s H fun _ s' H' => KeepsAll r snapshot s H s' H' := by
  refine ensures_get_bind ((ensures_silently_of_runs (Q := fun _ s₁ H₁ =>
    s₁ = { s with renewals := [] } ∧ H₁ = H) (runs_modify _) (fun hbound => hbound)
      fun _ _ => ⟨rfl, rfl⟩).bind fun _ s₁ H₁ => ?_)
  have hcleared : Tidy r s → s.Bounded → KeepsAll r snapshot s H { s with renewals := [] } H :=
    fun hs hbound => hs.keepsAll .refl hbound (fun _ => Or.inl) fun _ hmem => by cases hmem
  have hstep : ∀ (renewal : Handle × String × Handle) s H, Ensures (Tidy r s ∧ s.heap.Issued renewal.1)
      (Told.hand renewal.1 renewal.2.1 (.object renewal.2.2)
        (write renewal.1 renewal.2.1 (.object renewal.2.2))) s H
      fun _ s' H' => Keeps r snapshot (fun h n => h = renewal.1 ∧ n = renewal.2.1) s H s' H' := by
    intro renewal s H
    refine (ensures_hand fun _ => state_of_write).imp (fun _ hpre => hpre) ?_
    rintro _ s' H' hbound ⟨hs, hissued⟩ ⟨hstate, haccount⟩
    exact hs.hand hissued rfl hstate haccount hbound
  have heach : Ensures (Tidy r s₁ ∧ ∀ renewal ∈ s.renewals, s₁.heap.Issued renewal.1)
      (s.renewals.forM fun renewal => Told.hand renewal.1 renewal.2.1 (.object renewal.2.2)
        (write renewal.1 renewal.2.1 (.object renewal.2.2))) s₁ H₁ fun _ s' H' =>
      Keeps r snapshot (fun h n => ∃ renewal ∈ s.renewals, h = renewal.1 ∧ n = renewal.2.1)
        s₁ H₁ s' H' := by
    apply ensures_each (F := fun (renewal : Handle × String × Handle) heap => heap.Issued renewal.1)
      (Y := fun renewal h n => h = renewal.1 ∧ n = renewal.2.1)
    · exact fun _ _ _ hpersists => hpersists.issued _
    · rintro renewal heap hissued _ _ ⟨rfl, rfl⟩
      exact hissued
    · exact hstep
  refine heach.imp ?_ ?_
  · rintro hbound ⟨hs, rfl, rfl⟩
    exact ⟨(hcleared hs hbound).tidy, fun renewal hmem => hs.renewals _ _ _ hmem⟩
  · rintro _ s' H' hbound ⟨hs, rfl, rfl⟩ hkeeps
    have hbefore : s.Bounded := Nat.le_trans hkeeps.effects.changes.capacity_le hbound
    have hnoted : ∀ h n, (∃ renewal ∈ s.renewals, h = renewal.1 ∧ n = renewal.2.1) →
        ∃ a, (h, n, a) ∈ s.renewals := by
      rintro _ _ ⟨⟨h, n, a⟩, hmem, rfl, rfl⟩
      exact ⟨a, hmem⟩
    have hall := ((hcleared hs hbefore).widen fun h n hx =>
      (hnoted h n hx).elim fun a hmem => hs.renewals h n a hmem).trans hkeeps
    -- what is written again has been noted, so it is not at rest
    exact hall.narrow fun h n hx hrest => (hnoted h n hx).elim hrest.renewals

end

end Loading

end ScriptBridge
