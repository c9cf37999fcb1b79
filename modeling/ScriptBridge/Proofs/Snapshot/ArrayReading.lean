import ScriptBridge.Proofs.Snapshot.Phases
import ScriptBridge.Proofs.Snapshot.Proceeding

/-!
# Reading Arrays

The items of an array are read one after the other into an array that is new. As long as no item has
to wait, the array is whole when it has been read: whatever one comes across when it is expanded is
not going to change any more. For this, what a load takes over from the realm must not lead to
anything that the load is still going to make.

Main statements: `Filling.put` and `Filling.postpone` (one more item), and `ensures_rebuildArray`.
-/

namespace ScriptBridge

open Realm (after)

variable {P : Platform}

namespace Loading

open Snapshot (Entry Node fieldName functionOf?)
open Told (Ensures ensures_pure ensures_silently ensures_silently_of_runs ensures_tell
  ensures_tell_bind ensures_throw ensures_get_bind ensures_ask_bind)

/-! ## Filling Arrays -/

section

variable {r : Realm P} {W X : Place → Prop} {b s s₁ s' : Loading P} {B H H₁ H' : Account}
  {h a target : Handle} {n id key : String} {v : Value} {i index : Nat} {p : Place} {pre : Prop}
  {entry : Entry}

/-- Writing to places where nothing waits and no object stands leaves the state as its account says. -/
theorem Agrees.writes (hs : Agrees r s H) (hwrites : Writes W s H s' H')
    (hW : ∀ p, W p → New r s p.owner)
    (hkept : ∀ a i, W (.item a i) → ¬ s.Awaits (.item a i) ∧
      ∀ target, s.heap.at? (.item a i) ≠ some (.object target))
    (hbound : s'.Bounded) : Agrees r s' H' := by
  have hissued : ∀ k, s.heap.Issued k → s'.heap.Issued k := fun k hk =>
    hwrites.alters.heap.issued hs.wellFormed hbound hk
  have htold : ∀ event, (∀ h n v, event ≠ .handed h n v) → event ∈ H' → event ∈ H :=
    fun event hevent => (hwrites.told event hevent).1
  refine ⟨?_, ?_, ?_, ?_, ?_, ?_, ?_⟩
  · refine hs.toBeside.changes hwrites.evolves hwrites.alters.singletons hwrites.alters.heap ?_ hbound
    rintro _ ⟨p, hp, rfl⟩
    exact (hW p hp).2
  · exact fun p hp => (hs.waits p ((hwrites.awaits p).1 hp)).mono hissued
  · intro a i hi
    have hi' := (hwrites.awaits _).1 hi
    rw [hwrites.item a i fun hp => (hkept a i hp).1 hi']
    exact hs.null a i hi'
  · intro a i x y hx hy
    rw [hwrites.waitingFor] at hx hy
    exact hs.single a i x y hx hy
  · intro k n a hmem
    rw [hwrites.renewals] at hmem
    exact hissued k (hs.renewals k n a hmem)
  · exact fun k n a hmem => hissued k (hs.built k n a (htold _ (fun _ _ _ => Event.noConfusion) hmem))
  · intro other a i hmem
    rw [hwrites.waitingFor, hwrites.built]
    refine (hs.deferred other a i (htold _ (fun _ _ _ => Event.noConfusion) hmem)).imp id ?_
    rintro ⟨found, hfound, hat⟩
    refine ⟨found, hfound, ?_⟩
    rw [hwrites.item a i fun hp => (hkept a i hp).2 found hat]
    exact hat

theorem awaits_awaiting_iff {q : Place} :
    (s.awaiting id p).Awaits q ↔ s.Awaits q ∨ q = p := by
  unfold Awaits
  simp only [waitingFor_awaiting]
  constructor
  · rintro ⟨other, hmem⟩
    split at hmem
    · rcases List.mem_append.1 hmem with hmem | hmem
      · exact Or.inl ⟨id, hmem⟩
      · exact Or.inr (List.mem_singleton.1 hmem)
    · exact Or.inl ⟨other, hmem⟩
  · rintro (⟨other, hmem⟩ | rfl)
    · refine ⟨other, ?_⟩
      split
      · next heq => exact List.mem_append_left _ (heq ▸ hmem)
      · exact hmem
    · exact ⟨id, by rw [if_pos rfl]; exact List.mem_append_right _ List.mem_cons_self⟩

theorem mem_waitingFor_awaiting {other : String} {q : Place} (h : q ∈ s.waitingFor other) :
    q ∈ (s.awaiting id p).waitingFor other := by
  rw [waitingFor_awaiting]
  split
  · next heq => exact List.mem_append_left _ (heq ▸ h)
  · exact h

/-- One more place waits, which holds null if it is an item. -/
theorem Agrees.awaiting (hs : Agrees r s H) (hp : New r s p.owner)
    (hitem : ∀ a i, p = .item a i → s.heap.at? p = some .null ∧ ¬ s.Awaits p) :
    Agrees r (s.awaiting id p) H := by
  have hwaits : ∀ a i other, .item a i ∈ (s.awaiting id p).waitingFor other →
      .item a i ∈ s.waitingFor other ∨ other = id ∧ .item a i = p := by
    intro a i other hmem
    rw [waitingFor_awaiting] at hmem
    split at hmem
    · next heq =>
      rcases List.mem_append.1 hmem with hmem | hmem
      · exact Or.inl (heq ▸ hmem)
      · exact Or.inr ⟨heq, List.mem_singleton.1 hmem⟩
    · exact Or.inl hmem
  refine { hs with waits := ?_, null := ?_, single := ?_, deferred := ?_ }
  · intro q hq
    rcases awaits_awaiting_iff.1 hq with hq | rfl
    · exact hs.waits q hq
    · exact hp
  · intro a i hi
    rcases awaits_awaiting_iff.1 hi with hi | rfl
    · exact hs.null a i hi
    · exact (hitem a i rfl).1
  · intro a i x y hx hy
    rcases hwaits a i x hx with hx' | ⟨hxid, hxp⟩ <;>
      rcases hwaits a i y hy with hy' | ⟨hyid, hyp⟩
    · exact hs.single a i x y hx' hy'
    · exact absurd ⟨x, hyp ▸ hx'⟩ (hitem a i hyp.symm).2
    · exact absurd ⟨y, hxp ▸ hy'⟩ (hitem a i hxp.symm).2
    · exact hxid.trans hyid.symm
  · exact fun other a i hmem => (hs.deferred other a i hmem).imp mem_waitingFor_awaiting fun h => h

theorem Agrees.tell {event : Event} (hs : Agrees r s H)
    (hbuilt : ∀ h n a, event = .built h n a → s.heap.Issued h)
    (hdeferred : ∀ id a i, event = .deferred id a i → .item a i ∈ s.waitingFor id) :
    Agrees r s (event :: H) := by
  refine { hs with built := fun h n a hmem => ?_, deferred := fun id a i hmem => ?_ }
  · rcases List.mem_cons.1 hmem with heq | hmem
    · exact hbuilt h n a heq.symm
    · exact hs.built h n a hmem
  · rcases List.mem_cons.1 hmem with heq | hmem
    · exact Or.inl (hdeferred id a i heq.symm)
    · exact hs.deferred id a i hmem

theorem rests_awaiting (hX : X p) : Rests X s (s.awaiting id p) := by
  refine ⟨rfl, rfl, ?_, ?_, ?_⟩
  · cases p with
    | property owner name => exact Nat.le_refl _
    | item array index => exact Nat.le_succ _
  · intro hlate a i hi
    rcases awaits_awaiting_iff.1 hi with hi | rfl
    · exact hi
    · exact absurd hlate (Nat.succ_ne_self _)
  · intro q hq hawaits
    rcases awaits_awaiting_iff.1 hawaits with hawaits | rfl
    · exact hawaits
    · exact absurd hX hq

/-- What is told besides changes nothing that matters for the entries that are left alone. -/
theorem Proceeds.tell {event : Event} (h : Proceeds r X s H s' H')
    (hhanded : ∀ k n, Account.lastHanded (event :: H') k n = H'.lastHanded k n)
    (hbuilt : ∀ k n a, event = .built k n a → X (.property k n))
    (hfilled : ∀ k node, event = .filled k node → Finished r s s' H' k node) :
    Proceeds r X s H s' (event :: H') := by
  have hmem : ∀ k n a, ¬ X (.property k n) → (.built k n a ∈ event :: H' ↔ .built k n a ∈ H') := by
    intro k n a hX
    rw [List.mem_cons]
    exact or_iff_right fun heq => hX (hbuilt k n a heq.symm)
  have hfinished : ∀ k node, Finished r s s' H' k node → Finished r s s' (event :: H') k node := by
    intro k node hfinished
    refine { hfinished with resolved := fun key items hentry halone => ?_ }
    obtain ⟨a, hres⟩ := hfinished.resolved key items hentry halone
    have hX : ¬ X (.property k key) := fun hX => hfinished.new (h.within _ hX).1
    exact ⟨a, { hres with
      built := fun other => (hmem k key other hX).trans (hres.built other)
      handed := by rw [hhanded]; exact hres.handed }⟩
  refine { h with handed := ?_, built := ?_, filled := ?_ }
  · exact fun k n hn hk hi => (hhanded k n).trans (h.handed k n hn hk hi)
  · exact fun k n a hn hk => (hmem k n a hn).trans (h.built k n a hn hk)
  · intro k node hk
    rcases List.mem_cons.1 hk with heq | hk
    · exact Or.inr (hfinished k node (hfilled k node heq.symm))
    · exact (h.filled k node hk).imp id (hfinished k node)

theorem Proceeds.new (h : Proceeds r X s H s' H') (hk : New r s a) : New r s' a :=
  hk.mono h.issued

/-- A property waits. -/
theorem Proceeds.awaiting (hs : Beside r s) (hX : ∀ p, X p → New r s p.owner) (hp : X p)
    (hbound : s.Bounded) : Proceeds r X s H (s.awaiting id p) H :=
  (Writes.refl (fun _ => False) _ H).proceeds (rests_awaiting hp) hs hX (fun _ h => h.elim)
    (fun _ _ h => h.elim) hbound

/-- The items of an array have been read up to a position. -/
structure Filling (r : Realm P) (b : Loading P) (B : Account) (a : Handle) (index : Nat)
    (s : Loading P) (H : Account) : Prop where
  opened : ∀ i, ¬ b.Awaits (.item a i)
  agrees : Agrees r s H
  proceeds : Proceeds r (fun p => p.owner = a) b B s H
  array : (s.heap.items? a).isSome
  before : ∀ i, i < index → s.heap.at? (.item a i) ≠ none
  rest : ∀ i, index ≤ i → s.heap.at? (.item a i) = none
  whole : s.lateItems = b.lateItems → ∀ i v, s.heap.at? (.item a i) = some v → Whole r b s v

theorem Filling.new (hf : Filling r b B a index s H) : New r s a :=
  hf.proceeds.new (hf.proceeds.within (.item a index) rfl)

theorem Filling.writable (hf : Filling r b B a index s H) :
    s.heap.Writable (.item a index) := by
  obtain ⟨items, hitems⟩ := Option.isSome_iff_exists.1 hf.array
  obtain ⟨fields, hget⟩ := Heap.get?_of_items? hitems
  refine ⟨items, fields, hget, Nat.le_of_not_lt fun hlt => ?_⟩
  apply hf.before items.size hlt
  rw [Heap.at?_item, hitems, Option.bind_some, Array.getElem?_eq_none (Nat.le_refl _)]

/-- Something else that is read in the meantime may put objects into items that wait. -/
theorem Filling.inner (hf : Filling r b B a index s H) (hagrees : Agrees r s₁ H₁)
    (hp : Proceeds r (fun _ => False) s H s₁ H₁) : Filling r b B a index s₁ H₁ where
  opened := hf.opened
  agrees := hagrees
  proceeds := by
    refine hf.proceeds.trans (hp.imp (fun _ h => h.elim) ?_) hf.agrees.slotted
    rintro p rfl
    exact hf.new
  array := by
    rw [Heap.isSome_items?_congr (hp.nature a hf.new.1)]
    exact hf.array
  before i hi := hp.holds a i id (hf.before i hi)
  rest i hi := by
    have hnone := hf.rest i hi
    rw [hp.item a i id hf.new.1 fun hi' => ?_]
    · exact hnone
    · rw [hf.agrees.null a i hi'] at hnone
      cases hnone
  whole hlate i v hv := by
    have hlate₁ := hp.late
    have hlate₀ := hf.proceeds.late
    have hsame : s.lateItems = b.lateItems := by omega
    have hi : ¬ s.Awaits (.item a i) := fun hi => hf.opened i (hf.proceeds.calm hsame a i hi)
    rw [hp.item a i id hf.new.1 hi] at hv
    exact (hf.whole hsame i v hv).proceeds hp fun _ h => h.elim

/-- The next item is written. -/
theorem Filling.put (hf : Filling r b B a index s H) (hinline : v.isInline = false)
    (hv : s.lateItems = b.lateItems → Whole r b s v) (hbound : (s.put (.item a index) v).Bounded) :
    Filling r b B a (index + 1) (s.put (.item a index) v) H := by
  have hwrites : Writes (· = .item a index) s H (s.put (.item a index) v) H :=
    writes_put hinline hf.writable rfl
  have hnew : ∀ p : Place, p.owner = a → New r s p.owner := fun p hp => hp ▸ hf.new
  have hp : Proceeds r (fun p => p.owner = a) s H (s.put (.item a index) v) H := by
    refine hwrites.proceeds (.refl _ s) hf.agrees.toBeside hnew ?_ ?_ hbound
    · rintro p rfl
      exact Or.inl rfl
    · rintro k i hi
      obtain ⟨rfl, rfl⟩ := Place.item.inj hi
      exact Or.inl rfl
  have hnone := hf.rest index (Nat.le_refl _)
  have hself : (s.put (.item a index) v).heap.at? (.item a index) = some v :=
    Heap.at?_put_self hf.writable
  have hother : ∀ i, i ≠ index →
      (s.put (.item a index) v).heap.at? (.item a i) = s.heap.at? (.item a i) := fun i hi =>
    Heap.at?_put_of_ne hf.writable fun heq => hi (Place.item.inj heq).2
  have hX : ∀ p : Place, p.owner = a → b.heap.Issued p.owner := fun p hp =>
    (hf.proceeds.within p hp).1
  refine ⟨hf.opened, ?_, hf.proceeds.trans hp hf.agrees.slotted, ?_, ?_, ?_, ?_⟩
  · refine hf.agrees.writes hwrites ?_ ?_ hbound
    · rintro p rfl
      exact hf.new
    · rintro k i hi
      obtain ⟨rfl, rfl⟩ := Place.item.inj hi
      refine ⟨fun hi => ?_, fun target hi => ?_⟩
      · rw [hf.agrees.null k i hi] at hnone
        cases hnone
      · rw [hnone] at hi
        cases hi
  · rw [Heap.isSome_items?_congr (hp.nature a hf.new.1)]
    exact hf.array
  · intro i hi
    by_cases hindex : i = index
    · rw [hindex, hself]
      exact Option.some_ne_none _
    · rw [hother i hindex]
      exact hf.before i (by omega)
  · intro i hi
    rw [hother i (by omega)]
    exact hf.rest i (by omega)
  · intro hlate i w hw
    by_cases hindex : i = index
    · rw [hindex, hself] at hw
      obtain rfl := Option.some.inj hw
      exact (hv hlate).proceeds hp hX
    · rw [hother i hindex] at hw
      exact (hf.whole hlate i w hw).proceeds hp hX

/-- A stub stands in the place of the next item. -/
theorem Filling.postpone (hf : Filling r b B a index s H) (id : String)
    (hbound : ((s.awaiting id (.item a index)).put (.item a index) .null).Bounded) :
    Filling r b B a (index + 1) ((s.awaiting id (.item a index)).put (.item a index) .null)
      (.deferred id a index :: H) := by
  let s₁ := s.put (.item a index) .null
  have hwhole : Whole r b s .null := fun _ h => nomatch h
  have hf₁ : Filling r b B a (index + 1) s₁ H := hf.put rfl (fun _ => hwhole) hbound
  have hawaiting : (s.awaiting id (.item a index)).put (.item a index) .null =
      s₁.awaiting id (.item a index) := rfl
  have hnot : ¬ s₁.Awaits (.item a index) := by
    intro hi
    have hnone := hf.rest index (Nat.le_refl _)
    rw [hf.agrees.null a index hi] at hnone
    cases hnone
  rw [hawaiting]
  have hX : ∀ p : Place, p.owner = a → New r s₁ p.owner := fun p hp => hp ▸ hf₁.new
  refine { hf₁ with agrees := ?_, proceeds := ?_, whole := ?_ }
  · refine (hf₁.agrees.awaiting (p := .item a index) hf₁.new ?_).tell (fun _ _ _ h => nomatch h) ?_
    · exact fun _ _ _ => ⟨Heap.at?_put_self hf.writable, hnot⟩
    · intro other k i hevent
      obtain ⟨rfl, rfl, rfl⟩ := Event.deferred.inj hevent
      rw [waitingFor_awaiting, if_pos rfl]
      exact List.mem_append_right _ List.mem_cons_self
  · refine (hf₁.proceeds.trans (Proceeds.awaiting (H := H) hf₁.agrees.toBeside hX rfl hbound)
      hf₁.agrees.slotted).tell (fun _ _ => rfl) (fun _ _ _ h => nomatch h) fun _ _ h => nomatch h
  · intro hlate
    have hbefore := hf₁.proceeds.late
    have hafter : (s₁.awaiting id (.item a index)).lateItems = s₁.lateItems + 1 := rfl
    omega

end

/-! ## Reading Arrays -/

/-- What a load takes over from a realm when it reads an entry: live references, and installed
singletons. -/
inductive Borrows (r : Realm P) (snapshot : Snapshot) (entry : Entry) : Handle → Prop
  | reference {n : Nat} {h : Handle} :
      WalksTo r snapshot n entry (.reference h) → Borrows r snapshot entry h
  | singleton {n index : Nat} {node : Node} {name : String} {h : Handle} :
      WalksTo r snapshot n entry (.node index) → snapshot.nodes[index]? = some node →
      singletonName? r node = some name → r.singleton? name = some h → Borrows r snapshot entry h

/-- Whatever the expansion of what is taken over comes across had been given out before. -/
def Grounded (r : Realm P) (snapshot : Snapshot) (entry : Entry) : Prop :=
  ∀ h, Borrows r snapshot entry h → ∀ k, r.heap.Uncovers h k → r.heap.Issued k

section

variable {r : Realm P} {snapshot : Snapshot} {b s s₁ s' : Loading P} {B H H₁ H' : Account}
  {h a : Handle} {n id key : String} {v : Value} {index : Nat} {pre : Prop} {entry : Entry}
  {inner : Told.Inner P}

theorem Grounded.inside {inner : Entry} (h : Grounded r snapshot entry)
    (henters : Enters r snapshot entry inner) : Grounded r snapshot inner := by
  intro k hk
  apply h k
  cases hk with
  | reference hwalk => exact .reference (.inside henters hwalk)
  | singleton hwalk hnode hname hsingleton =>
    exact .singleton (.inside henters hwalk) hnode hname hsingleton

/-- What was there before is whole at any time. -/
theorem whole_of_issued (hs : Agrees r s H) (hh : ∀ k, r.heap.Uncovers h k → r.heap.Issued k) :
    Whole r b s (.object h) := by
  intro a ha k hk
  obtain rfl := Value.object.inj ha
  have hsame : ∀ k, r.heap.Uncovers h k → s.heap.items? k = r.heap.items? k := by
    intro k hk
    rw [Heap.items?, (hs.before k (hh k hk)).2, Heap.items?]
  have hk' := hh k (Heap.uncovers_of_items?_eq hsame hk)
  exact ⟨(hs.before k hk').1, fun i hi => (hs.waits _ hi).2 hk', fun _ => hk'⟩

theorem whole_of_ne_object (hv : ∀ a, v ≠ .object a) : Whole r b s v :=
  fun a ha => absurd ha (hv a)

/-- What has been read for an entry. -/
structure ReadFor (r : Realm P) (entry : Entry) (s : Loading P) (H : Account) (v : Value)
    (s' : Loading P) (H' : Account) : Prop where
  agrees : Agrees r s' H'
  proceeds : Proceeds r (fun _ => False) s H s' H'
  inline : v.isInline = false
  array : ∀ items, entry = .array items → ∃ a, v = .object a
  whole : s'.lateItems = s.lateItems → Whole r s s' v

/-- What is read for an entry keeps the state and the account in step. -/
def ReadsWhole (r : Realm P) (snapshot : Snapshot) (inner : Told.Inner P) : Prop :=
  ∀ entry s H,
    Ensures (Grounded r snapshot entry ∧ Agrees r s H) (inner entry) s H (ReadFor r entry s H)

theorem ensures_rebuildItems (hinner : ReadsWhole r snapshot inner) (index : Nat)
    (items : List Entry) :
    Ensures ((∀ item ∈ items, Grounded r snapshot item) ∧ Filling r b B a index s H)
      (Told.rebuildItems inner a index items) s H fun _ s' H' =>
        Filling r b B a (index + items.length) s' H' := by
  induction items generalizing index s H with
  | nil => exact ensures_pure And.right
  | cons item items ih =>
    -- whatever the first item is, the others are read in the same way
    have hrest : ∀ {pre : Prop} {s H}, (s.Bounded → pre →
          (∀ other ∈ item :: items, Grounded r snapshot other) ∧ Filling r b B a (index + 1) s H) →
        Ensures pre (Told.rebuildItems inner a (index + 1) items) s H fun _ s' H' =>
          Filling r b B a (index + (item :: items).length) s' H' := by
      intro pre s H hpre
      have hlength : index + (item :: items).length = index + 1 + items.length := by
        rw [List.length_cons]
        omega
      rw [hlength]
      apply (ih (index + 1)).given
      intro hbound hp
      obtain ⟨hitems, hf⟩ := hpre hbound hp
      exact ⟨fun other hother => hitems other (List.mem_cons_of_mem _ hother), hf⟩
    -- an item that does not wait is read, and is whole if nothing inside of it waits
    have hread : Ensures
        ((∀ other ∈ item :: items, Grounded r snapshot other) ∧ Filling r b B a index s H)
        (inner item >>= fun value =>
          Told.silently (discard (perform (Realm.assignElement a index value))) >>= fun _ =>
            Told.rebuildItems inner a (index + 1) items) s H fun _ s' H' =>
          Filling r b B a (index + (item :: items).length) s' H' := by
      refine Ensures.bind ((hinner item s H).given fun _ ⟨hitems, hf⟩ =>
        ⟨hitems item List.mem_cons_self, hf.agrees⟩) fun value s₁ H₁ => ?_
      refine Ensures.bind (ensures_assign (fun hpre => hpre.2.inline) fun ⟨⟨_, hf⟩, hread⟩ =>
        (hf.inner hread.agrees hread.proceeds).writable) fun _ s₂ H₂ => hrest ?_
      rintro hbound ⟨⟨⟨hitems, hf⟩, hread⟩, rfl, rfl⟩
      refine ⟨hitems, (hf.inner hread.agrees hread.proceeds).put hread.inline (fun hlate => ?_) hbound⟩
      have hlate₀ := hf.proceeds.late
      have hlate₁ := hread.proceeds.late
      exact (hread.whole (by omega)).rebase hf.proceeds.issued
    unfold Told.rebuildItems
    cases item with
    -- a stub waits, and null stands in its place until then
    | stub id =>
      simp only [pure_bind]
      refine Ensures.bind (ensures_silently_of_runs (Q := fun _ s₁ H₁ =>
        s₁ = s.awaiting id (.item a index) ∧ H₁ = H) (runs_await id _) (fun hbound => hbound)
        fun _ _ => ⟨rfl, rfl⟩) fun _ s₁ H₁ => ensures_tell_bind ?_
      refine Ensures.bind (ensures_assign (fun _ => rfl) ?_) fun _ s₂ H₂ => hrest ?_
      · rintro ⟨⟨-, hf⟩, rfl, -⟩
        exact hf.writable
      · rintro hbound ⟨⟨⟨hitems, hf⟩, rfl, rfl⟩, rfl, rfl⟩
        exact ⟨hitems, hf.postpone id hbound⟩
    | _ => exact hread

theorem runs_makeArray (s : Loading P) :
    Runs makeArray s (s.realm.instantiate .array).1 (s.withNew .array s.sleepers) :=
  runs_newArray.bind ((runs_keepAlive _).bind (runs_pure _))

/-- What is known of an object that has just been made, and of the state before. -/
structure Opens (r : Realm P) (s : Loading P) (H : Account) (h : Handle) (s' : Loading P)
    (H' : Account) : Prop where
  agrees : Agrees r s' H'
  proceeds : Proceeds r (fun _ => False) s H s' H'
  same : H' = H
  new : New r s' h
  fresh : ¬ s.heap.Issued h
  blank : Blank s' H' h

theorem Agrees.opens (hs : Agrees r s H) (halloc : Allocates s s' h) (hbound : s'.Bounded) :
    Opens r s H h s' H := by
  obtain ⟨hagrees, hproceeds, hnew, hfresh, hblank⟩ := hs.allocates halloc hbound
  exact ⟨hagrees, hproceeds, rfl, hnew, hfresh, hblank⟩

theorem bounded_withNew {c : ClassNumber} {sleepers : List Handle}
    (hbound : (s.withNew c sleepers).Bounded) : s.Bounded :=
  Nat.le_trans (Realm.freely_instantiate c s.realm).heap.capacity_le hbound

theorem isSome_items?_withNew (hs : Agrees r s H) {sleepers : List Handle}
    (hbound : (s.withNew .array sleepers).Bounded) :
    ((s.withNew .array sleepers).heap.items? (s.realm.instantiate .array).1).isSome := by
  have hnature : (s.withNew .array sleepers).heap.nature? (s.realm.instantiate .array).1 = _ :=
    nature?_instantiate (r := s.realm) (c := .array) hs.wellFormed hbound
  obtain ⟨object, hget, hobject⟩ := Option.map_eq_some_iff.1 hnature
  rw [Heap.items?, hget, Option.bind_some]
  obtain ⟨form, fields⟩ := object
  cases form with
  | array items => rfl
  | _ => cases hobject

theorem ensures_rebuildArray (hinner : ReadsWhole r snapshot inner) (items : List Entry) :
    Ensures ((∀ item ∈ items, Grounded r snapshot item) ∧ Agrees r s H)
      (Told.rebuildArray inner items) s H fun a s' H' =>
        Agrees r s' H' ∧ Proceeds r (fun _ => False) s H s' H' ∧
          (s'.lateItems = s.lateItems → Whole r s s' (.object a)) := by
  refine Ensures.bind (ensures_silently_of_runs (Q := fun a b B =>
    Opens r s H a b B ∧ (b.heap.items? a).isSome) (runs_makeArray s) bounded_withNew
    fun hbound ⟨_, hs⟩ => ⟨hs.opens (allocates_withNew s .array _) hbound,
      isSome_items?_withNew hs hbound⟩) fun a b B => ?_
  refine Ensures.bind ((ensures_rebuildItems (b := b) (B := B) hinner 0 items).given ?_)
    fun _ s' H' => ensures_pure ?_
  · rintro - ⟨⟨hitems, -⟩, hopens, harray⟩
    refine ⟨hitems, fun i hi => hopens.blank.waits _ rfl hi, hopens.agrees, ?_, harray,
      fun i hi => absurd hi (Nat.not_lt_zero i), fun i _ => hopens.blank.items i, fun _ i v hv => ?_⟩
    · exact (Proceeds.refl r b B).imp (fun _ h => h.elim) fun p hp => hp ▸ hopens.new
    · rw [hopens.blank.items i] at hv
      cases hv
  · rintro ⟨⟨-, hopens, -⟩, hf⟩
    obtain rfl := hopens.same
    have hmade := hopens.proceeds
    refine ⟨hf.agrees, hmade.making hf.proceeds fun p hp => hp ▸ hopens.fresh, fun hlate => ?_⟩
    have hlate₀ := hmade.late
    have hlate₁ := hf.proceeds.late
    have hsame : s'.lateItems = b.lateItems := by omega
    intro a' ha k hk
    obtain rfl := Value.object.inj ha
    -- what is uncovered is the array, or is uncovered by one of its items
    rcases Relation.ReflTransGen.cases_head hk with rfl | ⟨g, hg, hk⟩
    · refine ⟨(hf.new).1, fun i hi => ?_, fun hissued => absurd hissued hopens.fresh⟩
      exact hf.opened i (hf.proceeds.calm hsame a i hi)
    · obtain ⟨i, hi⟩ := Heap.lists_iff.1 hg
      exact (hf.whole hsame i _ hi).rebase hmade.issued g rfl k hk

end

end Loading

end ScriptBridge
