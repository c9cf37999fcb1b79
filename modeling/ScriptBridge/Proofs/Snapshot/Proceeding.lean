import ScriptBridge.Proofs.Snapshot.Account
import ScriptBridge.Proofs.Snapshot.HalfBuilt
import ScriptBridge.Proofs.Snapshot.Lenient
import ScriptBridge.Proofs.Snapshot.Uncovering

/-!
# How Far a Step of a Load Reaches

A step of a load may write to the place that it is asked to fill, to what it makes itself, and to the
places that wait. Everything else is left alone, so that what has been read into such a place, and
needs nothing any more that waits, stays as it is until the load is over. `Agrees` says how the state
of a load and its account go together, `Proceeds` what a step leaves alone, and `Ensures` what a step
that succeeds brings about.

Main statements: `Resolved.proceeds` (what is resolved remains so), `Proceeds.trans`,
`ensures_announce` and `Agrees.allocates`.
-/

namespace ScriptBridge

open Realm (after)

variable {P : Platform}

namespace Loading

open Snapshot (Entry Node fieldName functionOf?)

/-! ## States and their Accounts -/

/-- A place waits for a node. -/
def Awaits (s : Loading P) (p : Place) : Prop := ∃ id, p ∈ s.waitingFor id

/-- A handle has been given out since the start of a load. -/
def New (r : Realm P) (s : Loading P) (h : Handle) : Prop := s.heap.Issued h ∧ ¬ r.heap.Issued h

/-- A load goes on beside what was there before. -/
structure Beside (r : Realm P) (s : Loading P) : Prop where
  registry : s.realm.registry = r.registry
  singletons : s.realm.singletons = r.singletons
  wellFormed : s.heap.WellFormed
  slotted : s.heap.Slotted
  before : ∀ k, r.heap.Issued k → s.heap.Issued k ∧ s.heap.get? k = r.heap.get? k

/-- The state of a load is as its account says. -/
structure Agrees (r : Realm P) (s : Loading P) (H : Account) : Prop extends Beside r s where
  /-- What waits is part of something new. -/
  waits : ∀ p, s.Awaits p → New r s p.owner
  /-- An item that waits holds null. -/
  null : ∀ a i, s.Awaits (.item a i) → s.heap.at? (.item a i) = some .null
  /-- An item waits for one node only. -/
  single : ∀ a i id id', .item a i ∈ s.waitingFor id → .item a i ∈ s.waitingFor id' → id = id'
  renewals : ∀ h n a, (h, n, a) ∈ s.renewals → s.heap.Issued h
  built : ∀ h n a, .built h n a ∈ H → s.heap.Issued h
  /-- An item that has had to wait still does, or holds the object of the node. -/
  deferred : ∀ id a i, .deferred id a i ∈ H → .item a i ∈ s.waitingFor id ∨
    ∃ target, (id, target) ∈ s.built ∧ s.heap.at? (.item a i) = some (.object target)

/-- Expanding a value, one comes across nothing that is going to change: no item waits, and nothing
is half-built that was there in a state before. -/
def Whole (r : Realm P) (b s : Loading P) (v : Value) : Prop :=
  ∀ a, v = .object a → ∀ k, s.heap.Uncovers a k →
    s.heap.Issued k ∧ (∀ i, ¬ s.Awaits (.item k i)) ∧ (b.heap.Issued k → r.heap.Issued k)

/-- One array has been read for an entry, which is whole unless its property is going to be written
again. -/
structure Noted (r : Realm P) (b s : Loading P) (H : Account) (h : Handle) (n : String)
    (a : Handle) : Prop where
  built : ∀ other, .built h n other ∈ H ↔ other = a
  renewals : ∀ other, (h, n, other) ∈ s.renewals → other = a
  settled : ¬ s.Awaits (.property h n)
  whole : (h, n, a) ∈ s.renewals ∨ Whole r b s (.object a)

/-- The property was handed the array as it is, unless it is going to be written again. -/
structure Resolved (r : Realm P) (b s : Loading P) (H : Account) (h : Handle) (n : String)
    (a : Handle) : Prop extends Noted r b s H h n a where
  handed : (h, n, a) ∈ s.renewals ∨ H.lastHanded h n = some (s.realm.expand (.object a))

/-- No other entry is written to the property of a key. -/
def Alone (entries : List (String × Entry)) (key : String) : Prop :=
  ∀ e ∈ entries, fieldName e = key → e.1 = key

/-- A node has been read into a new object, and all arrays among its entries are resolved. -/
structure Finished (r : Realm P) (b s : Loading P) (H : Account) (h : Handle) (node : Node) :
    Prop where
  new : ¬ b.heap.Issued h
  issued : s.heap.Issued h
  resolved : ∀ key items, (key, .array items) ∈ node.entries.entries →
    Alone node.entries.entries key → ∃ a, Resolved r b s H h key a

/-- What a step leaves alone that writes to some places only, beside those that wait and those of new
objects. -/
structure Proceeds (r : Realm P) (X : Place → Prop) (s : Loading P) (H : Account) (s' : Loading P)
    (H' : Account) : Prop where
  within : ∀ p, X p → New r s p.owner
  issued : ∀ k, s.heap.Issued k → s'.heap.Issued k
  nature : ∀ k, s.heap.Issued k → s'.heap.nature? k = s.heap.nature? k
  late : s.lateItems ≤ s'.lateItems
  calm : s'.lateItems = s.lateItems → ∀ a i, s'.Awaits (.item a i) → s.Awaits (.item a i)
  awaits : ∀ p, ¬ X p → s.heap.Issued p.owner → s'.Awaits p → s.Awaits p
  item : ∀ a i, ¬ X (.item a i) → s.heap.Issued a → ¬ s.Awaits (.item a i) →
    s'.heap.at? (.item a i) = s.heap.at? (.item a i)
  holds : ∀ a i, ¬ X (.item a i) → s.heap.at? (.item a i) ≠ none → s'.heap.at? (.item a i) ≠ none
  handed : ∀ h n, ¬ X (.property h n) → s.heap.Issued h → ¬ s.Awaits (.property h n) →
    H'.lastHanded h n = H.lastHanded h n
  built : ∀ h n a, ¬ X (.property h n) → s.heap.Issued h → (.built h n a ∈ H' ↔ .built h n a ∈ H)
  renewals : ∀ h n a, ¬ X (.property h n) → s.heap.Issued h →
    ((h, n, a) ∈ s'.renewals ↔ (h, n, a) ∈ s.renewals)
  filled : ∀ h node, .filled h node ∈ H' → .filled h node ∈ H ∨ Finished r s s' H' h node

section

variable {r : Realm P} {X Y : Place → Prop} {b s s₁ s' : Loading P} {H H₁ H' : Account} {h k : Handle}
  {n : String} {a : Handle} {v : Value} {node : Node}

theorem issued_of_at? {heap : Heap P} {p : Place} (h : heap.at? p ≠ none) :
    heap.Issued p.owner := by
  obtain ⟨v, hat⟩ := Option.ne_none_iff_exists'.1 h
  obtain ⟨object, hget, -⟩ := Option.bind_eq_some_iff.1 hat
  exact Heap.issued_of_get? hget

/-! ## What is Whole -/

/-- What is whole is left alone by a step that writes to what was there in the state before. -/
theorem Whole.items?_eq (hv : Whole r b s v) (hp : Proceeds r X s H s' H')
    (hX : ∀ p, X p → b.heap.Issued p.owner) (ha : v = .object a) (hk : s.heap.Uncovers a k) :
    s'.heap.items? k = s.heap.items? k := by
  obtain ⟨hissued, hwaits, hbefore⟩ := hv a ha k hk
  refine Heap.items?_congr (hp.nature k hissued) fun i => hp.item k i (fun hi => ?_) hissued (hwaits i)
  exact (hp.within _ hi).2 (hbefore (hX _ hi))

theorem Whole.proceeds (hv : Whole r b s v) (hp : Proceeds r X s H s' H')
    (hX : ∀ p, X p → b.heap.Issued p.owner) : Whole r b s' v := by
  intro a ha k hk
  have hbefore := Heap.uncovers_of_items?_eq (fun _ => hv.items?_eq hp hX ha) hk
  obtain ⟨hissued, hwaits, hold⟩ := hv a ha k hbefore
  refine ⟨hp.issued k hissued, fun i hi => hwaits i ?_, hold⟩
  exact hp.awaits _ (fun hX' => (hp.within _ hX').2 (hold (hX _ hX'))) hissued hi

theorem expand_congr (hslotted : s.heap.Slotted) (hinline : v.isInline = false)
    (hsame : ∀ a, v = .object a → ∀ k, s.heap.Uncovers a k → s'.heap.items? k = s.heap.items? k) :
    s'.realm.expand v = s.realm.expand v :=
  Heap.expandOn_congr (Heap.unfolds hslotted [] hinline) hsame

theorem Whole.expand_eq (hv : Whole r b s (.object a)) (hslotted : s.heap.Slotted)
    (hp : Proceeds r X s H s' H') (hX : ∀ p, X p → b.heap.Issued p.owner) :
    s'.realm.expand (.object a) = s.realm.expand (.object a) :=
  expand_congr hslotted rfl fun _ hb _ hk => hv.items?_eq hp hX hb hk

/-- A value that is whole for a later state is so for an earlier one. -/
theorem Whole.rebase (hv : Whole r s₁ s v) (hissued : ∀ k, b.heap.Issued k → s₁.heap.Issued k) :
    Whole r b s v := by
  intro a ha k hk
  obtain ⟨hk', hwaits, hold⟩ := hv a ha k hk
  exact ⟨hk', hwaits, fun hb => hold (hissued k hb)⟩

theorem Resolved.rebase (h : Resolved r s₁ s H k n a)
    (hissued : ∀ k, b.heap.Issued k → s₁.heap.Issued k) : Resolved r b s H k n a :=
  { h with whole := h.whole.imp id fun hwhole => hwhole.rebase hissued }

/-- What is resolved remains so. -/
theorem Resolved.proceeds (hres : Resolved r b s H h n a) (hslotted : s.heap.Slotted)
    (hp : Proceeds r X s H s' H') (hX : ∀ p, X p → b.heap.Issued p.owner)
    (hn : ¬ X (.property h n)) (hh : s.heap.Issued h) : Resolved r b s' H' h n a where
  built other := (hp.built h n other hn hh).trans (hres.built other)
  renewals other hother := hres.renewals other ((hp.renewals h n other hn hh).1 hother)
  settled hwaits := hres.settled (hp.awaits _ hn hh hwaits)
  whole := hres.whole.imp (hp.renewals h n a hn hh).2 fun hwhole => hwhole.proceeds hp hX
  handed := by
    rcases hres.whole with hrenewed | hwhole
    · exact Or.inl ((hp.renewals h n a hn hh).2 hrenewed)
    · refine hres.handed.imp (hp.renewals h n a hn hh).2 fun hhanded => ?_
      rw [hp.handed h n hn hh hres.settled, hwhole.expand_eq hslotted hp hX]
      exact hhanded

/-! ## One Step after Another -/

theorem Proceeds.refl (r : Realm P) (s : Loading P) (H : Account) :
    Proceeds r (fun _ => False) s H s H where
  within _ h := h.elim
  issued _ h := h
  nature _ _ := rfl
  late := Nat.le_refl _
  calm _ _ _ h := h
  awaits _ _ _ h := h
  item _ _ _ _ _ := rfl
  holds _ _ _ h := h
  handed _ _ _ _ _ := rfl
  built _ _ _ _ _ := Iff.rfl
  renewals _ _ _ _ _ := Iff.rfl
  filled _ _ h := Or.inl h

theorem Proceeds.imp (h : Proceeds r X s H s' H') (hsub : ∀ p, X p → Y p)
    (hY : ∀ p, Y p → New r s p.owner) : Proceeds r Y s H s' H' where
  within := hY
  issued := h.issued
  nature := h.nature
  late := h.late
  calm := h.calm
  awaits p hp := h.awaits p fun hX => hp (hsub p hX)
  item a i hp := h.item a i fun hX => hp (hsub _ hX)
  holds a i hp := h.holds a i fun hX => hp (hsub _ hX)
  handed k n hp := h.handed k n fun hX => hp (hsub _ hX)
  built k n a hp := h.built k n a fun hX => hp (hsub _ hX)
  renewals k n a hp := h.renewals k n a fun hX => hp (hsub _ hX)
  filled := h.filled

/-- What the first step has made does not count as having been there. -/
theorem Proceeds.comp (h : Proceeds r X s H s₁ H₁) (h' : Proceeds r Y s₁ H₁ s' H')
    (hY : ∀ p, Y p → s.heap.Issued p.owner → X p)
    (hfilled : ∀ k node, .filled k node ∈ H' → .filled k node ∈ H ∨ Finished r s s' H' k node) :
    Proceeds r X s H s' H' where
  within := h.within
  issued k hk := h'.issued k (h.issued k hk)
  nature k hk := (h'.nature k (h.issued k hk)).trans (h.nature k hk)
  late := Nat.le_trans h.late h'.late
  calm hsame a i hi := by
    have hlate := h.late
    have hlate' := h'.late
    exact h.calm (by omega) a i (h'.calm (by omega) a i hi)
  awaits p hp hk hi := h.awaits p hp hk (h'.awaits p (fun hy => hp (hY p hy hk)) (h.issued _ hk) hi)
  item a i hp hk hi :=
    (h'.item a i (fun hy => hp (hY _ hy hk)) (h.issued _ hk)
      fun hi' => hi (h.awaits _ hp hk hi')).trans (h.item a i hp hk hi)
  holds a i hp hat :=
    h'.holds a i (fun hy => hp (hY _ hy (issued_of_at? hat))) (h.holds a i hp hat)
  handed k n hp hk hi :=
    (h'.handed k n (fun hy => hp (hY _ hy hk)) (h.issued _ hk)
      fun hi' => hi (h.awaits _ hp hk hi')).trans (h.handed k n hp hk hi)
  built k n a hp hk :=
    (h'.built k n a (fun hy => hp (hY _ hy hk)) (h.issued _ hk)).trans (h.built k n a hp hk)
  renewals k n a hp hk :=
    (h'.renewals k n a (fun hy => hp (hY _ hy hk)) (h.issued _ hk)).trans (h.renewals k n a hp hk)
  filled := hfilled

theorem Proceeds.trans (h : Proceeds r X s H s₁ H₁) (h' : Proceeds r X s₁ H₁ s' H')
    (hslotted : s₁.heap.Slotted) : Proceeds r X s H s' H' := by
  refine h.comp h' (fun p hp _ => hp) fun k node hmem => ?_
  rcases h'.filled k node hmem with hmem | hfinished
  -- a node that the first step has finished is not touched by the second one
  · refine (h.filled k node hmem).imp id fun hfinished => ⟨hfinished.new, h'.issued k hfinished.issued,
      fun key items hentry halone => ?_⟩
    obtain ⟨a, hres⟩ := hfinished.resolved key items hentry halone
    have hX : ∀ p, X p → s.heap.Issued p.owner := fun p hp => (h.within p hp).1
    exact ⟨a, hres.proceeds hslotted h' hX (fun hp => hfinished.new (hX _ hp)) hfinished.issued⟩
  · right
    refine ⟨fun hk => hfinished.new (h.issued k hk), hfinished.issued, fun key items hentry halone => ?_⟩
    obtain ⟨a, hres⟩ := hfinished.resolved key items hentry halone
    exact ⟨a, hres.rebase h.issued⟩

/-- The first step does nothing but make what the second one writes to. -/
theorem Proceeds.making (h : Proceeds r (fun _ => False) s H s₁ H)
    (h' : Proceeds r Y s₁ H s' H') (hY : ∀ p, Y p → ¬ s.heap.Issued p.owner) :
    Proceeds r (fun _ => False) s H s' H' := by
  refine h.comp h' (fun p hp hk => hY p hp hk) fun k node hmem => ?_
  refine (h'.filled k node hmem).imp id fun hfinished => ⟨fun hk => hfinished.new (h.issued k hk),
    hfinished.issued, fun key items hentry halone => ?_⟩
  obtain ⟨a, hres⟩ := hfinished.resolved key items hentry halone
  exact ⟨a, hres.rebase h.issued⟩

end

/-! ## What a Step Ensures -/

namespace Told

/-- If a step succeeds and something is the case at its start, something is the case at its end, as
long as 32 bits tell the slots apart. -/
def Ensures {α : Type} (pre : Prop) (told : ToldM P α) (s : Loading P) (H : Account)
    (Q : α → Loading P → Account → Prop) : Prop :=
  ∀ answer s' H', Runs (told.run H) s (answer, H') s' → s'.Bounded →
    s.Bounded ∧ (pre → Q answer s' H')

section

variable {α β : Type} {pre pre' : Prop} {s : Loading P} {H : Account}
  {Q Q' : α → Loading P → Account → Prop}

theorem ensures_pure {answer : α} (h : pre → Q answer s H) :
    Ensures pre (pure answer) s H Q := by
  intro answer' s' H' hrun hbound
  have hrun' : Runs (pure (answer, H)) s (answer', H') s' := hrun
  obtain ⟨hanswer, rfl⟩ := Prod.mk.inj hrun'
  obtain ⟨rfl, rfl⟩ := Prod.mk.inj (Except.ok.inj hanswer)
  exact ⟨hbound, h⟩

theorem Ensures.imp {told : ToldM P α} (h : Ensures pre' told s H Q')
    (hpre : s.Bounded → pre → pre')
    (hpost : ∀ answer s' H', s'.Bounded → pre → Q' answer s' H' → Q answer s' H') :
    Ensures pre told s H Q := by
  intro answer s' H' hrun hbound
  obtain ⟨hbefore, hensured⟩ := h answer s' H' hrun hbound
  exact ⟨hbefore, fun hp => hpost answer s' H' hbound hp (hensured (hpre hbefore hp))⟩

theorem Ensures.given {told : ToldM P α} (h : Ensures pre' told s H Q)
    (hpre : s.Bounded → pre → pre') : Ensures pre told s H Q :=
  h.imp hpre fun _ _ _ _ _ hq => hq

/-- One step after another. What was the case at the start of the first one is still known. -/
theorem Ensures.bind {told : ToldM P α} {next : α → ToldM P β}
    {Q' : β → Loading P → Account → Prop} (h : Ensures pre told s H Q)
    (h' : ∀ answer s' H', Ensures (pre ∧ Q answer s' H') (next answer) s' H' Q') :
    Ensures pre (told >>= next) s H Q' := by
  intro answer s' H' hrun hbound
  rw [StateT.run_bind] at hrun
  obtain ⟨⟨a, H₁⟩, s₁, hfirst, hrest⟩ := Realm.exists_of_run_bind hrun
  obtain ⟨hbound₁, hensured⟩ := h' a s₁ H₁ answer s' H' hrest hbound
  obtain ⟨hbound₀, hmiddle⟩ := h a s₁ H₁ hfirst hbound₁
  exact ⟨hbound₀, fun hp => hensured ⟨hp, hmiddle hp⟩⟩

theorem ensures_silently {step : LoadingM P α}
    (h : ∀ answer s', Runs step s answer s' → s'.Bounded →
      s.Bounded ∧ (pre → Q answer s' H)) : Ensures pre (silently step) s H Q := by
  intro answer s' H' hrun hbound
  have hlift : (silently step).run H = step >>= fun answer => pure (answer, H) := rfl
  rw [hlift] at hrun
  obtain ⟨a, s₁, hfirst, hrest⟩ := Realm.exists_of_run_bind hrun
  obtain ⟨hanswer, rfl⟩ := Prod.mk.inj hrest
  obtain ⟨rfl, rfl⟩ := Prod.mk.inj (Except.ok.inj hanswer)
  exact h a s₁ hfirst hbound

/-- A step of which it is known how it goes. -/
theorem ensures_silently_of_runs {step : LoadingM P α} {answer : α} {s' : Loading P}
    (hrun : Runs step s answer s') (hbound : s'.Bounded → s.Bounded)
    (h : s'.Bounded → pre → Q answer s' H) : Ensures pre (silently step) s H Q := by
  apply ensures_silently
  intro answer' s'' hrun' hbound'
  obtain ⟨hanswer, rfl⟩ := Prod.mk.inj (hrun.symm.trans hrun')
  obtain rfl := Except.ok.inj hanswer
  exact ⟨hbound hbound', h hbound'⟩

theorem ensures_tell {event : Event} {Q : PUnit → Loading P → Account → Prop}
    (h : pre → Q ⟨⟩ s (event :: H)) : Ensures pre (tell event) s H Q := by
  intro answer s' H' hrun hbound
  have hrun' : Runs (pure (PUnit.unit, event :: H)) s (answer, H') s' := hrun
  obtain ⟨hanswer, rfl⟩ := Prod.mk.inj hrun'
  obtain ⟨rfl, rfl⟩ := Prod.mk.inj (Except.ok.inj hanswer)
  exact ⟨hbound, h⟩

theorem ensures_tell_bind {event : Event} {next : PUnit → ToldM P α}
    (h : Ensures pre (next ⟨⟩) s (event :: H) Q) : Ensures pre (tell event >>= next) s H Q := h

theorem ensures_throw {error : SnapshotError} : Ensures pre (silently (throw error)) s H Q :=
  ensures_silently fun _ _ hrun => nomatch (Prod.mk.inj hrun).1

theorem ensures_throw_bind {error : SnapshotError} {next : β → ToldM P α} :
    Ensures pre (silently (throw error) >>= next) s H Q :=
  fun _ _ _ hrun => nomatch (Prod.mk.inj hrun).1

theorem ensures_get_bind {next : Loading P → ToldM P α} (h : Ensures pre (next s) s H Q) :
    Ensures pre (silently get >>= next) s H Q := h

theorem ensures_ask_bind {question : Realm P → β} {next : β → ToldM P α}
    (h : Ensures pre (next (question s.realm)) s H Q) :
    Ensures pre (silently (ask question) >>= next) s H Q := h

end

end Told

open Told (Ensures ensures_pure ensures_silently ensures_silently_of_runs ensures_tell
  ensures_tell_bind ensures_throw ensures_throw_bind ensures_get_bind ensures_ask_bind)

/-! ## Writing -/

@[simp] theorem Account.lastHanded_handed (H : Account) (h k : Handle) (n m : String) (v : Value) :
    Account.lastHanded (.handed k m v :: H) h n =
      if k = h ∧ m = n then some v else H.lastHanded h n := by
  unfold Account.lastHanded
  rw [List.findSome?_cons]
  split
  · next heq => split at heq <;> simp_all
  · next heq => split at heq <;> simp_all

/-- A step that does nothing but write to some places, and tells what it has handed to properties
among them. -/
structure Writes (W : Place → Prop) (s : Loading P) (H : Account) (s' : Loading P)
    (H' : Account) : Prop where
  built : s'.built = s.built
  waiting : s'.waiting = s.waiting
  lateItems : s'.lateItems = s.lateItems
  renewals : s'.renewals = s.renewals
  evolves : Realm.Evolves s.realm s'.realm
  alters : Realm.Alters (fun k => ∃ p, W p ∧ p.owner = k) (fun _ => False) s.realm s'.realm
  item : ∀ a i, ¬ W (.item a i) → s'.heap.at? (.item a i) = s.heap.at? (.item a i)
  handed : ∀ h n, ¬ W (.property h n) → H'.lastHanded h n = H.lastHanded h n
  told : ∀ event, (∀ h n v, event ≠ .handed h n v) → (event ∈ H' ↔ event ∈ H)

section

variable {r : Realm P} {W W' X : Place → Prop} {s s₀ s₁ s' : Loading P} {H H₁ H' : Account}
  {h a : Handle} {n : String} {v : Value} {i : Nat} {pre : Prop}

theorem Writes.refl (W : Place → Prop) (s : Loading P) (H : Account) : Writes W s H s H :=
  ⟨rfl, rfl, rfl, rfl, .refl _, .refl _, fun _ _ _ => rfl, fun _ _ _ => rfl, fun _ _ => Iff.rfl⟩

theorem Writes.imp (h : Writes W s H s' H') (hsub : ∀ p, W p → W' p) : Writes W' s H s' H' :=
  { h with
    alters := h.alters.imp (fun _ ⟨p, hp, ho⟩ => ⟨p, hsub p hp, ho⟩) fun _ hfalse => hfalse
    item := fun a i hp => h.item a i fun hW => hp (hsub _ hW)
    handed := fun k n hp => h.handed k n fun hW => hp (hsub _ hW) }

theorem Writes.trans (h : Writes W s H s₁ H₁) (h' : Writes W s₁ H₁ s' H') : Writes W s H s' H' where
  built := h'.built.trans h.built
  waiting := h'.waiting.trans h.waiting
  lateItems := h'.lateItems.trans h.lateItems
  renewals := h'.renewals.trans h.renewals
  evolves := h.evolves.trans h'.evolves
  alters := h.alters.trans h'.alters
  item a i hp := (h'.item a i hp).trans (h.item a i hp)
  handed k n hp := (h'.handed k n hp).trans (h.handed k n hp)
  told event hevent := (h'.told event hevent).trans (h.told event hevent)

theorem Writes.bounded (h : Writes W s H s' H') (hbound : s'.Bounded) : s.Bounded :=
  Nat.le_trans h.alters.heap.capacity_le hbound

theorem Writes.waitingFor (h : Writes W s H s' H') (id : String) :
    s'.waitingFor id = s.waitingFor id := by
  rw [Loading.waitingFor, h.waiting, Loading.waitingFor]

theorem Writes.awaits (h : Writes W s H s' H') (p : Place) : s'.Awaits p ↔ s.Awaits p := by
  unfold Awaits
  simp only [h.waitingFor]

/-- What is handed to a property is what it is written, with the items of arrays. -/
theorem writes_hand (hinline : v.isInline = false) (hW : W (.property h n))
    (hitems : Realm.NoLength v ∨ ∀ i, W (.item h i)) :
    Writes W s H { s with realm := after (Realm.putProperty h n v true) s.realm }
      (.handed h n (s.realm.expand v) :: H) where
  built := rfl
  waiting := rfl
  lateItems := rfl
  renewals := rfl
  evolves := Realm.evolves_putProperty h n v true s.realm
  alters := Realm.alters_putProperty ⟨_, hW, rfl⟩ n (Or.inl hinline) true s.realm
  item a i hp := by
    show (after (Realm.putProperty h n v true) s.realm).heap.at? _ = s.realm.heap.at? _
    rw [Heap.at?_item, Heap.at?_item]
    rcases Realm.items?_putProperty (r := s.realm) (h := h) hinline n true a with hsame | ⟨rfl, hlength, -⟩
    · rw [hsame]
    · exact absurd (hitems.resolve_left hlength i) hp
  handed k m hp := by
    rw [Account.lastHanded_handed, if_neg]
    rintro ⟨rfl, rfl⟩
    exact hp hW
  told event hevent := by
    rw [List.mem_cons]
    exact or_iff_right (hevent _ _ _)

theorem state_of_write (hrun : Runs (write h n v) s () s') :
    s' = { s with realm := after (Realm.putProperty h n v true) s.realm } := by
  obtain ⟨outcome, s₁, hattempt, hrest⟩ := Realm.exists_of_run_bind hrun
  obtain ⟨-, rfl⟩ := Prod.mk.inj hattempt
  cases outcome with
  | ok answer => exact (Prod.mk.inj hrest).2.symm
  | error error =>
    obtain ⟨strict, s₂, hask, hlast⟩ := Realm.exists_of_run_bind hrest
    obtain ⟨-, rfl⟩ := Prod.mk.inj hask
    cases strict with
    | true => exact nomatch (Prod.mk.inj hlast).1
    | false => exact (Prod.mk.inj hlast).2.symm

theorem state_of_writeFirst {entry : Entry} (hrun : Runs (writeFirst h n entry v) s () s') :
    s' = { s with realm := after (Realm.putProperty h n v true) s.realm } := by
  cases entry with
  | stub id =>
    obtain ⟨outcome, s₁, hattempt, hrest⟩ := Realm.exists_of_run_bind hrun
    obtain ⟨-, rfl⟩ := Prod.mk.inj hattempt
    exact (Prod.mk.inj hrest).2.symm
  | _ => exact state_of_write hrun

theorem ensures_hand {step : LoadingM P Unit}
    (hstep : ∀ s', Runs step s () s' →
      s' = { s with realm := after (Realm.putProperty h n v true) s.realm }) :
    Ensures pre (Told.hand h n v step) s H fun _ s' H' =>
      s' = { s with realm := after (Realm.putProperty h n v true) s.realm } ∧
        H' = .handed h n (s.realm.expand v) :: H := by
  refine ensures_ask_bind (ensures_tell_bind (ensures_silently fun _ s' hrun hbound => ?_))
  obtain rfl := hstep s' hrun
  have halters : Realm.Freely s.realm (after (Realm.putProperty h n v true) s.realm) :=
    Realm.alters_putProperty trivial n (Or.inr Heap.stores_freely) true s.realm
  exact ⟨Nat.le_trans halters.heap.capacity_le hbound, fun _ => ⟨rfl, rfl⟩⟩

end

section

variable {r : Realm P} {W X : Place → Prop} {s s₀ s' : Loading P} {H H' : Account}
  {h a target : Handle} {n : String} {v : Value} {i : Nat} {p : Place} {pre : Prop}

/-- An item that an array holds can be written. -/
theorem writable_of_at? {heap : Heap P} (hat : heap.at? (.item a i) ≠ none) :
    heap.Writable (.item a i) := by
  obtain ⟨v, hv⟩ := Option.ne_none_iff_exists'.1 hat
  rw [Heap.at?_item] at hv
  obtain ⟨items, hitems, hi⟩ := Option.bind_eq_some_iff.1 hv
  obtain ⟨fields, hget⟩ := Heap.get?_of_items? hitems
  exact ⟨items, fields, hget, Nat.le_of_lt (Array.getElem?_eq_some_iff.1 hi).1⟩

theorem state_of_assign (hrun : Runs (discard (perform (Realm.assignElement a i v))) s () s') :
    s' = { s with realm := after (Realm.assignElement a i v) s.realm } := by
  obtain ⟨accepted, s₁, hperform, hrest⟩ := Realm.exists_of_run_bind hrun
  obtain ⟨outcome, s₂, hattempt, hanswer⟩ := Realm.exists_of_run_bind hperform
  obtain ⟨-, rfl⟩ := Prod.mk.inj hattempt
  obtain ⟨-, rfl⟩ := Prod.mk.inj hrest
  cases outcome with
  | ok answer => exact (Prod.mk.inj hanswer).2.symm
  | error error => exact nomatch (Prod.mk.inj hanswer).1

theorem after_assignElement (hinline : v.isInline = false) (hp : s.heap.Writable (.item a i)) :
    after (Realm.assignElement a i v) s.realm = s.realm.put (.item a i) v :=
  congrArg Prod.snd (Realm.run_assignElement hp hinline)

theorem writes_put (hinline : v.isInline = false) (hp : s.heap.Writable (.item a i))
    (hW : W (.item a i)) : Writes W s H (s.put (.item a i) v) H where
  built := rfl
  waiting := rfl
  lateItems := rfl
  renewals := rfl
  evolves := by
    have hevolves := Realm.evolves_assignElement a i v s.realm
    rwa [after_assignElement hinline hp] at hevolves
  alters := by
    have halters : Realm.Alters (fun k => ∃ p, W p ∧ p.owner = k) (fun _ => False) s.realm
        (after (Realm.assignElement a i v) s.realm) :=
      Realm.alters_assignElement ⟨_, hW, rfl⟩ i (Or.inl hinline) s.realm
    rwa [after_assignElement hinline hp] at halters
  item b j hj := Heap.at?_put_of_ne hp fun heq => hj (heq ▸ hW)
  handed _ _ _ := rfl
  told _ _ := Iff.rfl

theorem ensures_assign (hinline : pre → v.isInline = false)
    (hp : pre → s.heap.Writable (.item a i)) :
    Ensures pre (Told.silently (discard (perform (Realm.assignElement a i v)))) s H fun _ s' H' =>
      s' = s.put (.item a i) v ∧ H' = H := by
  apply ensures_silently
  intro _ s' hrun hbound
  obtain rfl := state_of_assign hrun
  have halters : Realm.Freely s.realm (after (Realm.assignElement a i v) s.realm) :=
    Realm.alters_assignElement trivial i (Or.inr Heap.stores_freely) s.realm
  refine ⟨Nat.le_trans halters.heap.capacity_le hbound, fun hpre => ⟨?_, rfl⟩⟩
  rw [after_assignElement (hinline hpre) (hp hpre)]
  rfl

/-- Some places are served, each of which holds the object afterwards if it is an item. -/
structure Serves (target : Handle) (places : List Place) (s : Loading P) (H : Account)
    (s' : Loading P) (H' : Account) : Prop where
  writes : Writes (· ∈ places) s H s' H'
  target : ∀ a i, .item a i ∈ places → s'.heap.at? (.item a i) = some (.object target)

theorem ensures_settle (target : Handle) (hp : pre → ∀ a i, p = .item a i → s.heap.at? p ≠ none) :
    Ensures pre (Told.settle target p) s H fun _ s' H' => Serves target [p] s H s' H' := by
  cases p with
  | property owner name =>
    have hstep : ∀ s', Runs (write owner name (.object target)) s () s' → _ := fun _ => state_of_write
    refine Ensures.imp (ensures_hand hstep) (fun _ hpre => hpre) ?_
    rintro _ s' H' - - ⟨rfl, rfl⟩
    exact ⟨writes_hand rfl List.mem_cons_self (Or.inl (Realm.noLength_object target)),
      fun a i hi => by simp at hi⟩
  | item array index =>
    have hplace : pre → s.heap.Writable (.item array index) :=
      fun hpre => writable_of_at? (hp hpre array index rfl)
    refine (ensures_assign (v := .object target) (fun _ => rfl) hplace).imp (fun _ hpre => hpre) ?_
    rintro _ s' H' - hpre ⟨rfl, rfl⟩
    refine ⟨writes_put rfl (hplace hpre) List.mem_cons_self, fun a i hi => ?_⟩
    obtain ⟨rfl, rfl⟩ := Place.item.inj (List.mem_singleton.1 hi)
    exact Heap.at?_put_self (hplace hpre)

theorem ensures_settleEach (target : Handle) {places : List Place}
    (hplaces : pre → ∀ a i, .item a i ∈ places → s.heap.at? (.item a i) ≠ none) :
    Ensures pre (places.forM (Told.settle target)) s H fun _ s' H' =>
      Serves target places s H s' H' := by
  induction places generalizing pre s H with
  | nil => exact ensures_pure fun _ => ⟨.refl _ _ _, fun a i hi => by simp at hi⟩
  | cons p places ih =>
    have hfirst : pre → ∀ a i, p = .item a i → s.heap.at? p ≠ none := by
      rintro hpre a i rfl
      exact hplaces hpre a i List.mem_cons_self
    refine (ensures_settle target hfirst).bind fun _ s₁ H₁ => (ih ?_).imp (fun _ hpre => hpre) ?_
    · rintro ⟨hpre, hserves⟩ a i hi
      by_cases hip : .item a i ∈ [p]
      · rw [hserves.target a i hip]
        exact Option.some_ne_none _
      · rw [hserves.writes.item a i hip]
        exact hplaces hpre a i (List.mem_cons_of_mem _ hi)
    · rintro _ s' H' - ⟨-, hserves⟩ hrest
      refine ⟨(hserves.writes.imp fun q hq => ?_).trans (hrest.writes.imp fun q hq => ?_), ?_⟩
      · exact List.mem_cons.2 (Or.inl (List.mem_singleton.1 hq))
      · exact List.mem_cons_of_mem _ hq
      -- what the others overwrite holds the same afterwards
      · intro a i hi
        by_cases hlater : .item a i ∈ places
        · exact hrest.target a i hlater
        · rw [hrest.writes.item a i hlater]
          have hhere : .item a i = p := (List.mem_cons.1 hi).resolve_right hlater
          exact hserves.target a i (hhere ▸ List.mem_cons_self)

/-! ## What Stays in Order -/

theorem New.mono (h : New r s a) (hissued : ∀ k, s.heap.Issued k → s'.heap.Issued k) :
    New r s' a := ⟨hissued a h.1, h.2⟩

/-- Only what is new is edited, so a load goes on beside what was there. -/
theorem Beside.changes {edits : Handle → Prop} {makes : ScriptObject P → Prop} (h : Beside r s)
    (hevolves : Realm.Evolves s.realm s'.realm) (hsingletons : s'.realm.singletons = s.realm.singletons)
    (hchanges : s.heap.Changes edits makes s'.heap) (hedits : ∀ k, edits k → ¬ r.heap.Issued k)
    (hbound : s'.Bounded) : Beside r s' := by
  obtain ⟨hwf, hslotted⟩ := hevolves.heap.sound h.wellFormed h.slotted hbound
  refine ⟨hevolves.registry.trans h.registry, hsingletons.trans h.singletons, hwf, hslotted,
    fun k hk => ?_⟩
  obtain ⟨hissued, hget⟩ := h.before k hk
  obtain ⟨hissued', hget'⟩ :=
    hchanges.get?_of_issued h.wellFormed hbound hissued fun hedit => hedits k hedit hk
  exact ⟨hissued', hget'.trans hget⟩

/-- A handle that has been given out leads to the same kind of object, or to none as before. -/
theorem nature?_of_issued {heap heap' : Heap P} {edits : Handle → Prop}
    {makes : ScriptObject P → Prop} (hchanges : heap.Changes edits makes heap')
    (hwf : heap.WellFormed) (hbound : heap'.capacity ≤ UInt32.size) {k : Handle}
    (hk : heap.Issued k) : heap'.nature? k = heap.nature? k := by
  refine (hchanges.induct (I := fun other => other.Issued k ∧ other.nature? k = heap.nature? k) hwf
    hbound ⟨hk, rfl⟩ ?_).2.2
  rintro x y hchange hwf hbound ⟨hissued, hnature⟩
  refine ⟨hchange.issued hwf hbound hissued, ?_⟩
  rw [← hnature]
  rcases hchange.get?_cases hwf hbound k with hsame | ⟨-, o, o', ho, ho', hstays⟩ | ⟨hnew, -⟩
  · rw [Heap.nature?, hsame, Heap.nature?]
  · rw [Heap.nature?, ho', Heap.nature?, ho, Option.map_some, Option.map_some, hstays]
  · exact absurd hissued hnew

/-- A state that differs from another one in what waits only. -/
structure Rests (X : Place → Prop) (s s₀ : Loading P) : Prop where
  realm : s₀.realm = s.realm
  renewals : s₀.renewals = s.renewals
  late : s.lateItems ≤ s₀.lateItems
  calm : s₀.lateItems = s.lateItems → ∀ a i, s₀.Awaits (.item a i) → s.Awaits (.item a i)
  awaits : ∀ p, ¬ X p → s₀.Awaits p → s.Awaits p

theorem Rests.refl (X : Place → Prop) (s : Loading P) : Rests X s s :=
  ⟨rfl, rfl, Nat.le_refl _, fun _ _ _ h => h, fun _ _ h => h⟩

theorem Rests.heap (h : Rests X s s₀) : s₀.heap = s.heap := congrArg Realm.heap h.realm

theorem Rests.wellFormed (h : Rests X s s₀) (hs : Beside r s) : s₀.realm.heap.WellFormed := by
  rw [h.realm]
  exact hs.wellFormed

/-- A step that writes leaves everything else alone. -/
theorem Writes.proceeds (hwrites : Writes W s₀ H s' H') (hrests : Rests X s s₀) (hs : Beside r s)
    (hX : ∀ p, X p → New r s p.owner) (hW : ∀ p, W p → X p ∨ s.Awaits p)
    (hholds : ∀ a i, W (.item a i) → X (.item a i) ∨ s'.heap.at? (.item a i) ≠ none)
    (hbound : s'.Bounded) : Proceeds r X s H s' H' where
  within := hX
  issued k hk := by
    rw [← hrests.heap] at hk
    exact hwrites.alters.heap.issued (hrests.wellFormed hs) hbound hk
  nature k hk := by
    rw [← hrests.heap] at hk ⊢
    exact nature?_of_issued hwrites.alters.heap (hrests.wellFormed hs) hbound hk
  late := hwrites.lateItems ▸ hrests.late
  calm hsame a i hi := hrests.calm (hwrites.lateItems ▸ hsame) a i ((hwrites.awaits _).1 hi)
  awaits p hp _ hi := hrests.awaits p hp ((hwrites.awaits p).1 hi)
  item a i hp _ hi := by
    rw [← hrests.heap]
    exact hwrites.item a i fun hW' => (hW _ hW').elim hp hi
  holds a i hp hat := by
    by_cases hW' : W (.item a i)
    · exact (hholds a i hW').resolve_left hp
    · rw [hwrites.item a i hW', hrests.heap]
      exact hat
  handed k m hp _ hi := hwrites.handed k m fun hW' => (hW _ hW').elim hp hi
  built k m a _ _ := hwrites.told _ fun _ _ _ => Event.noConfusion
  renewals k m a _ _ := by rw [hwrites.renewals, hrests.renewals]
  filled k node hmem := Or.inl ((hwrites.told _ fun _ _ _ => Event.noConfusion).1 hmem)

end

/-! ## Serving -/

section

variable {r : Realm P} {X : Place → Prop} {s s' : Loading P} {H H' : Account}
  {h a target : Handle} {n id : String} {v : Value} {i : Nat} {p : Place} {pre : Prop}

theorem awaits_of_met (h : (s.met (some id) target).Awaits p) : s.Awaits p := by
  obtain ⟨other, hp⟩ := h
  rw [waitingFor_met] at hp
  split at hp
  · simp at hp
  · exact ⟨other, hp⟩

theorem rests_met (X : Place → Prop) (s : Loading P) (id : String) (target : Handle) :
    Rests X s (s.met (some id) target) :=
  ⟨rfl, rfl, Nat.le_refl _, fun _ _ _ => awaits_of_met, fun _ _ => awaits_of_met⟩

/-- The items that wait for a node hold its object as soon as it is met. -/
theorem Agrees.announced (hs : Agrees r s H)
    (hserves : Serves target (s.waitingFor id) (s.met (some id) target) H s' H') (hbound : s'.Bounded) :
    Agrees r s' H' ∧ Proceeds r (fun _ => False) s H s' H' := by
  have hwrites := hserves.writes
  have hproceeds : Proceeds r (fun _ => False) s H s' H' := by
    refine hwrites.proceeds (rests_met _ s id target) hs.toBeside (fun _ h => h.elim)
      (fun p hp => Or.inr ⟨id, hp⟩) (fun a i hi => Or.inr ?_) hbound
    rw [hserves.target a i hi]
    exact Option.some_ne_none _
  have hawaits : ∀ p, s'.Awaits p → s.Awaits p := fun p hp => awaits_of_met ((hwrites.awaits p).1 hp)
  have hother : ∀ a i other, .item a i ∈ s.waitingFor other → other ≠ id →
      .item a i ∉ s.waitingFor id := fun a i other hi hne hi' => hne (hs.single a i other id hi hi')
  have hkept : ∀ a i, .item a i ∉ s.waitingFor id →
      s'.heap.at? (.item a i) = s.heap.at? (.item a i) := hwrites.item
  have hwaiting : ∀ other, s'.waitingFor other = if some id = some other then [] else
      s.waitingFor other := fun other => (hwrites.waitingFor other).trans (waitingFor_met s _ _ other)
  have hwaits : ∀ a i other, .item a i ∈ s'.waitingFor other →
      other ≠ id ∧ .item a i ∈ s.waitingFor other := by
    intro a i other hi
    rw [hwaiting] at hi
    split at hi
    · simp at hi
    · next hne => exact ⟨fun heq => hne (by rw [heq]), hi⟩
  refine ⟨⟨?_, ?_, ?_, ?_, ?_, ?_, ?_⟩, hproceeds⟩
  · refine hs.toBeside.changes hwrites.evolves hwrites.alters.singletons hwrites.alters.heap ?_ hbound
    rintro _ ⟨p, hp, rfl⟩
    exact (hs.waits p ⟨id, hp⟩).2
  · exact fun p hp => (hs.waits p (hawaits p hp)).mono hproceeds.issued
  · rintro a i ⟨other, hi⟩
    obtain ⟨hne, hi⟩ := hwaits a i other hi
    rw [hkept a i (hother a i other hi hne)]
    exact hs.null a i ⟨other, hi⟩
  · exact fun a i x y hx hy => hs.single a i x y (hwaits a i x hx).2 (hwaits a i y hy).2
  · intro k n a hmem
    rw [hwrites.renewals] at hmem
    exact hproceeds.issued k (hs.renewals k n a hmem)
  · intro k n a hmem
    exact hproceeds.issued k (hs.built k n a ((hwrites.told _ fun _ _ _ => Event.noConfusion).1 hmem))
  · intro other a i hmem
    have hbuilt : s'.built = (id, target) :: s.built := hwrites.built
    rw [hbuilt, hwaiting]
    rcases hs.deferred other a i ((hwrites.told _ fun _ _ _ => Event.noConfusion).1 hmem) with
      hi | ⟨found, hfound, hat⟩
    · by_cases hid : id = other
      · subst hid
        exact Or.inr ⟨target, List.mem_cons_self, hserves.target a i hi⟩
      · left
        rw [if_neg fun heq => hid (Option.some.inj heq)]
        exact hi
    -- an item that holds an object does not wait any more
    · refine Or.inr ⟨found, List.mem_cons_of_mem _ hfound, ?_⟩
      rw [hkept a i fun hi => ?_]
      · exact hat
      · rw [hs.null a i ⟨id, hi⟩] at hat
        cases hat

theorem ensures_announce (id : String) (target : Handle) :
    Ensures (Agrees r s H) (Told.announce id target) s H fun _ s' H' =>
      Agrees r s' H' ∧ Proceeds r (fun _ => False) s H s' H' := by
  refine ensures_get_bind ((ensures_silently_of_runs (Q := fun _ s₁ H₁ =>
    s₁ = s.met (some id) target ∧ H₁ = H) (runs_modify _) (fun hbound => hbound)
      fun _ _ => ⟨rfl, rfl⟩).bind fun _ s₁ H₁ => ?_)
  refine (ensures_settleEach target ?_).imp (fun _ hpre => hpre) ?_
  · rintro ⟨hs, rfl, rfl⟩ a i hi
    rw [heap_met, hs.null a i ⟨_, hi⟩]
    exact Option.some_ne_none _
  · rintro _ s' H' hbound ⟨hs, rfl, rfl⟩ hserves
    exact hs.announced hserves hbound

/-! ## Making -/

/-- A new object without fields and items has been made. -/
structure Allocates (s s' : Loading P) (h : Handle) : Prop where
  heap : ∃ object : ScriptObject P, (∀ p, object.at? p = none) ∧ h = (s.heap.allocate object).1 ∧
    s'.heap = (s.heap.allocate object).2
  evolves : Realm.Evolves s.realm s'.realm
  singletons : s'.realm.singletons = s.realm.singletons
  built : s'.built = s.built
  waiting : s'.waiting = s.waiting
  lateItems : s'.lateItems = s.lateItems
  renewals : s'.renewals = s.renewals

theorem at?_ofForm {form : ObjectForm P} (hform : ∀ items, form = .array items → items = #[])
    (p : Place) : (ScriptObject.ofForm form).at? p = none := by
  cases p with
  | property owner name => exact Table.find?_empty name
  | item array index =>
    cases form with
    | array items =>
      rw [hform items rfl]
      rfl
    | _ => rfl

theorem at?_freshForm (r : Realm P) (c : ClassNumber) (p : Place) :
    (ScriptObject.ofForm (r.freshForm c)).at? p = none := by
  apply at?_ofForm
  intro items hitems
  unfold Realm.freshForm at hitems
  split at hitems
  · cases hitems
  · split at hitems
    · exact (ObjectForm.array.inj hitems).symm
    · cases hitems

theorem allocates_withNew (s : Loading P) (c : ClassNumber) (sleepers : List Handle) :
    Allocates s (s.withNew c sleepers) (s.realm.instantiate c).1 where
  heap := ⟨.ofForm (s.realm.freshForm c), at?_freshForm s.realm c, by rw [Realm.instantiate_eq]; rfl,
    by
      show (s.realm.instantiate c).2.heap = _
      rw [Realm.instantiate_eq]
      rfl⟩
  evolves := (Realm.evolves_instantiate c s.realm).trans ⟨rfl, rfl, Heap.Grows.refl⟩
  singletons := (Realm.freely_instantiate c s.realm).singletons
  built := rfl
  waiting := rfl
  lateItems := rfl
  renewals := rfl

/-- What is known of an object that has just been made. -/
structure Blank (s' : Loading P) (H' : Account) (h : Handle) : Prop where
  waits : ∀ p, p.owner = h → ¬ s'.Awaits p
  items : ∀ i, s'.heap.at? (.item h i) = none
  renewals : ∀ n a, (h, n, a) ∉ s'.renewals
  built : ∀ n a, .built h n a ∉ H'

theorem Agrees.allocates (hs : Agrees r s H) (halloc : Allocates s s' h) (hbound : s'.Bounded) :
    Agrees r s' H ∧ Proceeds r (fun _ => False) s H s' H ∧ New r s' h ∧ ¬ s.heap.Issued h ∧
      Blank s' H h := by
  obtain ⟨⟨object, hempty, rfl, hheap⟩, hevolves, hsingletons, hbuilt, hwaiting, hlate, hrenewals⟩ :=
    halloc
  have hbound' : (s.heap.allocate object).2.capacity ≤ UInt32.size := hheap ▸ hbound
  have hroom := Heap.hasRoom_of_capacity_allocate hs.wellFormed hbound'
  have hchanges : s.heap.Changes (fun _ => False) (fun _ => True) s'.heap := by
    rw [hheap]
    exact .single (.allocate trivial)
  -- the new object is empty, so no place holds anything else than before
  have hat : ∀ p, s'.heap.at? p = s.heap.at? p := by
    rw [hheap]
    exact Heap.at?_allocate hs.wellFormed hroom hempty
  have hfor : ∀ id, s'.waitingFor id = s.waitingFor id := fun id => by
    rw [waitingFor, hwaiting, waitingFor]
  have hawaits : ∀ p, s'.Awaits p ↔ s.Awaits p := fun p => by simp only [Awaits, hfor]
  have hissued : ∀ k, s.heap.Issued k → s'.heap.Issued k := fun k hk =>
    hchanges.issued hs.wellFormed hbound hk
  have hnew := hs.wellFormed.not_issued_allocate hroom object
  have hget := hs.wellFormed.get?_allocate hroom object (s.heap.allocate object).1
  rw [if_pos rfl, ← hheap] at hget
  have hproceeds : Proceeds r (fun _ => False) s H s' H := by
    refine { Proceeds.refl r s H with
      issued := hissued
      nature := fun k hk => nature?_of_issued hchanges hs.wellFormed hbound hk
      late := Nat.le_of_eq hlate.symm
      calm := fun _ a i hi => (hawaits _).1 hi
      awaits := fun p _ _ hp => (hawaits p).1 hp
      item := fun a i _ _ _ => hat _
      holds := fun a i _ hi => by rwa [hat]
      renewals := fun k n a _ _ => by rw [hrenewals]
      filled := fun k node hmem => Or.inl hmem }
  refine ⟨⟨?_, ?_, ?_, ?_, ?_, ?_, ?_⟩, hproceeds, ⟨Heap.issued_of_get? hget, fun hold =>
    hnew (hs.before _ hold).1⟩, hnew, ?_, ?_, ?_, ?_⟩
  · exact hs.toBeside.changes hevolves hsingletons hchanges (fun _ hfalse => hfalse.elim) hbound
  · exact fun p hp => (hs.waits p ((hawaits p).1 hp)).mono hissued
  · exact fun a i hi => (hat _).trans (hs.null a i ((hawaits _).1 hi))
  · intro a i x y hx hy
    rw [hfor] at hx hy
    exact hs.single a i x y hx hy
  · intro k n a hmem
    rw [hrenewals] at hmem
    exact hissued k (hs.renewals k n a hmem)
  · exact fun k n a hmem => hissued k (hs.built k n a hmem)
  · intro id a i hmem
    rw [hfor, hbuilt, hat]
    exact hs.deferred id a i hmem
  · intro p ho hp
    exact hnew (ho ▸ (hs.waits p ((hawaits p).1 hp)).1)
  · intro i
    rw [hat]
    -- a place of the new object would have made its handle known before
    by_contra hi
    exact hnew (issued_of_at? hi)
  · intro n a hmem
    rw [hrenewals] at hmem
    exact hnew (hs.renewals _ n a hmem)
  · exact fun n a hmem => hnew (hs.built _ n a hmem)

end

end Loading

end ScriptBridge
