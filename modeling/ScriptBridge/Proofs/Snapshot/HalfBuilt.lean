import ScriptBridge.Proofs.Snapshot.Layout
import ScriptBridge.Proofs.Snapshot.Places

/-!
# Half-Built Graphs

While a graph is being built, its objects and arrays are filled one place after the other, and the
places of stubs hold null until the object that they stand for is there. A ledger keeps what the
heap does not show: which object belongs to which node, and which places stand for stubs.
`Consistent` is what holds at all times, `Extends` is what a step leaves alone, and `Holds` says that
a value is what an entry asks for, up to what is late.

Main statements: one lemma for each step, `Consistent.allocate`, `Consistent.put`,
`Consistent.await`, `Consistent.settle` and `Consistent.meet`, and `Holds.mono`.
-/

namespace ScriptBridge

deriving instance DecidableEq for Place

namespace Loading

open Snapshot (Entry Node idAt?)

variable {P : Platform}

/-- What is known of a half-built graph beside its heap. -/
structure Ledger where
  /-- The objects of the nodes that have been met. -/
  object? : Nat → Option Handle
  /-- The identifiers that the places of stubs stand for. -/
  late? : Place → Option String

namespace Ledger

/-- Nothing has been met. -/
def empty : Ledger := ⟨fun _ => none, fun _ => none⟩

/-- The node at a position has been met. -/
def meet (L : Ledger) (i : Nat) (h : Handle) : Ledger :=
  { L with object? := fun j => if j = i then some h else L.object? j }

/-- A place stands for a stub. -/
def await (L : Ledger) (p : Place) (id : String) : Ledger :=
  { L with late? := fun q => if q = p then some id else L.late? q }

variable {L : Ledger} {i j : Nat} {h : Handle} {p q : Place} {id : String}

@[simp] theorem object?_meet_self : (L.meet i h).object? i = some h := if_pos rfl

theorem object?_meet_of_ne (hji : j ≠ i) : (L.meet i h).object? j = L.object? j := if_neg hji

@[simp] theorem late?_await_self : (L.await p id).late? p = some id := if_pos rfl

theorem late?_await_of_ne (hqp : q ≠ p) : (L.await p id).late? q = L.late? q := if_neg hqp

end Ledger

/-! ## States -/

/-- The objects so far. -/
def heap (s : Loading P) : Heap P := s.realm.heap

/-- The places that wait for the node with an identifier. -/
def waitingFor (s : Loading P) (id : String) : List Place := (s.waiting.find? id).getD []

/-- The state after a write into a place. -/
def put (s : Loading P) (p : Place) (v : Value) : Loading P := { s with realm := s.realm.put p v }

/-- The state in which one more place waits. -/
def awaiting (s : Loading P) (id : String) (p : Place) : Loading P :=
  { s with
    waiting := s.waiting.insert id (s.waitingFor id ++ [p])
    lateItems := match p with
      | .item _ _ => s.lateItems + 1
      | .property _ _ => s.lateItems }

@[simp] theorem heap_put (s : Loading P) (p : Place) (v : Value) : (s.put p v).heap = s.heap.put p v :=
  rfl

/-- The state in which the object of a node is known by the identifier of the node, if it carries
one, and nothing waits for it. -/
def met (s : Loading P) (id? : Option String) (h : Handle) : Loading P :=
  match id? with
  | none => s
  | some id => { s with
      built := (id, h) :: s.built
      waiting := s.waiting.erase id }

theorem waitingFor_awaiting (s : Loading P) (id other : String) (p : Place) :
    (s.awaiting id p).waitingFor other =
      if other = id then s.waitingFor id ++ [p] else s.waitingFor other := by
  simp only [waitingFor, awaiting, Table.find?_insert]
  split <;> rfl

theorem waitingFor_met (s : Loading P) (id? : Option String) (h : Handle) (other : String) :
    (s.met id? h).waitingFor other = if id? = some other then [] else s.waitingFor other := by
  cases id? with
  | none => simp [met]
  | some id =>
    simp only [waitingFor, met, Table.find?_erase, Option.some.injEq, eq_comm (a := id)]
    split <;> rfl

theorem lookup_built_met (s : Loading P) (id? : Option String) (h : Handle) (other : String) :
    (s.met id? h).built.lookup other = if id? = some other then some h
      else s.built.lookup other := by
  cases id? with
  | none => simp [met]
  | some id =>
    by_cases ho : other = id
    · simp [met, ho]
    · simp [met, List.lookup_cons, beq_false_of_ne ho, Ne.symm ho]

@[simp] theorem realm_met (s : Loading P) (id? : Option String) (h : Handle) :
    (s.met id? h).realm = s.realm := by
  cases id? <;> rfl

@[simp] theorem heap_met (s : Loading P) (id? : Option String) (h : Handle) :
    (s.met id? h).heap = s.heap := by
  cases id? <;> rfl

@[simp] theorem renewals_met (s : Loading P) (id? : Option String) (h : Handle) :
    (s.met id? h).renewals = s.renewals := by
  cases id? <;> rfl

@[simp] theorem sleepers_met (s : Loading P) (id? : Option String) (h : Handle) :
    (s.met id? h).sleepers = s.sleepers := by
  cases id? <;> rfl

/-- Two states that differ in their objects only, and in what keeps these alive. -/
structure Alike (s s' : Loading P) : Prop where
  options : s'.realm.options = s.realm.options
  built : s'.built = s.built
  waiting : s'.waiting = s.waiting
  renewals : s'.renewals = s.renewals
  sleepers : s'.sleepers = s.sleepers

theorem alike_put (s : Loading P) (p : Place) (v : Value) : Alike s (s.put p v) :=
  ⟨rfl, rfl, rfl, rfl, rfl⟩

/-! ## Invariant -/

/-- What holds of a half-built graph. Places in `todo` hold null although nothing waits there. -/
structure Consistent (snapshot : Snapshot) (old : Realm P) (L : Ledger) (todo : Place → Prop)
    (s : Loading P) : Prop where
  wellFormed : s.heap.WellFormed
  options : s.realm.options = old.options
  /-- What was there before is as it was. -/
  kept : ∀ h object, old.heap.get? h = some object → s.heap.get? h = some object
  /-- The objects of nodes are new and plain. -/
  object : ∀ i h, L.object? i = some h →
    old.heap.contains h = false ∧ s.heap.kind? h = some .plain
  distinct : ∀ i j h, L.object? i = some h → L.object? j = some h → i = j
  built : ∀ id h, s.built.lookup id = some h ↔
    ∃ i, L.object? i = some h ∧ idAt? snapshot.nodes i = some id
  late : ∀ p id, L.late? p = some id → old.heap.contains p.owner = false ∧ s.heap.Writable p
  named : ∀ p id, L.late? p = some id → snapshot.Names id
  /-- The place of a stub holds null and waits, or it holds the object that it stands for. -/
  waits : ∀ p id, L.late? p = some id →
    (p ∈ s.waitingFor id ∨ todo p) ∧ s.heap.at? p = some .null ∨
      ∃ h, s.built.lookup id = some h ∧ s.heap.at? p = some (.object h)
  waiting : ∀ id p, p ∈ s.waitingFor id → L.late? p = some id
  awaited : ∀ id places, s.waiting.find? id = some places → places ≠ []
  renewals : ∀ owner name array, (owner, name, array) ∈ s.renewals →
    old.heap.contains owner = false ∧ s.heap.kind? owner = some .plain ∧
      L.late? (.property owner name) = none ∧
      s.heap.at? (.property owner name) = some (.object array)
  sleepers : s.sleepers = []
  /-- What new places refer to is there. -/
  valid : ∀ p h, old.heap.contains p.owner = false → s.heap.at? p = some (.object h) →
    s.heap.contains h = true
  /-- No array is in two new places. -/
  unshared : ∀ p q a, old.heap.contains p.owner = false → old.heap.contains q.owner = false →
    s.heap.kind? a = some (.array #[]) → s.heap.at? p = some (.object a) →
    s.heap.at? q = some (.object a) → p = q

/-- What a step leaves alone when it fills places in `E` only, beside those of stubs and those of
new objects. -/
structure Extends (E : Place → Prop) (L : Ledger) (s : Loading P) (L' : Ledger)
    (s' : Loading P) : Prop where
  objects : ∀ i h, L.object? i = some h → L'.object? i = some h
  kinds : ∀ h kind, s.heap.kind? h = some kind → s'.heap.kind? h = some kind
  late : ∀ p, ¬E p → s.heap.contains p.owner = true → L'.late? p = L.late? p
  kept : ∀ p, ¬E p → s.heap.contains p.owner = true → L.late? p = none →
    s'.heap.at? p = s.heap.at? p

section

variable {snapshot : Snapshot} {old : Realm P} {todo todo' : Place → Prop} {E E' : Place → Prop}
  {L L' L'' : Ledger} {s s' s'' : Loading P} {p : Place} {v : Value}

theorem Extends.refl (E : Place → Prop) (L : Ledger) (s : Loading P) : Extends E L s L s :=
  ⟨fun _ _ h => h, fun _ _ h => h, fun _ _ _ => rfl, fun _ _ _ _ => rfl⟩

theorem Extends.contains (h : Extends E L s L' s') {k : Handle}
    (hk : s.heap.contains k = true) : s'.heap.contains k = true := by
  obtain ⟨kind, hkind⟩ := Heap.contains_iff_kind?.1 hk
  exact Heap.contains_iff_kind?.2 ⟨kind, h.kinds k kind hkind⟩

/-- One step after the other. Places of objects that are made on the way need not be listed. -/
theorem Extends.trans (h : Extends E L s L' s') (h' : Extends E' L' s' L'' s'')
    (hE : ∀ p, E' p → s.heap.contains p.owner = true → E p) : Extends E L s L'' s'' where
  objects i k hi := h'.objects i k (h.objects i k hi)
  kinds k kind hk := h'.kinds k kind (h.kinds k kind hk)
  late p hp ho := by
    rw [h'.late p (fun hp' => hp (hE p hp' ho)) (h.contains ho), h.late p hp ho]
  kept p hp ho hlate := by
    have hlate' : L'.late? p = none := by rw [h.late p hp ho, hlate]
    rw [h'.kept p (fun hp' => hp (hE p hp' ho)) (h.contains ho) hlate', h.kept p hp ho hlate]

theorem Extends.imp (h : Extends E L s L' s')
    (hE : ∀ p, E p → s.heap.contains p.owner = true → E' p) : Extends E' L s L' s' where
  objects := h.objects
  kinds := h.kinds
  late p hp ho := h.late p (fun hp' => hp (hE p hp' ho)) ho
  kept p hp ho := h.kept p (fun hp' => hp (hE p hp' ho)) ho

theorem Consistent.contains_of_old (h : Consistent snapshot old L todo s) {k : Handle}
    (hk : old.heap.contains k = true) : s.heap.contains k = true := by
  obtain ⟨object, hget⟩ := Heap.contains_iff.1 hk
  exact Heap.contains_iff.2 ⟨object, h.kept k object hget⟩

theorem Consistent.isNew_of_dead (h : Consistent snapshot old L todo s) {k : Handle}
    (hk : s.heap.contains k = false) : old.heap.contains k = false := by
  cases hold : old.heap.contains k with
  | false => rfl
  | true =>
    rw [h.contains_of_old hold] at hk
    exact Bool.noConfusion hk

theorem Consistent.at?_isSome_of_late (h : Consistent snapshot old L todo s) {id : String}
    (hlate : L.late? p = some id) : ∃ v, s.heap.at? p = some v := by
  rcases h.waits p id hlate with ⟨-, hat⟩ | ⟨k, -, hat⟩
  · exact ⟨_, hat⟩
  · exact ⟨_, hat⟩

theorem Consistent.late_of_at? (h : Consistent snapshot old L todo s) (hat : s.heap.at? p = none) :
    L.late? p = none := by
  cases hlate : L.late? p with
  | none => rfl
  | some id =>
    obtain ⟨v, hv⟩ := h.at?_isSome_of_late hlate
    rw [hat] at hv
    exact Option.noConfusion rfl (heq_of_eq hv)

/-! ## Steps -/

/-- An object that is made, and that is empty at first. -/
theorem Consistent.allocate (h : Consistent snapshot old L todo s) (hroom : s.heap.HasRoom 1)
    {object : ScriptObject P} (hempty : ∀ p, object.at? p = none) (halike : Alike s s')
    (hheap : s'.heap = (s.heap.allocate object).2) : Consistent snapshot old L todo s' := by
  have hwf := h.wellFormed
  -- an empty object brings no place with it, and leaves all others as they are
  have hat : ∀ p, s'.heap.at? p = s.heap.at? p := by
    rw [hheap]
    exact Heap.at?_allocate hwf hroom hempty
  have hget : ∀ k, s.heap.contains k = true → s'.heap.get? k = s.heap.get? k := by
    rw [hheap]
    exact fun k hk => Heap.get?_allocate_of_contains hwf hroom object hk
  have hkind : ∀ k, s.heap.contains k = true → s'.heap.kind? k = s.heap.kind? k := by
    intro k hk
    rw [Heap.kind?, hget k hk, Heap.kind?]
  have hcontains : ∀ k, s.heap.contains k = true → s'.heap.contains k = true := by
    intro k hk
    rw [Heap.contains, hget k hk]
    exact hk
  have hplain : ∀ k, s.heap.kind? k = some .plain → s'.heap.kind? k = some .plain := by
    intro k hk
    rw [hkind k (Heap.contains_iff_kind?.2 ⟨_, hk⟩), hk]
  have hwaiting : ∀ id, s'.waitingFor id = s.waitingFor id := by
    intro id
    rw [waitingFor, halike.waiting, waitingFor]
  constructor
  case wellFormed =>
    rw [hheap]
    exact hwf.allocate hroom object
  case options => rw [halike.options, h.options]
  case kept =>
    intro k object' hold
    rw [hget k (h.contains_of_old (Heap.contains_iff.2 ⟨_, hold⟩))]
    exact h.kept k object' hold
  case object =>
    intro i k hi
    exact ⟨(h.object i k hi).1, hplain k (h.object i k hi).2⟩
  case distinct => exact h.distinct
  case built =>
    intro id k
    rw [halike.built]
    exact h.built id k
  case late =>
    intro p id hlate
    refine ⟨(h.late p id hlate).1, ?_⟩
    rw [hheap]
    exact (h.late p id hlate).2.allocate hwf hroom object
  case named => exact h.named
  case waits =>
    intro p id hlate
    rw [hat, hwaiting, halike.built]
    exact h.waits p id hlate
  case waiting =>
    intro id p hp
    rw [hwaiting] at hp
    exact h.waiting id p hp
  case awaited =>
    rw [halike.waiting]
    exact h.awaited
  case renewals =>
    intro owner name array hmem
    rw [halike.renewals] at hmem
    obtain ⟨hnew, howner, hlate, hhere⟩ := h.renewals owner name array hmem
    exact ⟨hnew, hplain owner howner, hlate, (hat _).trans hhere⟩
  case sleepers => rw [halike.sleepers, h.sleepers]
  case valid =>
    intro p k hnew hp
    rw [hat] at hp
    exact hcontains k (h.valid p k hnew hp)
  case unshared =>
    intro p q a hp hq ha hpa hqa
    rw [hat] at hpa hqa
    rw [hkind a (h.valid p a hp hpa)] at ha
    exact h.unshared p q a hp hq ha hpa hqa

theorem Extends.allocate (hext : Extends E L s L' s') (h : Consistent snapshot old L' todo s')
    (hroom : s'.heap.HasRoom 1) {object : ScriptObject P} (hempty : ∀ p, object.at? p = none)
    (hheap : s''.heap = (s'.heap.allocate object).2) : Extends E L s L' s'' := by
  have hat : ∀ p, s''.heap.at? p = s'.heap.at? p := by
    rw [hheap]
    exact Heap.at?_allocate h.wellFormed hroom hempty
  constructor
  case objects => exact hext.objects
  case kinds =>
    intro k kind hk
    have hk' := hext.kinds k kind hk
    have hlive : s'.heap.contains k = true := Heap.contains_iff_kind?.2 ⟨_, hk'⟩
    rw [hheap, Heap.kind?, Heap.get?_allocate_of_contains h.wellFormed hroom object hlive]
    exact hk'
  case late => exact hext.late
  case kept =>
    intro p hp ho hlate
    rw [hat, hext.kept p hp ho hlate]

/-- What can be put into a place: an object that is there, and an array only if it is in no other
place. -/
def Admissible (old : Realm P) (s : Loading P) (p : Place) (v : Value) : Prop :=
  ∀ k, v = .object k → s.heap.contains k = true ∧
    (s.heap.kind? k = some (.array #[]) →
      ∀ q, old.heap.contains q.owner = false → s.heap.at? q = some (.object k) → q = p)

/-- A place that is written. The place of a stub receives the object that it stands for; any other
place is filled for the first time or keeps what it holds. -/
theorem Consistent.write (h : Consistent snapshot old L todo s) (hp : s.heap.Writable p)
    (hnew : old.heap.contains p.owner = false) (hv : Admissible old s p v)
    (hlate : ∀ id, L.late? p = some id → ∃ k, s.built.lookup id = some k ∧ v = .object k)
    (hsame : L.late? p = none → ∀ w, s.heap.at? p = some w → w = v)
    (htodo : ∀ q, todo q → q = p ∨ todo' q) : Consistent snapshot old L todo' (s.put p v) := by
  have hkind := Heap.kind?_put s.heap p v
  have hself : (s.put p v).heap.at? p = some v := Heap.at?_put_self hp
  have hother : ∀ q, q ≠ p → (s.put p v).heap.at? q = s.heap.at? q :=
    fun q hq => Heap.at?_put_of_ne hp hq
  -- a write changes neither what is there nor of which kind it is
  have hcontains : ∀ k, s.heap.contains k = true → (s.put p v).heap.contains k = true := by
    intro k hk
    rw [Heap.contains_iff_kind?] at hk ⊢
    rw [heap_put, hkind]
    exact hk
  constructor
  case wellFormed => exact h.wellFormed.put p v
  case options => exact h.options
  case kept =>
    intro k object hold
    have hk : k ≠ p.owner := by
      rintro rfl
      rw [Heap.contains_iff.2 ⟨object, hold⟩] at hnew
      simp at hnew
    rw [heap_put, Heap.get?_put, if_neg hk]
    exact h.kept k object hold
  case object =>
    intro i k hi
    rw [heap_put, hkind]
    exact h.object i k hi
  case distinct => exact h.distinct
  case built => exact h.built
  case late =>
    intro q id hq
    exact ⟨(h.late q id hq).1, (h.late q id hq).2.put p v⟩
  case named => exact h.named
  case waits =>
    intro q id hq
    -- the place of a stub that is written receives its object
    by_cases hqp : q = p
    · subst hqp
      obtain ⟨k, hk, rfl⟩ := hlate id hq
      exact Or.inr ⟨k, hk, hself⟩
    · rw [hother q hqp]
      rcases h.waits q id hq with ⟨hwait | htodo', hnull⟩ | hobject
      · exact Or.inl ⟨Or.inl hwait, hnull⟩
      · exact Or.inl ⟨Or.inr ((htodo q htodo').resolve_left hqp), hnull⟩
      · exact Or.inr hobject
  case waiting => exact h.waiting
  case awaited => exact h.awaited
  case renewals =>
    intro owner name array hmem
    obtain ⟨ho, howner, hl, hhere⟩ := h.renewals owner name array hmem
    rw [heap_put, hkind]
    refine ⟨ho, howner, hl, ?_⟩
    by_cases hqp : Place.property owner name = p
    · subst hqp
      rw [hsame hl _ hhere]
      exact hself
    · exact (hother _ hqp).trans hhere
  case sleepers => exact h.sleepers
  case valid =>
    intro q k hq hqk
    by_cases hqp : q = p
    · subst hqp
      rw [hself] at hqk
      exact hcontains k (hv k (Option.some.inj hqk)).1
    · rw [hother q hqp] at hqk
      exact hcontains k (h.valid q k hq hqk)
  case unshared =>
    intro q q' a hq hq' ha hqa hqa'
    rw [heap_put, hkind] at ha
    -- the two places may be the one that is written, or not
    by_cases hqp : q = p <;> by_cases hqp' : q' = p
    · rw [hqp, hqp']
    · subst hqp
      rw [hself] at hqa
      rw [hother q' hqp'] at hqa'
      exact ((hv a (Option.some.inj hqa)).2 ha q' hq' hqa').symm
    · subst hqp'
      rw [hself] at hqa'
      rw [hother q hqp] at hqa
      exact (hv a (Option.some.inj hqa')).2 ha q hq hqa
    · rw [hother q hqp] at hqa
      rw [hother q' hqp'] at hqa'
      exact h.unshared q q' a hq hq' ha hqa hqa'

/-- A place that is filled for the first time. -/
theorem Consistent.put (h : Consistent snapshot old L todo s) (hp : s.heap.Writable p)
    (hnew : old.heap.contains p.owner = false) (hat : s.heap.at? p = none)
    (hv : Admissible old s p v) : Consistent snapshot old L todo (s.put p v) := by
  have hnone : L.late? p = none := h.late_of_at? hat
  apply h.write hp hnew hv
  · intro id hlate
    rw [hnone] at hlate
    simp at hlate
  · intro _ w hw
    rw [hat] at hw
    simp at hw
  · exact fun q hq => Or.inr hq

/-- The place of a stub receives the object that it stands for. -/
theorem Consistent.settle (h : Consistent snapshot old L todo s) {id : String} {target : Handle}
    (hlate : L.late? p = some id) (hbuilt : s.built.lookup id = some target)
    (htodo : ∀ q, todo q → q = p ∨ todo' q) :
    Consistent snapshot old L todo' (s.put p (.object target)) := by
  obtain ⟨hnew, hp⟩ := h.late p id hlate
  obtain ⟨i, hi, -⟩ := (h.built id target).1 hbuilt
  obtain ⟨-, hplain⟩ := h.object i target hi
  apply h.write hp hnew
  · intro k hk
    obtain rfl : target = k := Value.object.inj hk
    refine ⟨Heap.contains_iff_kind?.2 ⟨_, hplain⟩, fun harray => ?_⟩
    rw [hplain] at harray
    simp at harray
  · intro id' hlate'
    rw [hlate] at hlate'
    obtain rfl : id = id' := Option.some.inj hlate'
    exact ⟨target, hbuilt, rfl⟩
  · intro hnone
    rw [hlate] at hnone
    simp at hnone
  · exact htodo

/-- A place that is written once more with what it holds. -/
theorem Consistent.repeat (h : Consistent snapshot old L todo s) (hp : s.heap.Writable p)
    (hnew : old.heap.contains p.owner = false) (hlate : L.late? p = none)
    (hat : s.heap.at? p = some v) : Consistent snapshot old L todo (s.put p v) := by
  apply h.write hp hnew
  · rintro k rfl
    exact ⟨h.valid p k hnew hat, fun harray q hq hqk => h.unshared q p k hq hnew harray hqk hat⟩
  · intro id hsome
    rw [hlate] at hsome
    simp at hsome
  · intro _ w hw
    rw [hat] at hw
    exact (Option.some.inj hw).symm
  · exact fun q hq => Or.inr hq

/-- A place comes to stand for a stub. -/
theorem Consistent.await (h : Consistent snapshot old L todo s) (hp : s.heap.Writable p)
    (hnew : old.heap.contains p.owner = false) (hat : s.heap.at? p = none) {id : String}
    (hid : snapshot.Names id) :
    Consistent snapshot old (L.await p id) todo ((s.awaiting id p).put p .null) := by
  -- first null is put into the place, which nothing refers to
  have hnull : Consistent snapshot old L todo (s.put p .null) :=
    h.put hp hnew hat fun k hk => by cases hk
  have hself : (s.put p .null).heap.at? p = some .null := Heap.at?_put_self hp
  have hnone : L.late? p = none := h.late_of_at? hat
  have hwaiting : ∀ other q, q ∈ ((s.awaiting id p).put p .null).waitingFor other ↔
      q ∈ s.waitingFor other ∨ other = id ∧ q = p := by
    intro other q
    show q ∈ (s.awaiting id p).waitingFor other ↔ _
    rw [waitingFor_awaiting]
    by_cases ho : other = id
    · simp [ho]
    · simp [ho]
  constructor
  case wellFormed => exact hnull.wellFormed
  case options => exact hnull.options
  case kept => exact hnull.kept
  case object => exact hnull.object
  case distinct => exact hnull.distinct
  case built => exact hnull.built
  case late =>
    intro q other hlate
    by_cases hqp : q = p
    · subst hqp
      exact ⟨hnew, hp.put q .null⟩
    · rw [Ledger.late?_await_of_ne hqp] at hlate
      exact hnull.late q other hlate
  case named =>
    intro q other hlate
    by_cases hqp : q = p
    · subst hqp
      rw [Ledger.late?_await_self] at hlate
      exact Option.some.inj hlate ▸ hid
    · rw [Ledger.late?_await_of_ne hqp] at hlate
      exact hnull.named q other hlate
  case waits =>
    intro q other hlate
    by_cases hqp : q = p
    · subst hqp
      rw [Ledger.late?_await_self] at hlate
      obtain rfl := Option.some.inj hlate
      exact Or.inl ⟨Or.inl ((hwaiting id q).2 (Or.inr ⟨rfl, rfl⟩)), hself⟩
    · rw [Ledger.late?_await_of_ne hqp] at hlate
      rcases hnull.waits q other hlate with ⟨hwait | htodo, hat'⟩ | hobject
      · exact Or.inl ⟨Or.inl ((hwaiting other q).2 (Or.inl hwait)), hat'⟩
      · exact Or.inl ⟨Or.inr htodo, hat'⟩
      · exact Or.inr hobject
  case waiting =>
    intro other q hq
    rcases (hwaiting other q).1 hq with hq | ⟨rfl, rfl⟩
    · have hlate := h.waiting other q hq
      have hqp : q ≠ p := by
        rintro rfl
        rw [hnone] at hlate
        simp at hlate
      rw [Ledger.late?_await_of_ne hqp]
      exact hlate
    · exact Ledger.late?_await_self
  case awaited =>
    intro other places hfind
    have hfind' : (s.waiting.insert id (s.waitingFor id ++ [p])).find? other = some places := hfind
    rw [Table.find?_insert] at hfind'
    split at hfind'
    · rw [← Option.some.inj hfind']
      simp
    · exact h.awaited other places hfind'
  case renewals =>
    intro owner name array hmem
    obtain ⟨ho, howner, hlate, hhere⟩ := hnull.renewals owner name array hmem
    refine ⟨ho, howner, ?_, hhere⟩
    -- what is to be written again holds an array, and not null
    have hne : Place.property owner name ≠ p := by
      rintro rfl
      rw [hself] at hhere
      simp at hhere
    rw [Ledger.late?_await_of_ne hne]
    exact hlate
  case sleepers => exact hnull.sleepers
  case valid => exact hnull.valid
  case unshared => exact hnull.unshared

theorem Extends.put (hext : Extends E L s L' s') (hp : s'.heap.Writable p)
    (hE : s.heap.contains p.owner = true → E p ∨ L.late? p ≠ none) (v : Value) :
    Extends E L s L' (s'.put p v) := by
  constructor
  case objects => exact hext.objects
  case kinds =>
    intro k kind hk
    rw [heap_put, Heap.kind?_put]
    exact hext.kinds k kind hk
  case late => exact hext.late
  case kept =>
    intro q hq ho hlate
    have hne : q ≠ p := by
      rintro rfl
      rcases hE ho with he | hl
      · exact hq he
      · exact hl hlate
    rw [heap_put, Heap.at?_put_of_ne hp hne, hext.kept q hq ho hlate]

theorem Extends.await (hext : Extends E L s L' s') (hp : s'.heap.Writable p)
    (hE : s.heap.contains p.owner = true → E p) (id : String) :
    Extends E L s (L'.await p id) ((s'.awaiting id p).put p .null) := by
  have hnull : Extends E L s L' (s'.put p .null) :=
    hext.put hp (fun ho => Or.inl (hE ho)) .null
  constructor
  case objects => exact hnull.objects
  case kinds => exact hnull.kinds
  case late =>
    intro q hq ho
    have hne : q ≠ p := by
      rintro rfl
      exact hq (hE ho)
    rw [Ledger.late?_await_of_ne hne]
    exact hnull.late q hq ho
  case kept => exact hnull.kept

/-- The objects of nodes after one more node has been met. -/
theorem Ledger.object?_meet {i : Nat} (hi : L.object? i = none) (k : Handle) (j : Nat) (m : Handle) :
    (L.meet i k).object? j = some m ↔ j = i ∧ m = k ∨ L.object? j = some m := by
  by_cases hji : j = i
  · subst hji
    simp [hi, eq_comm]
  · rw [Ledger.object?_meet_of_ne hji]
    simp [hji]

section

variable (h : Consistent snapshot old L (fun _ => False) s) {i : Nat} (hi : L.object? i = none)
  (hids : ∀ j j' id, idAt? snapshot.nodes j = some id → idAt? snapshot.nodes j' = some id → j = j')

include h hi hids

/-- What is known by an identifier after a node has been met is the object of its node. -/
theorem Consistent.lookup_built_met (k : Handle) (id : String) (m : Handle) :
    (s.met (idAt? snapshot.nodes i) k).built.lookup id = some m ↔
      ∃ j, (L.meet i k).object? j = some m ∧ idAt? snapshot.nodes j = some id := by
  rw [Loading.lookup_built_met]
  split
  -- the identifier of the node itself, which no other node carries
  · next hid =>
    constructor
    · intro hm
      exact ⟨i, (Ledger.object?_meet hi k i m).2 (Or.inl ⟨rfl, (Option.some.inj hm).symm⟩), hid⟩
    · rintro ⟨j, hj, hjid⟩
      obtain rfl := hids j i id hjid hid
      rcases (Ledger.object?_meet hi k j m).1 hj with ⟨-, rfl⟩ | hj
      · rfl
      · rw [hi] at hj
        cases hj
  · next hid =>
    rw [h.built]
    constructor
    · rintro ⟨j, hj, hjid⟩
      exact ⟨j, (Ledger.object?_meet hi k j m).2 (Or.inr hj), hjid⟩
    · rintro ⟨j, hj, hjid⟩
      rcases (Ledger.object?_meet hi k j m).1 hj with ⟨rfl, -⟩ | hj
      · exact absurd hjid hid
      · exact ⟨j, hj, hjid⟩

/-- The places that have waited for a node are still to be served when it is met. -/
theorem Consistent.waits_met (k : Handle) {p : Place} {id : String} (hlate : L.late? p = some id) :
    (p ∈ (s.met (idAt? snapshot.nodes i) k).waitingFor id ∨
        ∃ id, idAt? snapshot.nodes i = some id ∧ p ∈ s.waitingFor id) ∧ s.heap.at? p = some .null ∨
      ∃ m, (s.met (idAt? snapshot.nodes i) k).built.lookup id = some m ∧
        s.heap.at? p = some (.object m) := by
  rcases h.waits p id hlate with ⟨hwait | hfalse, hnull⟩ | ⟨m, hm, hat⟩
  · refine Or.inl ⟨?_, hnull⟩
    rw [waitingFor_met]
    by_cases hid : idAt? snapshot.nodes i = some id
    · exact Or.inr ⟨id, hid, hwait⟩
    · rw [if_neg hid]
      exact Or.inl hwait
  · exact hfalse.elim
  -- an object that the identifier is known for stays so
  · refine Or.inr ⟨m, (h.lookup_built_met hi hids k id m).2 ?_, hat⟩
    obtain ⟨j, hj, hjid⟩ := (h.built id m).1 hm
    exact ⟨j, (Ledger.object?_meet hi k j m).2 (Or.inr hj), hjid⟩

end

/-- A node is met. From here on nothing waits for its identifier. -/
theorem Consistent.meet (h : Consistent snapshot old L (fun _ => False) s) {i : Nat} {k : Handle}
    (hkind : s.heap.kind? k = some .plain) (hnew : old.heap.contains k = false)
    (hfresh : ∀ j, L.object? j ≠ some k) (hi : L.object? i = none)
    (hids : ∀ j j' id, idAt? snapshot.nodes j = some id → idAt? snapshot.nodes j' = some id →
      j = j') :
    Consistent snapshot old (L.meet i k)
      (fun p => ∃ id, idAt? snapshot.nodes i = some id ∧ p ∈ s.waitingFor id)
      (s.met (idAt? snapshot.nodes i) k) := by
  have hmet := Ledger.object?_meet hi k
  constructor
  case wellFormed =>
    rw [heap_met]
    exact h.wellFormed
  case options =>
    rw [realm_met]
    exact h.options
  case kept =>
    rw [heap_met]
    exact h.kept
  case object =>
    intro j m hj
    rw [heap_met]
    rcases (hmet j m).1 hj with ⟨-, rfl⟩ | hj
    · exact ⟨hnew, hkind⟩
    · exact h.object j m hj
  case distinct =>
    intro j j' m hj hj'
    rw [hmet] at hj hj'
    -- the handle is fresh, so no other node has it
    rcases hj with ⟨rfl, rfl⟩ | hj <;> rcases hj' with ⟨rfl, hm⟩ | hj'
    · rfl
    · exact absurd hj' (hfresh j')
    · exact absurd (hm ▸ hj) (hfresh j)
    · exact h.distinct j j' m hj hj'
  case built => exact h.lookup_built_met hi hids k
  case late =>
    intro p id hlate
    rw [heap_met]
    exact h.late p id hlate
  case named => exact h.named
  case waits =>
    intro p id hlate
    rw [heap_met]
    exact h.waits_met hi hids k hlate
  case waiting =>
    intro id p hp
    rw [waitingFor_met] at hp
    split at hp
    · simp at hp
    · exact h.waiting id p hp
  case awaited =>
    intro id places hfind
    cases hid : idAt? snapshot.nodes i with
    | none =>
      rw [hid] at hfind
      exact h.awaited id places hfind
    | some other =>
      rw [hid] at hfind
      simp only [met, Table.find?_erase] at hfind
      split at hfind
      · simp at hfind
      · exact h.awaited id places hfind
  case renewals =>
    rw [renewals_met, heap_met]
    exact h.renewals
  case sleepers => rw [sleepers_met, h.sleepers]
  case valid =>
    rw [heap_met]
    exact h.valid
  case unshared =>
    rw [heap_met]
    exact h.unshared

theorem Extends.meet (hext : Extends E L s L' s') {i : Nat} (hi : L'.object? i = none)
    (k : Handle) (id? : Option String) : Extends E L s (L'.meet i k) (s'.met id? k) := by
  constructor
  case objects =>
    intro j m hj
    have hji : j ≠ i := by
      rintro rfl
      rw [hext.objects j m hj] at hi
      simp at hi
    rw [Ledger.object?_meet_of_ne hji]
    exact hext.objects j m hj
  case kinds =>
    rw [heap_met]
    exact hext.kinds
  case late => exact hext.late
  case kept =>
    rw [heap_met]
    exact hext.kept

/-- A property is noted that has to be written again. -/
theorem Consistent.renew (h : Consistent snapshot old L todo s) {owner array : Handle} {name : String}
    (hnew : old.heap.contains owner = false) (howner : s.heap.kind? owner = some .plain)
    (hlate : L.late? (.property owner name) = none)
    (hat : s.heap.at? (.property owner name) = some (.object array)) :
    Consistent snapshot old L todo { s with renewals := s.renewals ++ [(owner, name, array)] } := by
  refine { h with renewals := ?_ }
  intro owner' name' array' hmem
  rcases List.mem_append.1 hmem with hmem | hmem
  · exact h.renewals owner' name' array' hmem
  · simp only [List.mem_singleton, Prod.mk.injEq] at hmem
    obtain ⟨rfl, rfl, rfl⟩ := hmem
    exact ⟨hnew, howner, hlate, hat⟩

end

/-! ## What entries ask for -/

/-- The value of an entry that nothing lies inside of. -/
def leafValue? : Entry → Option Value
  | .null => some .null
  | .bool b => some (.bool b)
  | .int n => some (intValue n)
  | .double x => some (.double x)
  | .string text => some (.string text)
  | _ => none

/-- A place holds what an entry asks for, given what it holds and for which identifier it is late.
Arrays are among the `fresh` ones. -/
inductive Holds (fresh : Handle → Prop) (heap : Heap P) (L : Ledger) :
    Option Value → Option String → Entry → Prop
  | stub {v? : Option Value} {id : String} : Holds fresh heap L v? (some id) (.stub id)
  | leaf {entry : Entry} {v : Value} :
      leafValue? entry = some v → Holds fresh heap L (some v) none entry
  | node {i : Nat} {h : Handle} :
      L.object? i = some h → Holds fresh heap L (some (.object h)) none (.node i)
  | array {a : Handle} {items : List Entry} :
      fresh a → heap.kind? a = some (.array #[]) →
      (∀ name, heap.at? (.property a name) = none) →
      (∀ i, items.length ≤ i → heap.at? (.item a i) = none) →
      (∀ i item, items[i]? = some item →
        Holds fresh heap L (heap.at? (.item a i)) (L.late? (.item a i)) item) →
      Holds fresh heap L (some (.object a)) none (.array items)

section

variable {snapshot : Snapshot} {old : Realm P} {todo : Place → Prop} {E : Place → Prop}
  {L L' : Ledger} {s s' : Loading P} {p : Place} {fresh fresh' : Handle → Prop} {heap : Heap P}
  {v? v'? : Option Value} {id? : Option String} {entry : Entry}

theorem Holds.imp (h : Holds fresh heap L v? id? entry) (himp : ∀ a, fresh a → fresh' a) :
    Holds fresh' heap L v? id? entry := by
  induction h with
  | stub => exact .stub
  | leaf hleaf => exact .leaf hleaf
  | node hi => exact .node hi
  | array ha hkind hfields hend _ ih => exact .array (himp _ ha) hkind hfields hend ih

/-- What the place of a stub holds does not matter. -/
theorem Holds.congr (h : Holds fresh heap L v? id? entry) (hv : id? = none → v'? = v?) :
    Holds fresh heap L v'? id? entry := by
  cases h with
  | stub => exact .stub
  | leaf hleaf =>
    rw [hv rfl]
    exact .leaf hleaf
  | node hi =>
    rw [hv rfl]
    exact .node hi
  | array ha hkind hfields hend hitems =>
    rw [hv rfl]
    exact .array ha hkind hfields hend hitems

/-- A step outside of the arrays of an entry leaves everything as the entry asks for. -/
theorem Holds.mono (h : Holds fresh s.heap L v? id? entry) (hs : Consistent snapshot old L todo s)
    (hext : Extends E L s L' s') (hE : ∀ p, E p → ¬fresh p.owner) :
    Holds fresh s'.heap L' v? id? entry := by
  induction h with
  | stub => exact .stub
  | leaf hleaf => exact .leaf hleaf
  | node hi => exact .node (hext.objects _ _ hi)
  | @array a items ha hkind hfields hend _ ih =>
    have hlive : s.heap.contains a = true := Heap.contains_iff_kind?.2 ⟨_, hkind⟩
    have hkept : ∀ p : Place, p.owner = a → L.late? p = none → s'.heap.at? p = s.heap.at? p := by
      intro p hp hlate
      exact hext.kept p (fun hEp => hE p hEp (hp ▸ ha)) (hp ▸ hlive) hlate
    refine .array ha (hext.kinds a _ hkind) ?_ ?_ ?_
    · intro name
      rw [hkept (.property a name) rfl (hs.late_of_at? (hfields name)), hfields]
    · intro i hi
      rw [hkept (.item a i) rfl (hs.late_of_at? (hend i hi)), hend i hi]
    · intro i item hitem
      have hlate : L'.late? (.item a i) = L.late? (.item a i) :=
        hext.late (.item a i) (fun hEp => hE _ hEp ha) hlive
      rw [hlate]
      exact (ih i item hitem).congr (hkept (.item a i) rfl)

/-- The same for an entry that a place holds. -/
theorem Holds.mono_at (h : Holds fresh s.heap L (s.heap.at? p) (L.late? p) entry)
    (hs : Consistent snapshot old L todo s) (hext : Extends E L s L' s')
    (hE : ∀ q, E q → ¬fresh q.owner) (hlive : s.heap.contains p.owner = true) (hp : ¬E p) :
    Holds fresh s'.heap L' (s'.heap.at? p) (L'.late? p) entry := by
  rw [hext.late p hp hlive]
  exact (h.mono hs hext hE).congr (hext.kept p hp hlive)

end

end Loading

end ScriptBridge
