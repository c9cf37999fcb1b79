import ScriptBridge.Proofs.Snapshot.Lenient

/-!
# What a Load Makes, and in which Order

A load that builds its graph makes an array for every array that it reads and an object for every
node, unless the node is of a singleton class. What lies inside of an array or a node is made after
it, so that the list of what has been made, the newest first, names inner objects before outer ones.
The instances that are to be awakened are those on this list whose classes are not built in.

Main statements: `makesInside_read` and `exists_growth_of_build`.
-/

namespace ScriptBridge

open Realm (after answer Evolves)

variable {P : Platform}

/-- A class that is not built in. -/
def Registry.isCustom (r : Registry P) (c : ClassNumber) : Bool :=
  (r.get? c).any fun d => !d.outline.builtin

namespace Loading

open Snapshot (Entry Node)

/-! ## Growth -/

/-- What has been made for some entries, in this order: an array or an object, with its class, and
what has been made inside of it; and then what has been made after it. -/
inductive Growth where
  | nothing
  | made (h : Handle) (c : ClassNumber) (inside rest : Growth)

namespace Growth

/-- All that has been made, each thing before what lies inside of it. -/
def instances : Growth → List (Handle × ClassNumber)
  | nothing => []
  | made h c inside rest => (h, c) :: (inside.instances ++ rest.instances)

/-- One growth after another. -/
def append : Growth → Growth → Growth
  | nothing, g => g
  | made h c inside rest, g => made h c inside (rest.append g)

@[simp] theorem instances_append (g g' : Growth) :
    (g.append g').instances = g.instances ++ g'.instances := by
  induction g with
  | nothing => rfl
  | made h c inside rest _ ih => simp [append, instances, ih]

/-- Something has been made inside of something else, however deep. -/
inductive Encloses : Growth → Handle → Handle → Prop
  | here {outer inner : Handle} {c c' : ClassNumber} {inside rest : Growth} :
      (inner, c') ∈ inside.instances → Encloses (made outer c inside rest) outer inner
  | inside {outer inner h : Handle} {c : ClassNumber} {inside rest : Growth} :
      Encloses inside outer inner → Encloses (made h c inside rest) outer inner
  | rest {outer inner h : Handle} {c : ClassNumber} {inside rest : Growth} :
      Encloses rest outer inner → Encloses (made h c inside rest) outer inner

/-- What lies inside is made later. -/
theorem Encloses.sublist {g : Growth} {outer inner : Handle} (h : g.Encloses outer inner) :
    [outer, inner].Sublist (g.instances.map Prod.fst) := by
  induction h with
  | here hinner =>
    rw [instances, List.map_cons]
    apply List.Sublist.cons_cons
    rw [List.singleton_sublist]
    exact List.mem_map_of_mem (List.mem_append_left _ hinner)
  | inside _ ih =>
    rw [instances, List.map_cons, List.map_append]
    exact (ih.trans (List.sublist_append_left _ _)).cons _
  | rest _ ih =>
    rw [instances, List.map_cons, List.map_append]
    exact (ih.trans (List.sublist_append_right _ _)).cons _

end Growth

/-- What is made for some entries. A node is an instance of its class, and its entries are read in
phases; for a singleton nothing is made. -/
inductive Grows (r : Realm P) (s : Snapshot) : List Entry → Growth → Prop
  | nil : Grows r s [] .nothing
  | leaf {entry : Entry} {entries : List Entry} {rest : Growth} :
      entry.isLeaf = true → Grows r s entries rest → Grows r s (entry :: entries) rest
  | array {items entries : List Entry} {h : Handle} {inside rest : Growth} :
      Grows r s items inside → Grows r s entries rest →
      Grows r s (.array items :: entries) (.made h .array inside rest)
  | singleton {index : Nat} {node : Node} {name : String} {entries : List Entry} {rest : Growth} :
      s.node index = .ok node → singletonName? r node = some name → Grows r s entries rest →
      Grows r s (.node index :: entries) rest
  | node {index : Nat} {node : Node} {entries : List Entry} {h : Handle} {inside rest : Growth} :
      s.node index = .ok node → singletonName? r node = none →
      Grows r s ((inPhases r (some (classFor r node.className)) node.entries).map Prod.snd) inside →
      Grows r s entries rest →
      Grows r s (.node index :: entries) (.made h (classFor r node.className) inside rest)

theorem Grows.append {r : Realm P} {s : Snapshot} {entries entries' : List Entry} {g g' : Growth}
    (h : Grows r s entries g) (h' : Grows r s entries' g') :
    Grows r s (entries ++ entries') (g.append g') := by
  induction h with
  | nil => exact h'
  | leaf hleaf _ ih => exact .leaf hleaf ih
  | array hitems _ _ ih => exact .array hitems ih
  | singleton hnode hname _ ih => exact .singleton hnode hname ih
  | node hnode hname hinside _ _ ih => exact .node hnode hname hinside ih

/-! ## Steps that Make Something -/

/-- The classes stay, objects are made and edited, and none is lost. -/
structure Onward (s s' : Loading P) : Prop where
  gains : s.Gains s'
  registry : s'.realm.registry = s.realm.registry

instance : Course (Onward (P := P)) where
  refl _ := ⟨.refl, rfl⟩
  trans h h' := ⟨h.gains.trans h'.gains, h'.registry.trans h.registry⟩

/-- Nothing is made. -/
structure Quiet (s s' : Loading P) : Prop extends Onward s s' where
  made : s'.made = s.made
  sleepers : s'.sleepers = s.sleepers

instance : Course (Quiet (P := P)) where
  refl s := ⟨Course.refl s, rfl, rfl⟩
  trans h h' :=
    ⟨Course.trans h.toOnward h'.toOnward, h'.made.trans h.made, h'.sleepers.trans h.sleepers⟩

/-- A state that a load into a realm may come to, whose heap is in order. -/
structure Underway (r : Realm P) (s : Loading P) : Prop where
  registry : s.realm.registry = r.registry
  wellFormed : s.Bounded → s.heap.WellFormed

/-- What a growth has added to what has been made, and to what is to be awakened. -/
structure Added (r : Realm P) (g : Growth) (s s' : Loading P) : Prop where
  made : s'.made = (g.instances.map Prod.fst).reverse ++ s.made
  sleepers : s'.sleepers =
    ((g.instances.filter fun x => r.registry.isCustom x.2).map Prod.fst).reverse ++ s.sleepers
  classes : ∀ x ∈ g.instances, s'.realm.classOf? x.1 = some x.2

/-- If a step succeeds, it has made what is made for some entries. -/
def Makes {α : Type} (r : Realm P) (snapshot : Snapshot) (entries : List Entry)
    (step : LoadingM P α) (s : Loading P) : Prop :=
  Carries Onward step s fun _ s' =>
    s'.Bounded → ∃ g, Grows r snapshot entries g ∧ Added r g s s'

section

variable {r : Realm P} {snapshot : Snapshot} {α β : Type} {s s' s'' : Loading P}

theorem Underway.onward (hs : Underway r s) (h : Onward s s') : Underway r s' where
  registry := h.registry.trans hs.registry
  wellFormed hbound := h.gains.wellFormed (hs.wellFormed (hbound.before h.gains)) hbound

/-- What is there keeps its class. -/
theorem Onward.classOf? (h : Onward s s') (hs : Underway r s) (hbound : s'.Bounded) {k : Handle}
    {c : ClassNumber} (hclass : s.realm.classOf? k = some c) : s'.realm.classOf? k = some c := by
  rw [Realm.classOf?_eq] at hclass ⊢
  obtain ⟨nature, hnature, hc⟩ := Option.bind_eq_some_iff.1 hclass
  have hbefore := hs.wellFormed (hbound.before h.gains)
  rw [show s'.realm.heap.nature? k = some nature from h.gains.nature? hbefore hbound hnature]
  exact hc

theorem Added.nothing (h : Quiet s s') : Added r .nothing s s' :=
  ⟨h.made, h.sleepers, fun _ hx => by simp [Growth.instances] at hx⟩

theorem Added.before (h : Quiet s s') {g : Growth} (h' : Added r g s' s'') : Added r g s s'' :=
  ⟨h.made ▸ h'.made, h.sleepers ▸ h'.sleepers, h'.classes⟩

theorem Added.after {g : Growth} (h : Added r g s s') (h' : Quiet s' s'') (hs : Underway r s')
    (hbound : s''.Bounded) : Added r g s s'' :=
  ⟨h'.made.trans h.made, h'.sleepers.trans h.sleepers,
    fun x hx => h'.toOnward.classOf? hs hbound (h.classes x hx)⟩

theorem Added.append {g g' : Growth} (h : Added r g s s') (h' : Added r g' s' s'')
    (honward : Onward s' s'') (hs : Underway r s') (hbound : s''.Bounded) :
    Added r (g.append g') s s'' := by
  constructor
  case made => rw [h'.made, h.made]; simp
  case sleepers => rw [h'.sleepers, h.sleepers]; simp
  case classes =>
    intro x hx
    rw [Growth.instances_append, List.mem_append] at hx
    rcases hx with hx | hx
    · exact honward.classOf? hs hbound (h.classes x hx)
    · exact h'.classes x hx

/-- Something has been made, and more inside of it. -/
theorem Added.inside {h : Handle} {c : ClassNumber} {inside : Growth}
    (hmade : Added r (.made h c .nothing .nothing) s s') (hinside : Added r inside s' s'')
    (honward : Onward s' s'') (hs : Underway r s') (hbound : s''.Bounded) :
    Added r (.made h c inside .nothing) s s'' := by
  have happend := hmade.append hinside honward hs hbound
  have hsame : (Growth.made h c inside .nothing).instances =
      ((Growth.made h c .nothing .nothing).append inside).instances := by
    simp [Growth.instances, Growth.append]
  exact ⟨hsame ▸ happend.made, hsame ▸ happend.sleepers, hsame ▸ happend.classes⟩

end

/-! ## Steps that Make Nothing -/

section

variable {α β : Type} {s : Loading P}

theorem carries_attempt_quiet {action : Action P α}
    (hevolves : Evolves s.realm (after action s.realm))
    (hgains : s.Gains { s with realm := after action s.realm }) :
    Carries Quiet (attempt action) s fun _ _ => True := by
  apply carries_attempt
  intro outcome r hrun
  obtain rfl : after action s.realm = r := congrArg Prod.snd hrun
  exact ⟨⟨⟨hgains, hevolves.registry⟩, rfl, rfl⟩, trivial⟩

theorem carries_perform_quiet {action : Action P α}
    (hevolves : Evolves s.realm (after action s.realm))
    (hgains : s.Gains { s with realm := after action s.realm }) :
    Carries Quiet (perform action) s fun _ _ => True := by
  refine (carries_attempt_quiet hevolves hgains).bind fun outcome s' _ _ => ?_
  cases outcome with
  | ok answer => exact carries_pure trivial
  | error error => exact carries_throw _

theorem quiet_putProperty (s : Loading P) (h : Handle) (name : String) (value : Value) :
    Carries Quiet (attempt (Realm.putProperty h name value true)) s fun _ _ => True :=
  carries_attempt_quiet (Realm.evolves_putProperty h name value true s.realm)
    (Realm.alters_putProperty trivial name (Or.inr Heap.stores_freely) true s.realm).heap

theorem quiet_write (s : Loading P) (h : Handle) (name : String) (value : Value) :
    Carries Quiet (write h name value) s fun _ _ => True := by
  refine (quiet_putProperty s h name value).bind fun outcome s' _ _ => ?_
  cases outcome with
  | ok answer => exact carries_pure trivial
  | error error => exact carries_strictly trivial

theorem quiet_assignElement (s : Loading P) (array : Handle) (index : Nat) (value : Value) :
    Carries Quiet (discard (perform (Realm.assignElement array index value))) s fun _ _ => True :=
  (carries_discard (carries_perform_quiet (Realm.evolves_assignElement array index value s.realm)
    (Realm.alters_assignElement trivial index (Or.inr Heap.stores_freely) s.realm).heap)).imp
      fun _ _ _ _ => trivial

theorem quiet_newFunction (s : Loading P) (name : String) (body : FunctionBody P) :
    Carries Quiet (perform (modifyGet (Realm.newFunction name body))) s fun _ _ => True :=
  carries_perform_quiet (Realm.evolves_newFunction name body s.realm) (.single (.allocate trivial))

theorem quiet_await (s : Loading P) (id : String) (place : Place) :
    Carries Quiet (await id place) s fun _ _ => True :=
  carries_modify ⟨⟨.refl, rfl⟩, rfl, rfl⟩ trivial

theorem quiet_settle (s : Loading P) (target : Handle) (place : Place) :
    Carries Quiet (settle target place) s fun _ _ => True := by
  cases place with
  | property owner name => exact quiet_write s owner name _
  | item array index => exact quiet_assignElement s array index _

theorem quiet_announce (s : Loading P) (id : String) (target : Handle) :
    Carries Quiet (announce id target) s fun _ _ => True := by
  apply carries_get
  refine Carries.bind (carries_modify (Q := fun _ _ => True) ⟨⟨.refl, rfl⟩, rfl, rfl⟩ trivial)
    fun _ s' _ _ => ?_
  apply carries_forM
  exact fun place _ s'' _ => quiet_settle s'' target place

theorem quiet_settleAll (s : Loading P) : Carries Quiet settleAll s fun _ _ => True := by
  apply carries_get
  refine Carries.bind (carries_modify (Q := fun _ _ => True) ⟨⟨.refl, rfl⟩, rfl, rfl⟩ trivial)
    fun _ s' _ _ => ?_
  apply carries_forM
  rintro ⟨id, places⟩ - s'' -
  apply carries_get
  cases s''.built.lookup id with
  | some target =>
    apply carries_forM
    exact fun place _ s₃ _ => quiet_settle s₃ target place
  | none => exact carries_strictly trivial

theorem quiet_renewAll (s : Loading P) : Carries Quiet renewAll s fun _ _ => True := by
  apply carries_get
  refine Carries.bind (carries_modify (Q := fun _ _ => True) ⟨⟨.refl, rfl⟩, rfl, rfl⟩ trivial)
    fun _ s' _ _ => ?_
  apply carries_forM
  rintro ⟨owner, name, array⟩ - s'' -
  exact quiet_write s'' owner name _

end

/-! ## Rules -/

section

variable {r : Realm P} {snapshot : Snapshot} {entries entries' : List Entry} {α β : Type}
  {s : Loading P} {step : LoadingM P α} {next : α → LoadingM P β} {Q : α → Loading P → Prop}

theorem Carries.onward (h : Carries Quiet step s Q) :
    Carries Onward step s fun a s' => Quiet s s' ∧ Q a s' :=
  fun a s' hrun => ⟨(h a s' hrun).1.toOnward, h a s' hrun⟩

/-- Where nothing is made, nothing is made for what is not a container. -/
theorem Carries.makes {entry : Entry} (h : Carries Quiet step s Q) (hleaf : entry.isLeaf = true) :
    Makes r snapshot [entry] step s :=
  h.onward.imp fun _ _ _ hquiet _ => ⟨.nothing, .leaf hleaf .nil, .nothing hquiet.1⟩

/-- A step that makes nothing, before others. -/
theorem Carries.makes_bind (h : Carries Quiet step s Q)
    (h' : ∀ a s', Quiet s s' → Q a s' → Makes r snapshot entries (next a) s') :
    Makes r snapshot entries (step >>= next) s := by
  refine h.onward.bind fun a s' _ hq => (h' a s' hq.1 hq.2).imp fun _ s'' _ hmade hbound => ?_
  obtain ⟨g, hgrows, hadded⟩ := hmade hbound
  exact ⟨g, hgrows, hadded.before hq.1⟩

/-- A step that makes nothing, after others. -/
theorem Makes.bind_quiet (h : Makes r snapshot entries step s) (hs : Underway r s)
    (h' : ∀ a s', Carries Quiet (next a) s' fun _ _ => True) :
    Makes r snapshot entries (step >>= next) s := by
  refine Carries.bind h fun a s' honward hmade => (h' a s').onward.imp fun _ s'' _ hq hbound => ?_
  obtain ⟨g, hgrows, hadded⟩ := hmade (hbound.before hq.1.gains)
  exact ⟨g, hgrows, hadded.after hq.1 (hs.onward honward) hbound⟩

/-- One step after another. -/
theorem Makes.bind (h : Makes r snapshot entries step s) (hs : Underway r s)
    (h' : ∀ a s', Onward s s' → Makes r snapshot entries' (next a) s') :
    Makes r snapshot (entries ++ entries') (step >>= next) s := by
  refine Carries.bind h fun a s' honward hmade =>
    (h' a s' honward).imp fun _ s'' honward' hmade' hbound => ?_
  obtain ⟨g, hgrows, hadded⟩ := hmade (hbound.before honward'.gains)
  obtain ⟨g', hgrows', hadded'⟩ := hmade' hbound
  exact ⟨g.append g', hgrows.append hgrows',
    hadded.append hadded' honward' (hs.onward honward) hbound⟩

theorem makes_nothing (hs : Carries Quiet step s Q) : Makes r snapshot [] step s :=
  hs.onward.imp fun _ _ _ hquiet _ => ⟨.nothing, .nil, .nothing hquiet.1⟩

/-- A loop makes what its turns make. -/
theorem makes_forM {step : String × Entry → LoadingM P PUnit} {members : List (String × Entry)}
    (hs : Underway r s)
    (hstep : ∀ member ∈ members, ∀ s', Onward s s' → Makes r snapshot [member.2] (step member) s') :
    Makes r snapshot (members.map Prod.snd) (members.forM step) s := by
  induction members generalizing s with
  | nil => exact makes_nothing (carries_pure (Q := fun _ _ => True) trivial)
  | cons member members ih =>
    show Makes r snapshot ([member.2] ++ members.map Prod.snd) _ s
    refine (hstep member List.mem_cons_self s (Course.refl s)).bind hs fun _ s₁ honward => ?_
    apply ih (hs.onward honward)
    intro other hother s₂ honward'
    exact hstep other (List.mem_cons_of_mem _ hother) s₂ (Course.trans honward honward')

end

/-! ## Reading -/

section

variable {r : Realm P} {snapshot : Snapshot} {s : Loading P}

/-- Only classes that are not built in have instances that are to be awakened. -/
theorem any_registered?_eq (hr : r.registry.Sound) (className : Option String) :
    ((className.bind r.registry.registered?).any fun d => !d.outline.builtin) =
      r.registry.isCustom (classFor r className) := by
  obtain ⟨object, hobject, houtline⟩ := hr.object
  have hplain : r.registry.isCustom .object = false := by
    rw [Registry.isCustom, hobject, Option.any_some, houtline]
    rfl
  unfold classFor
  cases className with
  | none => exact hplain.symm
  | some name =>
    simp only [Option.bind_some]
    rw [Registry.registered?]
    cases r.registry.lookup? name with
    | none => exact hplain.symm
    | some c => rfl

/-- A new instance is the growth that is nothing but itself. -/
theorem adds_withNew (hs : Underway r s) {step : LoadingM P Handle} {c : ClassNumber}
    {sleepers : List Handle}
    (hcases : (∃ error, Id.run (step.run.run s) = (.error error, s)) ∨
      Runs step s (s.realm.instantiate c).1 (s.withNew c sleepers))
    (hsleepers : sleepers =
      (if r.registry.isCustom c then [(s.realm.instantiate c).1] else []) ++ s.sleepers) :
    Carries Onward step s fun h s' =>
      s'.Bounded → Added r (.made h c .nothing .nothing) s s' := by
  intro h s' hrun
  obtain ⟨error, hfail⟩ | hmade := hcases
  · cases (Prod.mk.inj (hfail.symm.trans hrun)).1
  · obtain ⟨hh, rfl⟩ := Prod.mk.inj (hmade.symm.trans hrun)
    obtain rfl := Except.ok.inj hh
    have hgains : s.Gains (s.withNew c sleepers) := (Realm.freely_instantiate c s.realm).heap
    refine ⟨⟨hgains, (Realm.evolves_instantiate c s.realm).registry⟩, fun hbound => ?_⟩
    constructor
    case made => rfl
    case sleepers =>
      show sleepers = _
      rw [hsleepers]
      cases hcustom : r.registry.isCustom c <;> simp [Growth.instances, hcustom]
    case classes =>
      intro x hx
      obtain rfl := List.mem_singleton.1 hx
      have hnature := nature?_instantiate (hs.wellFormed (hbound.before hgains)) hbound
      rw [Realm.classOf?_eq]
      show ((s.realm.instantiate c).2.heap.nature? _).bind _ = _
      rw [hnature, Option.bind_some, ScriptObject.classNumber?_nature]
      exact Realm.classNumber?_freshForm _ _

theorem adds_make (hr : r.registry.Sound) (hs : Underway r s) (className : Option String) :
    Carries Onward (make className) s fun h s' =>
      s'.Bounded → Added r (.made h (classFor r className) .nothing .nothing) s s' := by
  have hclass : classFor s.realm className = classFor r className := by
    unfold classFor
    rw [hs.registry]
  refine adds_withNew hs (hclass ▸ (make_cases className s).imp And.right id) ?_
  unfold sleepersWith
  rw [hs.registry, any_registered?_eq hr, hclass]
  split <;> rfl

theorem adds_makeArray (hr : r.registry.Sound) (hs : Underway r s) :
    Carries Onward makeArray s fun array s' =>
      s'.Bounded → Added r (.made array .array .nothing .nothing) s s' := by
  have hrun : Runs makeArray s (s.realm.instantiate .array).1 (s.withNew .array s.sleepers) :=
    runs_newArray.bind ((runs_keepAlive _).bind (runs_pure _))
  obtain ⟨array, harray, houtline⟩ := hr.array
  have hbuiltin : r.registry.isCustom .array = false := by
    rw [Registry.isCustom, harray, Option.any_some, houtline]
    rfl
  exact adds_withNew hs (Or.inr hrun) (by rw [hbuiltin]; rfl)

/-- What is read inside of an entry makes what is made for what lies there. -/
def MakesInside (r : Realm P) (snapshot : Snapshot) (inner : Inner P) : Prop :=
  ∀ entry s, Underway r s → Makes r snapshot [entry] (inner entry) s

variable {inner : Inner P}

theorem makes_restoreEntry (hinner : MakesInside r snapshot inner) (hs : Underway r s) (h : Handle)
    (key : String) (entry : Entry) :
    Makes r snapshot [entry] (restoreEntry inner h key entry) s := by
  unfold restoreEntry
  split
  · refine Carries.makes (Q := fun _ _ => True) ?_ rfl
    exact (quiet_newFunction s _ _).bind fun f s' _ _ => quiet_write s' h _ _
  · refine Carries.makes (Q := fun _ _ => True) ?_ rfl
    refine (quiet_await s _ _).bind fun _ s' _ _ => ?_
    exact (carries_discard (quiet_putProperty s' h key .null)).imp fun _ _ _ _ => trivial
  · apply carries_get
    refine Makes.bind_quiet (hinner _ s hs) hs fun value s' => ?_
    dsimp only
    split
    · apply carries_get
      split
      · exact Carries.bind (carries_modify (Q := fun _ _ => True) ⟨⟨.refl, rfl⟩, rfl, rfl⟩ trivial)
          fun _ s'' _ _ => quiet_write s'' h key _
      · exact quiet_write s' h key _
    · exact quiet_write s' h key _

theorem makes_rebuildItems (hinner : MakesInside r snapshot inner) (hs : Underway r s)
    (array : Handle) (index : Nat) (items : List Entry) :
    Makes r snapshot items (rebuildItems inner array index items) s := by
  induction items generalizing s index with
  | nil => exact makes_nothing (carries_pure (Q := fun _ _ => True) trivial)
  | cons item items ih =>
    have hrest : ∀ value s', Underway r s' → Makes r snapshot items
        (discard (perform (Realm.assignElement array index value)) >>=
          fun _ => rebuildItems inner array (index + 1) items) s' := by
      intro value s' hs'
      refine (quiet_assignElement s' array index value).makes_bind fun _ s'' hquiet _ => ?_
      exact ih (hs'.onward hquiet.toOnward) (index + 1)
    show Makes r snapshot ([item] ++ items) _ s
    unfold rebuildItems
    dsimp only
    split
    · refine Makes.bind ((quiet_await s _ _).makes rfl) hs fun _ s' honward => ?_
      exact hrest _ s' (hs.onward honward)
    · exact (hinner item s hs).bind hs fun value s' honward => hrest value s' (hs.onward honward)

/-- What has been made, with what is made inside of it afterwards. -/
theorem Carries.makes_inside {step : LoadingM P Handle} {c : ClassNumber} {entry : Entry}
    {entries : List Entry} {α : Type} {next : Handle → LoadingM P α} (hs : Underway r s)
    (h : Carries Onward step s fun h s' =>
      s'.Bounded → Added r (.made h c .nothing .nothing) s s')
    (hgrows : ∀ h inside, Grows r snapshot entries inside →
      Grows r snapshot [entry] (.made h c inside .nothing))
    (h' : ∀ h s', Onward s s' → (s'.Bounded → s'.realm.classOf? h = some c) →
      Makes r snapshot entries (next h) s') :
    Makes r snapshot [entry] (step >>= next) s := by
  refine h.bind fun k s' honward hadded => ?_
  have hclass : s'.Bounded → s'.realm.classOf? k = some c :=
    fun hbound => (hadded hbound).classes (k, c) (List.mem_singleton.2 rfl)
  refine (h' k s' honward hclass).imp fun _ s'' honward' hmade hbound => ?_
  obtain ⟨inside, hinside, hadded'⟩ := hmade hbound
  exact ⟨_, hgrows k inside hinside,
    (hadded (hbound.before honward'.gains)).inside hadded' honward' (hs.onward honward) hbound⟩

theorem makes_rebuildArray (hr : r.registry.Sound) (hinner : MakesInside r snapshot inner)
    (hs : Underway r s) (items : List Entry) :
    Makes r snapshot [.array items] (rebuildArray inner items) s := by
  rw [rebuildArray_eq]
  refine Carries.makes_inside hs (adds_makeArray hr hs) (fun h inside hinside => .array hinside .nil)
    fun array s' honward _ => ?_
  have hs' := hs.onward honward
  refine (makes_rebuildItems hinner hs' array 0 items).bind_quiet hs' fun _ s'' => ?_
  exact carries_pure trivial

theorem makes_rebuildNode (hr : r.registry.Sound) (hinner : MakesInside r snapshot inner)
    (hs : Underway r s) {index : Nat} {node : Node} (hnode : snapshot.node index = .ok node) :
    Makes r snapshot [.node index] (rebuildNode inner node) s := by
  apply carries_ask
  rw [singletonName?_congr hs.registry]
  cases hsingleton : singletonName? r node with
  | some name =>
    refine Carries.imp (Carries.onward (Q := fun _ _ => True) ?_) fun _ _ _ hquiet _ =>
      ⟨.nothing, .singleton hnode hsingleton .nil, .nothing hquiet.1⟩
    refine (carries_findSingleton name).bind fun found s' _ _ => ?_
    cases found with
    | none => exact carries_pure trivial
    | some h =>
      dsimp only
      split
      · exact (quiet_announce s' _ h).bind fun _ s'' _ _ => carries_pure trivial
      · exact carries_pure trivial
  | none =>
    refine Carries.makes_inside hs (adds_make hr hs node.className)
      (fun h inside hinside => .node hnode hsingleton hinside .nil) fun h s' honward hclass => ?_
    have hs' := hs.onward honward
    have hentries : ∀ s'', Onward s' s'' → Makes r snapshot
        ((inPhases r (some (classFor r node.className)) node.entries).map Prod.snd)
        ((ask fun r => inPhases r (r.classOf? h) node.entries) >>= fun entries =>
          (entries.forM fun entry => restoreEntry inner h entry.1 entry.2) >>= fun _ =>
            pure (some h)) s'' := by
      intro s'' honward'
      have hs'' := hs'.onward honward'
      apply carries_ask
      have hall : Makes r snapshot
          ((inPhases s''.realm (s''.realm.classOf? h) node.entries).map Prod.snd)
          ((inPhases s''.realm (s''.realm.classOf? h) node.entries).forM fun entry =>
            restoreEntry inner h entry.1 entry.2) s'' := by
        apply makes_forM hs''
        intro member _ s₃ honward₃
        exact makes_restoreEntry hinner (hs''.onward honward₃) h member.1 member.2
      refine Carries.imp (hall.bind_quiet hs'' fun _ s₃ => carries_pure trivial)
        fun _ s₃ honward₃ hmade hbound => ?_
      -- the phases are those of the class of the node, whatever has been written in the meantime
      have hphases : inPhases s''.realm (s''.realm.classOf? h) node.entries =
          inPhases r (some (classFor r node.className)) node.entries := by
        have hbefore := hbound.before honward₃.gains
        rw [honward'.classOf? hs' hbefore (hclass (hbefore.before honward'.gains))]
        unfold inPhases phase
        rw [hs''.registry]
      exact hphases ▸ hmade hbound
    dsimp only
    split
    · exact (quiet_announce s' _ h).makes_bind fun _ s'' hquiet _ => hentries s'' hquiet.toOnward
    · exact hentries s' (Course.refl s')

theorem makesInside_rebuildWith (hr : r.registry.Sound) {inner? : Option (Inner P)}
    (hinner : ∀ inner, inner? = some inner → MakesInside r snapshot inner) :
    MakesInside r snapshot (rebuildWith snapshot inner?) := by
  intro entry s hs
  have hpure : ∀ v : Value, Carries Quiet (pure v : LoadingM P Value) s fun _ _ => True :=
    fun v => carries_pure trivial
  cases entry with
  | null => exact (hpure _).makes rfl
  | bool b => exact (hpure _).makes rfl
  | int n => exact (hpure _).makes rfl
  | double x => exact (hpure _).makes rfl
  | string text => exact (hpure _).makes rfl
  | reference h =>
    refine Carries.makes (Q := fun _ _ => True) (carries_ask ?_) rfl
    split
    · exact carries_pure trivial
    · exact carries_pure trivial
  | stub id => exact Carries.makes (Q := fun _ _ => True) (carries_throw _) rfl
  | array items =>
    apply carries_roomFor
    intro inner hsome
    exact (makes_rebuildArray hr (hinner inner hsome) hs items).bind_quiet hs
      fun array s' => carries_pure trivial
  | node index =>
    apply carries_roomFor
    intro inner hsome
    cases hnode : snapshot.node index with
    | error error => exact carries_throw_bind error _
    | ok node =>
      exact (makes_rebuildNode hr (hinner inner hsome) hs hnode).bind_quiet hs
        fun h? s' => carries_pure trivial

theorem makesInside_read (hr : r.registry.Sound) (snapshot : Snapshot) (room : Nat) :
    MakesInside r snapshot (read snapshot room) := by
  -- by the room that is left for nesting
  induction room with
  | zero => exact makesInside_rebuildWith hr (by simp)
  | succ room ih =>
    apply makesInside_rebuildWith hr
    intro inner hsome
    exact Option.some.inj hsome ▸ ih

theorem makes_build (hr : r.registry.Sound) (snapshot : Snapshot) (hs : Underway r s) :
    Makes r snapshot [snapshot.root] (build snapshot) s := by
  apply carries_ask
  refine (makesInside_read hr snapshot _ snapshot.root s hs).bind_quiet hs fun root s₁ => ?_
  refine (quiet_settleAll s₁).bind fun _ s₂ _ _ => ?_
  exact (quiet_renewAll s₂).bind fun _ s₃ _ _ => carries_pure trivial

end

/-! ## What Has Been Made -/

/-- What a move makes has not been made before. -/
theorem nodup_made (snapshot : Snapshot) {r : Realm P} (hwf : r.heap.WellFormed)
    (hbound : (after (build snapshot) (start r)).Bounded) :
    (after (build snapshot) (start r)).made.Nodup := by
  let I : Realm P → List Handle → Prop := fun r made => made.Nodup ∧ ∀ h ∈ made, r.heap.Issued h
  suffices hall : I (after (build snapshot) (start r)).realm (after (build snapshot) (start r)).made from
    hall.1
  refine ((builds_build snapshot r).1.induct hwf hbound ⟨List.nodup_nil, by simp [start, progress]⟩ ?_).2
  rintro a b hmove hwf hbound ⟨hnodup, hissued⟩
  have hchanges := hmove.changes
  cases hmove with
  | @make r made c hcommon =>
    have hnew : ¬ r.heap.Issued (r.instantiate c).1 := by
      have hcapacity : (r.instantiate c).2.heap.capacity ≤ UInt32.size := hbound
      rw [Realm.instantiate_eq] at hcapacity ⊢
      exact hwf.not_issued_allocate (Heap.hasRoom_of_capacity_allocate hwf hcapacity) _
    have hthere : (r.instantiate c).2.heap.Issued (r.instantiate c).1 := by
      obtain ⟨object, hget, -⟩ := Option.map_eq_some_iff.1 (nature?_instantiate (c := c) hwf hbound)
      exact Heap.issued_of_get? hget
    refine ⟨List.nodup_cons.2 ⟨fun hmem => hnew (hissued _ hmem), hnodup⟩, fun h hh => ?_⟩
    rcases List.mem_cons.1 hh with rfl | hh
    · exact hthere
    · exact hchanges.issued hwf hbound (hissued h hh)
  | function f hstep =>
    exact ⟨hnodup, fun h hh => hchanges.issued hwf hbound (hissued h hh)⟩
  | write hh hstep halters =>
    exact ⟨hnodup, fun h hh => hchanges.issued hwf hbound (hissued h hh)⟩

/-- What a load has made by the time that its graph is complete: one thing for each array and for each
node that is not of a singleton class, outer ones before inner ones. The instances among them whose
classes are not built in are to be awakened. -/
theorem exists_growth_of_build {r : Realm P} (hr : r.registry.Sound) (hwf : r.heap.WellFormed)
    (snapshot : Snapshot) {root : Value} (hbuild : answer (build snapshot) (start r) = .ok root)
    (hbound : (after (build snapshot) (start r)).Bounded) :
    ∃ g, Grows r snapshot [snapshot.root] g ∧
      Added r g (start r) (after (build snapshot) (start r)) := by
  have hs : Underway r (start r) := ⟨rfl, fun _ => hwf⟩
  exact (makes_build hr snapshot hs root _ (Realm.run_of_answer hbuild)).2 hbound

end Loading

end ScriptBridge
