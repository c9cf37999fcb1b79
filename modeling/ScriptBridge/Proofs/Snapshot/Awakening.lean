import ScriptBridge.Proofs.Realm.Callbacks
import ScriptBridge.Proofs.Snapshot.Building

/-!
# Awakening

Once a graph has been built, its instances are awakened by code of the host. That code may do to the
realm what it likes, collect and load other snapshots included; but it takes down no protection that
it has not added. What the load has made is protected, so it is there when such a call starts, all
through the call, and still when the load is over.

Main statements: `Host.Operates.load` and `Host.careful_load` (a load is made of operations, and is
careful, when the calls that awaken are) and `Host.load_keeps`.
-/

namespace ScriptBridge

open Realm (after after_bind Acts Careful Operational Steps unprotectAll)

variable {P : Platform}

namespace Loading

variable {host : Host P}

/-! ## The Course of a Load -/

/-- A load ends where the building ends when that fails. -/
theorem run_load_of_error {s : Snapshot} {t b : Loading P} {error : SnapshotError}
    (hbuild : Id.run ((build s).run.run t) = (.error error, b)) (host : Host P) :
    Id.run ((load host s).run.run t) = (.error error, b) := by
  have hrun : (build s).run.run t = pure (.error error, b) := hbuild
  rw [load_eq, ExceptT.run_bind, StateT.run_bind, hrun]
  rfl

/-- Otherwise it goes on with awakening. -/
theorem run_load_of_ok {s : Snapshot} {t b : Loading P} {root : Value}
    (hbuild : Id.run ((build s).run.run t) = (.ok root, b)) (host : Host P) :
    Id.run ((load host s).run.run t) =
      Id.run ((awaken host >>= fun _ => ask (·.expand root)).run.run b) := by
  have hrun : (build s).run.run t = pure (.ok root, b) := hbuild
  rw [load_eq, ExceptT.run_bind, StateT.run_bind, hrun]
  rfl

/-- Reading the answer changes nothing. -/
theorem after_awaken_ask (host : Host P) (root : Value) (t : Loading P) :
    after (awaken host >>= fun _ => ask (·.expand root)) t =
      after (t.sleepers.forM (awakenOne host)) { t with sleepers := [] } := by
  have hawaken : after (awaken host) t =
      after (t.sleepers.forM (awakenOne host)) { t with sleepers := [] } := by
    rw [awaken_eq]
    rfl
  rw [← hawaken]
  unfold after
  rw [ExceptT.run_bind, StateT.run_bind]
  cases (awaken host).run.run t with
  | mk outcome t' => cases outcome <;> rfl

/-- The realms in which calls start that awaken some instances, one after the other. -/
def startsFrom (host : Host P) : List Handle → Loading P → List (Realm P)
  | [], _ => []
  | h :: rest, s =>
    (if canAwake s.realm h then [s.realm] else []) ++
      match Id.run ((awakenOne host h).run.run s) with
      | (.ok _, s') => startsFrom host rest s'
      | (.error _, _) => []

/-- The calls that awaken some instances, one after the other: the instance, and the realm in which
the call starts. -/
def callsFrom (host : Host P) : List Handle → Loading P → List (Handle × Realm P)
  | [], _ => []
  | h :: rest, s =>
    (if canAwake s.realm h then [(h, s.realm)] else []) ++
      match Id.run ((awakenOne host h).run.run s) with
      | (.ok _, s') => callsFrom host rest s'
      | (.error _, _) => []

/-- Nothing is made by the load itself any more. -/
theorem made_awakenOne (host : Host P) (h : Handle) (t : Loading P) :
    (after (awakenOne host h) t).made = t.made := by
  let R : Loading P → Loading P → Prop := fun a b => b.made = a.made
  have htrans : ∀ {a b c}, R a b → R b c → R a c := fun h h' => h'.trans h
  refine after_bind (R := R) htrans rfl fun awake => ?_
  split
  · refine after_bind (R := R) htrans rfl fun outcome => ?_
    cases outcome with
    | ok answer => rfl
    | error error =>
      refine after_bind (R := R) htrans rfl fun strict => ?_
      split <;> rfl
  · rfl

theorem made_forM_awakenOne (host : Host P) (sleepers : List Handle) (t : Loading P) :
    (after (sleepers.forM (awakenOne host)) t).made = t.made := by
  induction sleepers generalizing t with
  | nil => rfl
  | cons h sleepers ih =>
    exact after_bind (R := fun a b : Loading P => b.made = a.made) (fun h h' => h'.trans h)
      (made_awakenOne host h t) fun _ => ih _

theorem after_forM_awakenOne {h : Handle} {sleepers : List Handle} {t t' : Loading P}
    (hrun : Id.run ((awakenOne host h).run.run t) = (.ok (), t')) :
    after ((h :: sleepers).forM (awakenOne host)) t = after (sleepers.forM (awakenOne host)) t' := by
  have hrun : (awakenOne host h).run.run t = pure (.ok (), t') := hrun
  show (Id.run ((awakenOne host h >>= fun _ => sleepers.forM (awakenOne host)).run.run t)).2 = _
  rw [ExceptT.run_bind, StateT.run_bind, hrun]
  rfl

/-- Where the first instance fails to be awakened, the others are not. -/
theorem after_forM_awakenOne_of_error {h : Handle} {sleepers : List Handle} {t t' : Loading P}
    {error : SnapshotError} (hrun : Id.run ((awakenOne host h).run.run t) = (.error error, t')) :
    after ((h :: sleepers).forM (awakenOne host)) t = t' := by
  have hrun : (awakenOne host h).run.run t = pure (.error error, t') := hrun
  show (Id.run ((awakenOne host h >>= fun _ => sleepers.forM (awakenOne host)).run.run t)).2 = _
  rw [ExceptT.run_bind, StateT.run_bind, hrun]
  rfl

/-- Besides the calls, awakening reports errors only. -/
theorem forM_awakenOne_of_calls {R : Realm P → Realm P → Prop} [Course R]
    (hreport : ∀ error r, R r (r.report error)) {sleepers : List Handle} {t : Loading P}
    (hcalls : ∀ call ∈ callsFrom host sleepers t,
      R call.2 (after (host.callMethod call.1 awakeName []) call.2)) :
    R t.realm (after (sleepers.forM (awakenOne host)) t).realm := by
  induction sleepers generalizing t with
  | nil => exact Course.refl _
  | cons h sleepers ih =>
    have hone : R t.realm (after (awakenOne host h) t).realm := by
      refine awakenOne_of_report (fun hawake => ?_) hreport
      refine hcalls (h, t.realm) (List.mem_append_left _ ?_)
      rw [if_pos hawake]
      exact List.mem_cons_self
    unfold after at hone
    cases hrun : Id.run ((awakenOne host h).run.run t) with
    | mk outcome t' =>
      rw [hrun] at hone
      cases outcome with
      | error error =>
        rw [after_forM_awakenOne_of_error hrun]
        exact hone
      | ok answer =>
        rw [after_forM_awakenOne hrun]
        refine Course.trans hone (ih fun call hcall => hcalls call (List.mem_append_right _ ?_))
        rw [hrun]
        exact hcall

/-- Each start is on the way from the first state to the last one. -/
theorem careful_startsFrom (hawake : Awakens Careful host) {sleepers : List Handle} {t : Loading P}
    {r : Realm P} (hr : r ∈ startsFrom host sleepers t) :
    Careful t.realm r ∧ Careful r (after (sleepers.forM (awakenOne host)) t).realm := by
  induction sleepers generalizing t with
  | nil => simp [startsFrom] at hr
  | cons h sleepers ih =>
    have hone : Careful t.realm (after (awakenOne host h) t).realm := acts_awakenOne hawake h t
    rw [startsFrom, List.mem_append] at hr
    rcases hr with hr | hr
    · split at hr
      · rw [List.mem_singleton.1 hr]
        exact ⟨.refl _, Realm.acts_forM (acts_awakenOne hawake) (h :: sleepers) t⟩
      · simp at hr
    -- a call that starts later starts from where the first one has ended
    · unfold after at hone
      cases hrun : Id.run ((awakenOne host h).run.run t) with
      | mk outcome t' =>
        rw [hrun] at hr hone
        cases outcome with
        | error error => cases hr
        | ok answer =>
          obtain ⟨hbefore, hlater⟩ := ih hr
          rw [after_forM_awakenOne hrun]
          exact ⟨hone.trans hbefore, hlater⟩

/-- Where no call starts, awakening changes nothing. -/
theorem after_forM_of_startsFrom {sleepers : List Handle} {t : Loading P}
    (hquiet : startsFrom host sleepers t = []) : after (sleepers.forM (awakenOne host)) t = t := by
  induction sleepers with
  | nil => rfl
  | cons h sleepers ih =>
    rw [startsFrom, List.append_eq_nil_iff] at hquiet
    obtain ⟨hhere, hrest⟩ := hquiet
    have hasleep : ¬ canAwake t.realm h = true := by
      intro hcan
      rw [if_pos hcan] at hhere
      cases hhere
    have hrun : Id.run ((awakenOne host h).run.run t) = (.ok (), t) := by
      show Id.run ((if canAwake t.realm h then _ else pure () : LoadingM P Unit).run.run t) = _
      rw [if_neg hasleep]
      rfl
    rw [hrun] at hrest
    rw [after_forM_awakenOne hrun]
    exact ih hrest

end Loading

open Loading (start build startsFrom callsFrom Awakens)

/-- What has been made is there, and is what it was when the graph was complete. -/
def Loading.Stays (b : Loading P) (r : Realm P) : Prop :=
  ∀ h ∈ b.made, ∃ object object', b.realm.heap.get? h = some object ∧
    r.heap.get? h = some object' ∧ object'.nature = object.nature

/-- The state of a load when its graph has been built, or when that has failed. A load that is refused
builds nothing. -/
def Realm.building (r : Realm P) (s : Snapshot) (copying : Bool) : Loading P :=
  if !copying && s.holdsLiveObjects then start r else after (build s) (start r)

namespace Host

variable (host : Host P) (s : Snapshot) (copying : Bool) (r : Realm P)

/-- The realms in which a load starts calls that awaken instances. -/
def awakeStarts : List (Realm P) :=
  if !copying && s.holdsLiveObjects then []
  else
    match Id.run ((build s).run.run (start r)) with
    | (.ok _, b) => startsFrom host b.sleepers { b with sleepers := [] }
    | (.error _, _) => []

/-- The calls of a load that awaken instances: the instance, and the realm in which the call starts. -/
def awakeCalls : List (Handle × Realm P) :=
  if !copying && s.holdsLiveObjects then []
  else
    match Id.run ((build s).run.run (start r)) with
    | (.ok _, b) => callsFrom host b.sleepers { b with sleepers := [] }
    | (.error _, _) => []

/-- The state of a load at its end, before protections are taken down. -/
def ending : Loading P :=
  if !copying && s.holdsLiveObjects then start r else after (Loading.load host s) (start r)

theorem after_load :
    after (host.load s copying) r =
      unprotectAll (host.ending s copying r).made (host.ending s copying r).realm := by
  unfold ending
  by_cases hrefused : (!copying && s.holdsLiveObjects) = true
  · rw [if_pos hrefused]
    unfold Host.load
    rw [if_pos hrefused]
    rfl
  · rw [if_neg hrefused]
    exact congrArg Prod.snd (host.run_load (Bool.eq_false_iff.2 hrefused) rfl)

/-- How the end of a load comes from what it has built: nothing is made any more, and awakening
starts and ends with careful runs if its calls do. -/
theorem ending_cases :
    (host.ending s copying r = r.building s copying ∧ host.awakeStarts s copying r = []) ∨
    ∃ sleepers, host.awakeStarts s copying r =
        startsFrom host sleepers { r.building s copying with sleepers := [] } ∧
      host.awakeCalls s copying r =
        callsFrom host sleepers { r.building s copying with sleepers := [] } ∧
      host.ending s copying r = after (sleepers.forM (Loading.awakenOne host))
        { r.building s copying with sleepers := [] } := by
  unfold ending awakeStarts awakeCalls Realm.building
  by_cases hrefused : (!copying && s.holdsLiveObjects) = true
  · simp only [if_pos hrefused]
    exact Or.inl ⟨trivial, trivial⟩
  · simp only [if_neg hrefused]
    -- no instance is awakened unless the graph is complete
    cases hbuild : Id.run ((build s).run.run (start r)) with
    | mk outcome b =>
      have hb : after (build s) (start r) = b := congrArg Prod.snd hbuild
      cases outcome with
      | error error =>
        left
        refine ⟨?_, rfl⟩
        rw [hb]
        exact congrArg Prod.snd (Loading.run_load_of_error hbuild host)
      | ok root =>
        right
        refine ⟨b.sleepers, ?_, ?_, ?_⟩
        · rw [hb]
        · rw [hb]
        · rw [hb]
          show (Id.run ((Loading.load host s).run.run (start r))).2 = _
          rw [Loading.run_load_of_ok hbuild host]
          exact Loading.after_awaken_ask host root b

/-! ## Consequences -/

/-- The objects and arrays that a load makes last until it returns. -/
structure KeepsMade : Prop where
  /-- They are the objects that are new when the graph is complete, functions aside. -/
  made : ∀ h, h ∈ (r.building s copying).made ↔
    r.heap.get? h = none ∧ (r.building s copying).realm.heap.HasObject h
  /-- They are there when a call starts that awakens an instance, and all through it. -/
  awake : ∀ r₁ ∈ host.awakeStarts s copying r, ∀ r₂, Careful r₁ r₂ →
    r₂.heap.capacity ≤ UInt32.size → (r.building s copying).Stays r₂
  /-- They are there when the load returns. -/
  returned : (r.building s copying).Stays (after (host.load s copying) r)
  /-- No handle of the answer leads to one of them that is gone. -/
  answer : ∀ v, (Id.run ((host.load s copying).run.run r)).1 = .ok v →
    ∀ h ∈ v.handles, h ∈ (r.building s copying).made →
      (after (host.load s copying) r).resolves h = true

variable {host s copying r}

theorem made_ending : (host.ending s copying r).made = (r.building s copying).made := by
  rcases host.ending_cases s copying r with ⟨hsame, -⟩ | ⟨sleepers, -, -, hend⟩
  · rw [hsame]
  · rw [hend, Loading.made_forM_awakenOne]

/-- Where no call starts, a load ends with what it has built. -/
theorem realm_ending_of_quiet (hquiet : host.awakeStarts s copying r = []) :
    (host.ending s copying r).realm = (r.building s copying).realm := by
  rcases host.ending_cases s copying r with ⟨hsame, -⟩ | ⟨sleepers, hstarts, -, hend⟩
  · rw [hsame]
  · rw [hstarts] at hquiet
    rw [hend, Loading.after_forM_of_startsFrom hquiet]

/-- What a load builds it builds by moves. -/
theorem moves_building : Loading.Moves (start r).progress (r.building s copying).progress := by
  unfold Realm.building
  split
  · exact .refl
  · exact (Loading.builds_build s r).1

theorem acts_building {R : Realm P → Realm P → Prop} [Operational R] :
    R r (r.building s copying).realm :=
  have hmoves : Loading.Moves (start r).progress (r.building s copying).progress := moves_building
  hmoves.operates

theorem protections_building (k : Handle) :
    (r.building s copying).realm.protections k =
      r.protections k + (r.building s copying).made.count k := by
  unfold Realm.building
  split
  · rfl
  · exact Loading.protections_build s r k

theorem apart_building (hwf : r.heap.WellFormed)
    (hbound : (r.building s copying).realm.heap.capacity ≤ UInt32.size) :
    Loading.Apart r (r.building s copying).realm (r.building s copying).made := by
  unfold Realm.building at hbound ⊢
  split
  · exact Loading.Apart.start r
  · next hadmitted =>
    rw [if_neg hadmitted] at hbound
    exact Loading.apart_build s hwf hbound

/-- What a load has made is protected, so it lasts through careful runs. -/
theorem stays_of_careful (hr : r.Reachable)
    (hbuilt : (r.building s copying).realm.heap.capacity ≤ UInt32.size) {r₂ : Realm P}
    (hcareful : Careful (r.building s copying).realm r₂) (hbound : r₂.heap.capacity ≤ UInt32.size) :
    (r.building s copying).Stays r₂ := by
  have hsteps : r.Steps (r.building s copying).realm := acts_building
  obtain ⟨hwf, hslotted⟩ :=
    hsteps.evolves.heap.sound hr.sound.wellFormed hr.sound.slotted hbuilt
  intro h hh
  obtain ⟨-, object, hget, -⟩ := ((apart_building hr.sound.wellFormed hbuilt).made_iff h).1 hh
  have hprotected : 0 < (r.building s copying).realm.protections h := by
    rw [protections_building]
    exact Nat.lt_of_lt_of_le (List.count_pos_iff.2 hh) (Nat.le_add_left _ _)
  have hnature : (r.building s copying).realm.heap.nature? h = some object.nature := by
    rw [Heap.nature?, hget, Option.map_some]
  obtain ⟨other, hother, hsame⟩ :=
    Option.map_eq_some_iff.1 (hcareful.nature? hwf hslotted hbound hprotected hnature)
  exact ⟨object, other, hget, hother, hsame⟩

theorem ending_of_calls {R : Realm P → Realm P → Prop} [Course R]
    (hcalls : ∀ call ∈ host.awakeCalls s copying r,
      R call.2 (after (host.callMethod call.1 Loading.awakeName []) call.2))
    (hreport : ∀ error r, R r (r.report error)) :
    R (r.building s copying).realm (host.ending s copying r).realm := by
  rcases host.ending_cases s copying r with ⟨hsame, -⟩ | ⟨sleepers, -, hsame, hend⟩
  · rw [hsame]
    exact Course.refl _
  · rw [hend]
    rw [hsame] at hcalls
    exact Loading.forM_awakenOne_of_calls hreport hcalls

theorem acts_ending_of_report {R : Realm P → Realm P → Prop} [Course R] (hawake : Awakens R host)
    (hreport : ∀ error r, R r (r.report error)) :
    R (r.building s copying).realm (host.ending s copying r).realm :=
  ending_of_calls (fun call _ => hawake call.1 call.2) hreport

theorem acts_ending {R : Realm P → Realm P → Prop} [Operational R] (hawake : Awakens R host) :
    R (r.building s copying).realm (host.ending s copying r).realm :=
  acts_ending_of_report hawake fun error r => Operational.freely (.report error r) ⟨.refl, rfl, rfl⟩

/-- A load, whether it succeeds or fails, is made of operations. -/
theorem Operates.load {R : Realm P → Realm P → Prop} [Operational R] (h : host.Operates R)
    (hsteps : ∀ a b, Steps a b → R a b) (s : Snapshot) (copying : Bool) :
    Acts R id (host.load s copying) := by
  intro r
  show R r (after (host.load s copying) r)
  rw [after_load]
  have hbuilt : R r (r.building s copying).realm := acts_building
  have hended : R (r.building s copying).realm (host.ending s copying r).realm :=
    acts_ending h.awakens
  exact Course.trans (Course.trans hbuilt hended) (hsteps _ _ (Realm.steps_unprotectAll _ _))

/-- A copy, whether it succeeds or fails, is made of operations. -/
theorem Operates.clone {R : Realm P → Realm P → Prop} [Operational R] (h : host.Operates R)
    (hsteps : ∀ a b, Steps a b → R a b) (value : Value) (mask : List String) :
    Acts R id (host.clone value mask) :=
  Realm.acts_get.bind fun _ => (Realm.acts_lift _).bind fun s => h.load hsteps s true

section

variable (hawake : Awakens Careful host)

include hawake

theorem careful_awakeStarts {r₁ : Realm P} (h : r₁ ∈ host.awakeStarts s copying r) :
    Careful (r.building s copying).realm r₁ := by
  rcases host.ending_cases s copying r with ⟨-, hnone⟩ | ⟨sleepers, hstarts, -⟩
  · rw [hnone] at h
    cases h
  · rw [hstarts] at h
    exact (Loading.careful_startsFrom hawake h).1

/-- **Half-loaded graphs survive collections.** What the calls that awaken instances do to the realm
is up to them, as long as they drop no protection that they have not added: the objects that a load
has made last until it returns. -/
theorem load_keeps (hr : r.Reachable)
    (hbound : (after (host.load s copying) r).heap.capacity ≤ UInt32.size) :
    host.KeepsMade s copying r := by
  have hheap : (after (host.load s copying) r).heap = (host.ending s copying r).realm.heap := by
    rw [after_load, Realm.heap_unprotectAll]
  have hending : Careful (r.building s copying).realm (host.ending s copying r).realm :=
    acts_ending hawake
  rw [hheap] at hbound
  -- slots are never given back, so the bound holds all the way
  have hbuilt : (r.building s copying).realm.heap.capacity ≤ UInt32.size :=
    Nat.le_trans hending.evolves.heap.capacity hbound
  have hreturned : (r.building s copying).Stays (after (host.load s copying) r) := by
    unfold Loading.Stays
    rw [hheap]
    exact stays_of_careful hr hbuilt hending hbound
  constructor
  case made => exact (apart_building hr.sound.wellFormed hbuilt).made_iff
  case awake =>
    intro r₁ hr₁ r₂ hcareful hbound₂
    exact stays_of_careful hr hbuilt ((careful_awakeStarts hawake hr₁).trans hcareful) hbound₂
  case returned => exact hreturned
  case answer =>
    intro v _ h _ hh
    obtain ⟨-, other, -, hother, -⟩ := hreturned h hh
    exact Heap.contains_iff.2 ⟨other, hother⟩

end

end Host

/-- The built-in classes, and a class whose instances collect when they are awakened. -/
def Registry.withSleepers : Registry Scenario.platform :=
  let sleeper : RegisteredClass Scenario.platform := .ofOutline ⟨"Sleeper", none, false, false⟩
  (Registry.builtins.push sleeper.outline).setClass ⟨2⟩
    { sleeper with functions := sleeper.functions.insert "awake" (.callback [.collect]) }

theorem Registry.declared_withSleepers : Registry.withSleepers.Declared := by
  have hclass : (Registry.builtins (P := Scenario.platform)).register
      (.declareClass "Sleeper" none false) =
        .ok (Registry.builtins.push ⟨"Sleeper", none, false, false⟩) := by cbv
  have hfunction : ((Registry.builtins (P := Scenario.platform)).push
      ⟨"Sleeper", none, false, false⟩).register
        (.bindFunction ⟨2⟩ "awake" (.callback [.collect])) = .ok withSleepers := by cbv
  exact .register (.register .builtins hclass) hfunction

namespace Realm

/-- A realm with sleepers in its registry and nothing in its heap but the global object. -/
def ofSleepers : Realm Scenario.platform :=
  ofRegistry .withSleepers .standard Scenario.Stage.empty

theorem reachable_ofSleepers : ofSleepers.Reachable := by
  have hcapacity : ofSleepers.heap.capacity = 1 := by cbv
  exact ⟨.withSleepers, .standard, Scenario.Stage.empty, Registry.declared_withSleepers, .refl,
    by rw [hcapacity]; decide⟩

end Realm

/-- An instance that holds an array and another instance. -/
def Snapshot.ofSleepers : Snapshot :=
  ⟨#[⟨some "Sleeper", none, ⟨[("items", .array [.int 7]), ("next", .node 1)], by decide⟩⟩,
    ⟨some "Sleeper", none, .empty⟩], .node 0⟩

/-- Two instances and an array are there while a collection takes place in each of two calls. -/
theorem Host.load_keeps_sleepers :
    Realm.ofSleepers.Reachable ∧
    (after ((Scenario.hostWithin false 1).load .ofSleepers false) Realm.ofSleepers).heap.capacity ≤
      UInt32.size ∧
    (Realm.ofSleepers.building .ofSleepers false).made.length = 3 ∧
    ((Scenario.hostWithin false 1).awakeStarts .ofSleepers false Realm.ofSleepers).length = 2 ∧
    (Scenario.hostWithin false 1).KeepsMade .ofSleepers false Realm.ofSleepers := by
  have hcapacity : (after ((Scenario.hostWithin false 1).load .ofSleepers false)
      Realm.ofSleepers).heap.capacity = 4 := by cbv
  have hbound : (after ((Scenario.hostWithin false 1).load .ofSleepers false)
      Realm.ofSleepers).heap.capacity ≤ UInt32.size := by rw [hcapacity]; decide
  exact ⟨Realm.reachable_ofSleepers, hbound, by cbv, by cbv,
    load_keeps (Scenario.operates_hostWithin false 1).awakens Realm.reachable_ofSleepers hbound⟩

end ScriptBridge
