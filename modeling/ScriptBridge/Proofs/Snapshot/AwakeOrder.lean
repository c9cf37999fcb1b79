import ScriptBridge.Proofs.Snapshot.Growth

/-!
# The Order of Awakening

When its graph is complete, a load awakens the instances that it has made: those of classes that are
not built in and that have a function for it, or inherit one. It goes through them from the newest to
the oldest one, so that what lies inside of an object is awakened before it. In lenient mode the errors
of calls are reported one after the other; in strict mode the first one ends the load.

Main statements: `run_forM_awakenOne` (which calls are made) and `Host.awakens_in_order`.
-/

namespace ScriptBridge

open Realm (after answer Careful unprotectAll)

variable {P : Platform}

namespace Loading

/-- The class of an instance, or an ancestor, has a function that awakens it. -/
def bindsAwake (r : Realm P) (h : Handle) : Bool :=
  ((r.classOf? h).bind (r.registry.resolveFunction? · awakeName)).isSome

section

variable {host : Host P} {base : Realm P} {sleepers : List Handle} {t : Loading P}

/-- Where no field gets in between, the function that awakens an instance is one of its class. -/
theorem canAwake_eq {r : Realm P} {h : Handle}
    (hfield : canAwake r h = true → r.field? h awakeName = none) : canAwake r h = bindsAwake r h := by
  unfold canAwake bindsAwake at *
  cases hbinds : ((r.classOf? h).bind (r.registry.resolveFunction? · awakeName)).isSome with
  | true => rfl
  | false =>
    rw [hbinds, Bool.false_or] at hfield
    rw [Bool.false_or]
    by_contra hfunction
    rw [Bool.not_eq_false] at hfunction
    rw [hfield hfunction] at hfunction
    cases hfunction

/-- An instance that stays what it is keeps its function. -/
theorem bindsAwake_eq {r : Realm P} {h : Handle} (hcareful : Careful base r)
    (hclass : r.classOf? h = base.classOf? h) : bindsAwake r h = bindsAwake base h := by
  unfold bindsAwake
  rw [hclass, hcareful.evolves.registry]

/-- The instances that are looked at are awakened if their classes have a function for it. -/
theorem run_forM_awakenOne (hawake : Awakens Careful host) (hcareful : Careful base t.realm)
    (hstays : ∀ h ∈ sleepers, ∀ r, Careful base r → r.heap.capacity ≤ UInt32.size →
      r.classOf? h = base.classOf? h)
    (hfield : ∀ call ∈ callsFrom host sleepers t, call.2.field? call.1 awakeName = none)
    (hbound : (after (sleepers.forM (awakenOne host)) t).Bounded) :
    Id.run ((sleepers.forM (awakenOne host)).run.run t) =
      Id.run (((sleepers.filter (bindsAwake base)).forM (rouse host)).run.run t) := by
  induction sleepers generalizing t with
  | nil => rfl
  | cons h sleepers ih =>
    have hall : Careful t.realm (after ((h :: sleepers).forM (awakenOne host)) t).realm :=
      Realm.acts_forM (acts_awakenOne hawake) _ t
    have hone : Careful t.realm (after (awakenOne host h) t).realm := acts_awakenOne hawake h t
    have hcan : canAwake t.realm h = bindsAwake base h := by
      have hbefore : t.realm.heap.capacity ≤ UInt32.size :=
        Nat.le_trans hall.evolves.heap.capacity hbound
      rw [canAwake_eq, bindsAwake_eq hcareful (hstays h List.mem_cons_self _ hcareful hbefore)]
      intro hcan
      refine hfield (h, t.realm) ?_
      rw [callsFrom, if_pos hcan]
      exact List.mem_append_left _ List.mem_cons_self
    have hawaken : Id.run ((awakenOne host h).run.run t) =
        if bindsAwake base h then Id.run ((rouse host h).run.run t) else (.ok (), t) := by
      rw [← hcan, awakenOne_eq, Realm.run_bind_of_ok (runs_ask (s := t) (canAwake · h))]
      cases canAwake t.realm h <;> rfl
    show Id.run ((awakenOne host h >>= fun _ => sleepers.forM (awakenOne host)).run.run t) = _
    rw [List.filter_cons]
    have hcons : (h :: sleepers.filter (bindsAwake base)).forM (rouse host) =
      rouse host h >>= fun _ => (sleepers.filter (bindsAwake base)).forM (rouse host) := rfl
    cases hrun : Id.run ((awakenOne host h).run.run t) with
    | mk outcome t' =>
      have hthere : (after (awakenOne host h) t) = t' := congrArg Prod.snd hrun
      cases outcome with
      | ok u =>
        have hrest : Id.run ((sleepers.forM (awakenOne host)).run.run t') =
            Id.run (((sleepers.filter (bindsAwake base)).forM (rouse host)).run.run t') := by
          apply ih
          · exact hcareful.trans (hthere ▸ hone)
          · exact fun k hk => hstays k (List.mem_cons_of_mem _ hk)
          · intro call hcall
            refine hfield call ?_
            rw [callsFrom, hrun]
            exact List.mem_append_right _ hcall
          · rwa [after_forM_awakenOne hrun] at hbound
        rw [Realm.run_bind_of_ok hrun, hrest]
        rw [hawaken] at hrun
        cases hbinds : bindsAwake base h with
        | true =>
          rw [hbinds, if_pos rfl] at hrun
          rw [if_pos rfl, hcons, Realm.run_bind_of_ok hrun]
        | false =>
          rw [hbinds, if_neg Bool.false_ne_true] at hrun
          rw [if_neg Bool.false_ne_true, (Prod.mk.inj hrun).2]
      -- a call that ends the load is one that is made
      | error error =>
        have hfails : answer (awakenOne host h) t = .error error := congrArg Prod.fst hrun
        rw [Realm.run_bind_of_error hfails, hthere]
        rw [hawaken] at hrun
        cases hbinds : bindsAwake base h with
        | true =>
          rw [hbinds, if_pos rfl] at hrun
          have hfails' : answer (rouse host h) t = .error error := congrArg Prod.fst hrun
          have hthere' : after (rouse host h) t = t' := congrArg Prod.snd hrun
          rw [if_pos rfl, hcons, Realm.run_bind_of_error hfails', hthere']
        | false =>
          rw [hbinds, if_neg Bool.false_ne_true] at hrun
          cases (Prod.mk.inj hrun).1

/-! ## The Two Modes -/

/-- In lenient mode all instances are called, and errors are reported. -/
theorem runs_forM_rouse (hawake : Awakens Careful host) (sleepers : List Handle)
    (hlenient : t.realm.options.strictness = .lenient) :
    Runs (sleepers.forM (rouse host)) t () { t with realm := sleepers.foldl (roused host) t.realm } := by
  induction sleepers generalizing t with
  | nil => exact runs_pure ()
  | cons h sleepers ih =>
    refine (runs_rouse hawake h hlenient).bind (ih ?_)
    rw [options_roused hawake]
    exact hlenient

/-- In strict mode an error ends the load. -/
theorem run_forM_rouse (hawake : Awakens Careful host) (sleepers : List Handle)
    (hstrict : t.realm.options.strictness = .strict) :
    Id.run ((sleepers.forM (rouse host)).run.run t) =
      match Id.run ((sleepers.forM fun h => discard (host.callMethod h awakeName [])).run.run
        t.realm) with
      | (.ok _, r') => (.ok (), { t with realm := r' })
      | (.error error, r') => (.error (.script error), { t with realm := r' }) := by
  induction sleepers generalizing t with
  | nil => rfl
  | cons h sleepers ih =>
    show Id.run ((rouse host h >>= fun _ => sleepers.forM (rouse host)).run.run t) =
      match Id.run ((discard (host.callMethod h awakeName []) >>= fun _ =>
        sleepers.forM fun h => discard (host.callMethod h awakeName [])).run.run t.realm) with
      | (.ok _, r') => _
      | (.error error, r') => _
    have hdiscard : discard (host.callMethod h awakeName []) =
      host.callMethod h awakeName [] >>= fun _ => pure () := rfl
    have hoptions := (hawake h t.realm).evolves.options
    unfold after id at hoptions
    cases hcall : Id.run ((host.callMethod h awakeName []).run.run t.realm) with
    | mk outcome r' =>
      rw [hcall] at hoptions
      have hattempt : Runs (attempt (host.callMethod h awakeName [])) t outcome
        { t with realm := r' } := runs_attempt hcall
      cases outcome with
      | ok v =>
        have hrouse : Runs (rouse host h) t () { t with realm := r' } := hattempt.bind (runs_pure ())
        have hcalled : Id.run ((discard (host.callMethod h awakeName [])).run.run t.realm) =
            (.ok (), r') := by
          rw [hdiscard, Realm.run_bind_of_ok hcall]
          rfl
        rw [Realm.run_bind_of_ok hrouse, Realm.run_bind_of_ok hcalled]
        exact ih (hoptions ▸ hstrict)
      -- the others are not called
      | error error =>
        have hmode := runs_ask (s := { t with realm := r' })
          fun r : Realm P => r.options.strictness == .strict
        rw [hoptions, hstrict] at hmode
        have hrouse : Id.run ((rouse host h).run.run t) =
            (.error (.script error), { t with realm := r' }) := by
          unfold rouse
          rw [Realm.run_bind_of_ok hattempt]
          exact Realm.run_bind_of_ok hmode
        have hcalled : Id.run ((discard (host.callMethod h awakeName [])).run.run t.realm) =
            (.error error, r') := by
          have hfails : answer (host.callMethod h awakeName []) t.realm = .error error :=
            congrArg Prod.fst hcall
          have hthere : after (host.callMethod h awakeName []) t.realm = r' :=
            congrArg Prod.snd hcall
          rw [hdiscard, Realm.run_bind_of_error hfails, hthere]
        have hends : answer (rouse host h) t = .error (.script error) := congrArg Prod.fst hrouse
        have hends' : answer (discard (host.callMethod h awakeName [])) t.realm = .error error :=
          congrArg Prod.fst hcalled
        rw [Realm.run_bind_of_error hends, Realm.run_bind_of_error hends']
        have hthere : after (rouse host h) t = { t with realm := r' } := congrArg Prod.snd hrouse
        have hthere' : after (discard (host.callMethod h awakeName [])) t.realm = r' :=
          congrArg Prod.snd hcalled
        rw [hthere, hthere']

end

end Loading

open Loading (start build callsFrom Awakens Growth Grows bindsAwake roused)

/-- An instance of a class that is not built in, which has a function to awaken it or inherits one. -/
def Realm.isAwakened (r : Realm P) (h : Handle) : Bool :=
  bindsAwake r h && (r.classOf? h).any r.registry.isCustom

/-- The instances that a load awakens, in this order: those that it has made, the newest first. -/
def Realm.awakeOrder (r : Realm P) (s : Snapshot) (copying : Bool) : List Handle :=
  (r.building s copying).made.filter (r.building s copying).realm.isAwakened

namespace Host

variable (host : Host P) (s : Snapshot) (copying : Bool) (r : Realm P)

/-- How a load goes on when its graph is complete. -/
structure AwakensInOrder (root : Value) : Prop where
  /-- No instance is awakened twice. -/
  once : (r.awakeOrder s copying).Nodup
  /-- The load has made one object for each array and each node that it has read, of the class of the
  node; and what lies inside of an instance is awakened before it. -/
  inside : ∃ g : Growth, Grows r s [s.root] g ∧
    (r.building s copying).made.reverse = g.instances.map Prod.fst ∧
    (∀ x ∈ g.instances, (r.building s copying).realm.classOf? x.1 = some x.2) ∧
    ∀ outer inner, g.Encloses outer inner →
      outer ∈ r.awakeOrder s copying → inner ∈ r.awakeOrder s copying →
      [inner, outer].Sublist (r.awakeOrder s copying)
  /-- In lenient mode all of them are called, and the error of each call is reported. -/
  lenient : r.options.strictness = .lenient → ∀ r',
    (r.awakeOrder s copying).foldl (roused host) (r.building s copying).realm = r' →
    Id.run ((host.load s copying).run.run r) =
      (.ok (r'.expand root), unprotectAll (r.building s copying).made r')
  /-- In strict mode they are called until a call fails, and its error is that of the load. -/
  strict : r.options.strictness = .strict →
    Id.run ((host.load s copying).run.run r) =
      match Id.run (((r.awakeOrder s copying).forM fun h =>
        discard (host.callMethod h Loading.awakeName [])).run.run (r.building s copying).realm) with
      | (.ok _, r') => (.ok (r'.expand root), unprotectAll (r.building s copying).made r')
      | (.error error, r') =>
        (.error (.script error), unprotectAll (r.building s copying).made r')

variable {host s copying r}

/-- The instances that are looked at are those of classes that are not built in. -/
theorem filter_sleepers {g : Growth} {b : Loading P} (hregistry : b.realm.registry = r.registry)
    (hadded : Loading.Added r g (start r) b) :
    b.sleepers.filter (bindsAwake b.realm) = b.made.filter b.realm.isAwakened := by
  have hcustom : (g.instances.filter fun x => r.registry.isCustom x.2).map Prod.fst =
      (g.instances.map Prod.fst).filter fun h =>
        (b.realm.classOf? h).any b.realm.registry.isCustom := by
    rw [List.filter_map]
    congr 1
    apply List.filter_congr
    intro x hx
    rw [Function.comp_apply, hadded.classes x hx, Option.any_some, hregistry]
  have hmade : b.made = (g.instances.map Prod.fst).reverse := by
    rw [hadded.made]
    exact List.append_nil _
  have hsleepers : b.sleepers =
      ((g.instances.filter fun x => r.registry.isCustom x.2).map Prod.fst).reverse := by
    rw [hadded.sleepers]
    exact List.append_nil _
  rw [hsleepers, hmade, hcustom, ← List.filter_reverse, List.filter_filter]
  rfl

/-- What a load has made keeps its class as long as it is protected. -/
theorem classOf?_of_careful (hr : r.Reachable)
    (hbuilt : (r.building s copying).realm.heap.capacity ≤ UInt32.size) {h : Handle}
    (hh : h ∈ (r.building s copying).made) {r' : Realm P}
    (hcareful : Careful (r.building s copying).realm r') (hbound : r'.heap.capacity ≤ UInt32.size) :
    r'.classOf? h = (r.building s copying).realm.classOf? h := by
  obtain ⟨object, object', hget, hget', hnature⟩ := stays_of_careful hr hbuilt hcareful hbound h hh
  rw [Realm.classOf?_eq, Realm.classOf?_eq, Heap.nature?, Heap.nature?, hget, hget']
  exact congrArg (fun nature => (some nature).bind ObjectForm.classNumber?) hnature

/-- Awakening calls the instances one after the other. -/
theorem run_awaken_building (hawake : Awakens Careful host) (hr : r.Reachable) {root : Value}
    (hadmitted : (!copying && s.holdsLiveObjects) = false)
    (hbuild : answer (build s) (start r) = .ok root)
    (hfield : ∀ call ∈ host.awakeCalls s copying r, call.2.field? call.1 Loading.awakeName = none)
    (hbound : (host.ending s copying r).realm.heap.capacity ≤ UInt32.size)
    {g : Growth} (hadded : Loading.Added r g (start r) (r.building s copying)) :
    Id.run ((Loading.awaken host).run.run (r.building s copying)) =
      Id.run (((r.awakeOrder s copying).forM (Loading.rouse host)).run.run
        { r.building s copying with sleepers := [] }) := by
  have hb : r.building s copying = after (build s) (start r) := by
    unfold Realm.building
    rw [hadmitted, if_neg Bool.false_ne_true]
  have hcalls : host.awakeCalls s copying r = callsFrom host (r.building s copying).sleepers
      { r.building s copying with sleepers := [] } := by
    unfold awakeCalls
    rw [hadmitted, if_neg Bool.false_ne_true, Realm.run_of_answer hbuild, hb]
  have hend : host.ending s copying r = after ((r.building s copying).sleepers.forM
      (Loading.awakenOne host)) { r.building s copying with sleepers := [] } := by
    unfold ending
    rw [hadmitted, if_neg Bool.false_ne_true, hb]
    exact (congrArg Prod.snd (Loading.run_load_of_ok (Realm.run_of_answer hbuild) host)).trans
      (Loading.after_awaken_ask host root _)
  have hevolves : Realm.Evolves r (r.building s copying).realm :=
    (acts_building (R := Realm.Steps)).evolves
  have hending : Careful (r.building s copying).realm (host.ending s copying r).realm :=
    acts_ending hawake
  have hbuilt := Nat.le_trans hending.evolves.heap.capacity hbound
  -- all that sleeps has been made by the load, so its protections keep it alive
  have hsleepers : ∀ h ∈ (r.building s copying).sleepers, h ∈ (r.building s copying).made := by
    intro h hh
    rw [hadded.sleepers] at hh
    rw [hadded.made]
    rcases List.mem_append.1 hh with hh | hh
    · refine List.mem_append_left _ (List.mem_reverse.2 ?_)
      exact (List.filter_sublist.map Prod.fst).subset (List.mem_reverse.1 hh)
    · cases hh
  -- from here on only the sleepers and the state after the build matter
  rw [hcalls] at hfield
  rw [hend] at hbound
  rw [Loading.awaken_eq, Realm.awakeOrder, ← filter_sleepers hevolves.registry hadded]
  exact Loading.run_forM_awakenOne hawake (Careful.refl _)
    (fun h hh r' hcareful hbound' => classOf?_of_careful hr hbuilt (hsleepers h hh) hcareful hbound')
    hfield hbound

/-- What has been made inside of something is called before it. -/
theorem sublist_awakeOrder {g : Growth} {outer inner : Handle} (hencloses : g.Encloses outer inner)
    (hmade : (r.building s copying).made.reverse = g.instances.map Prod.fst)
    (houter : outer ∈ r.awakeOrder s copying) (hinner : inner ∈ r.awakeOrder s copying) :
    [inner, outer].Sublist (r.awakeOrder s copying) := by
  have hsublist : [inner, outer].Sublist (r.building s copying).made := by
    have hsublist := hencloses.sublist.reverse
    rwa [← hmade, List.reverse_reverse] at hsublist
  have hboth : [inner, outer].filter (r.building s copying).realm.isAwakened = [inner, outer] := by
    rw [List.filter_eq_self]
    intro h hh
    rcases List.mem_cons.1 hh with rfl | hh
    · exact (List.mem_filter.1 hinner).2
    · exact List.mem_singleton.1 hh ▸ (List.mem_filter.1 houter).2
  exact hboth ▸ hsublist.filter _

/-- **Instances are awakened from the inside to the outside.** When the graph of a snapshot is
complete, a load calls each instance that it has made whose class is not built in and has a function
for that, or inherits one, and it calls each of them once, the newest first: so what lies inside of an
instance, behind any number of nodes and arrays, is awakened before it. The calls may do whatever
leaves the protections of the load alone, provided that no field hides what the class has. -/
theorem awakens_in_order (hawake : Awakens Careful host) (hr : r.Reachable) {root : Value}
    (hadmitted : (!copying && s.holdsLiveObjects) = false)
    (hbuild : answer (build s) (start r) = .ok root)
    (hfield : ∀ call ∈ host.awakeCalls s copying r, call.2.field? call.1 Loading.awakeName = none)
    (hbound : (after (host.load s copying) r).heap.capacity ≤ UInt32.size) :
    host.AwakensInOrder s copying r root := by
  have hb : r.building s copying = after (build s) (start r) := by
    unfold Realm.building
    rw [hadmitted, if_neg Bool.false_ne_true]
  have hending : Careful (r.building s copying).realm (host.ending s copying r).realm :=
    acts_ending hawake
  rw [after_load, Realm.heap_unprotectAll] at hbound
  have hbuilt : (r.building s copying).realm.heap.capacity ≤ UInt32.size :=
    Nat.le_trans hending.evolves.heap.capacity hbound
  have hevolves : Realm.Evolves r (r.building s copying).realm :=
    (acts_building (R := Realm.Steps)).evolves
  obtain ⟨g, hgrows, hadded⟩ :=
    Loading.exists_growth_of_build hr.sound.registry hr.sound.wellFormed s hbuild (hb ▸ hbuilt)
  have hnodup := Loading.nodup_made s hr.sound.wellFormed (hb ▸ hbuilt)
  rw [← hb] at hadded hnodup
  -- what has been made, in the order in which the walk meets it
  have hmade : (r.building s copying).made.reverse = g.instances.map Prod.fst := by
    rw [hadded.made, List.reverse_append, List.reverse_reverse]
    rfl
  have hawaken := run_awaken_building hawake hr hadmitted hbuild hfield hbound hadded
  have hload := Loading.run_load_of_ok (Realm.run_of_answer hbuild) host
  rw [← hb] at hload
  constructor
  case once => exact hnodup.filter _
  case inside =>
    exact ⟨g, hgrows, hmade, hadded.classes, fun outer inner hencloses houter hinner =>
      sublist_awakeOrder hencloses hmade houter hinner⟩
  case lenient =>
    rintro hlenient r' rfl
    rw [Loading.runs_forM_rouse hawake _ (hevolves.options ▸ hlenient)] at hawaken
    rw [Realm.run_bind_of_ok hawaken] at hload
    exact host.run_load hadmitted hload
  case strict =>
    intro hstrict
    rw [Loading.run_forM_rouse hawake _ (hevolves.options ▸ hstrict)] at hawaken
    -- the first call that fails ends the load, and what it has done before stays
    cases hcalls : Id.run (((r.awakeOrder s copying).forM fun h =>
        discard (host.callMethod h Loading.awakeName [])).run.run
          (r.building s copying).realm) with
    | mk outcome r' =>
      rw [hcalls] at hawaken
      cases outcome with
      | ok u =>
        rw [Realm.run_bind_of_ok hawaken] at hload
        exact host.run_load hadmitted hload
      | error error =>
        have hfails : answer (Loading.awaken host) (r.building s copying) =
            .error (.script error) := congrArg Prod.fst hawaken
        have hthere : after (Loading.awaken host) (r.building s copying) =
            { r.building s copying with realm := r', sleepers := [] } := congrArg Prod.snd hawaken
        rw [Realm.run_bind_of_error hfails, hthere] at hload
        exact host.run_load hadmitted hload

/-- An instance inside of another one is awakened first. -/
theorem awakens_in_order_sleepers :
    Realm.ofSleepers.Reachable ∧
    (!false && Snapshot.ofSleepers.holdsLiveObjects) = false ∧
    answer (build .ofSleepers) (start Realm.ofSleepers) = .ok (.object ⟨1, 0⟩) ∧
    (∀ call ∈ (Scenario.hostWithin false 1).awakeCalls .ofSleepers false Realm.ofSleepers,
      call.2.field? call.1 Loading.awakeName = none) ∧
    (after ((Scenario.hostWithin false 1).load .ofSleepers false) Realm.ofSleepers).heap.capacity ≤
      UInt32.size ∧
    Realm.ofSleepers.awakeOrder .ofSleepers false = [⟨3, 0⟩, ⟨1, 0⟩] ∧
    (Scenario.hostWithin false 1).AwakensInOrder .ofSleepers false Realm.ofSleepers
      (.object ⟨1, 0⟩) := by
  have hadmitted : (!false && Snapshot.ofSleepers.holdsLiveObjects) = false := by cbv
  have hbuild : answer (build .ofSleepers) (start Realm.ofSleepers) = .ok (.object ⟨1, 0⟩) := by cbv
  have hfields : ((Scenario.hostWithin false 1).awakeCalls .ofSleepers false
      Realm.ofSleepers).map (fun call => call.2.field? call.1 Loading.awakeName) =
        [none, none] := by cbv
  have hfield : ∀ call ∈ (Scenario.hostWithin false 1).awakeCalls .ofSleepers false
      Realm.ofSleepers, call.2.field? call.1 Loading.awakeName = none := by
    intro call hcall
    have hmem := List.mem_map_of_mem (f := fun call => call.2.field? call.1 Loading.awakeName) hcall
    rw [hfields] at hmem
    simpa using hmem
  have hcapacity : (after ((Scenario.hostWithin false 1).load .ofSleepers false)
      Realm.ofSleepers).heap.capacity = 4 := by cbv
  have hbound : (after ((Scenario.hostWithin false 1).load .ofSleepers false)
      Realm.ofSleepers).heap.capacity ≤ UInt32.size := by rw [hcapacity]; decide
  exact ⟨Realm.reachable_ofSleepers, hadmitted, hbuild, hfield, hbound, by cbv,
    awakens_in_order (Scenario.operates_hostWithin false 1).awakens Realm.reachable_ofSleepers
      hadmitted hbuild hfield hbound⟩

end Host

end ScriptBridge
