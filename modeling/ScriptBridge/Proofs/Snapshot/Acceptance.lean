import ScriptBridge.Proofs.Snapshot.Saving
import ScriptBridge.Snapshot.Loading

/-!
# Loading What has been Saved

Saving and loading count containers on their own: one on the way through live objects, the other on
the way through nodes. What has been saved with some room can be walked through with the same room, and
loading follows this walk, so that it never comes to a container without room, to a node that is missing
or to a stub where no place can wait for its object. Whatever else it fails with depends on the realm.

Main statements: `accepts_read` (reading an entry on a walk) and
`Realm.Reachable.load_accepts_saved`.
-/

namespace ScriptBridge

/-- Whether an error tells of the snapshot itself, of its depth or of its form. -/
def SnapshotError.isStructural : SnapshotError → Bool
  | depthExceeded _ | malformed _ => true
  | _ => false

open Realm (answer after)

namespace Loading

open Snapshot (Entry Node Visits)

variable {P : Platform} {α β : Type}

/-! ## Steps that Take a Snapshot as it is -/

/-- Whatever a step fails with, and wherever it starts, the snapshot is not to blame. -/
def Accepts (step : LoadingM P α) : Prop :=
  ∀ s error, answer step s = .error error → error.isStructural = false

theorem accepts_pure (a : α) : Accepts (pure a : LoadingM P α) := by
  intro s error herror
  cases herror

theorem accepts_throw {error : SnapshotError} (h : error.isStructural = false) :
    Accepts (throw error : LoadingM P α) := by
  intro s other hother
  exact Except.error.inj hother ▸ h

theorem accepts_throw_bind {error : SnapshotError} (h : error.isStructural = false)
    (next : β → LoadingM P α) : Accepts (throw error >>= next) := by
  intro s other hother
  exact Except.error.inj hother ▸ h

theorem Accepts.bind {step : LoadingM P α} {next : α → LoadingM P β} (h : Accepts step)
    (h' : ∀ a, Accepts (next a)) : Accepts (step >>= next) := by
  intro s error herror
  cases hstep : answer step s with
  | ok a =>
    have hrun : Id.run ((step >>= next).run.run s) = Id.run ((next a).run.run (after step s)) :=
      Realm.run_bind_of_ok (Realm.run_of_answer hstep)
    exact h' a (after step s) error ((congrArg Prod.fst hrun).symm.trans herror)
  | error other =>
    have hrun : Id.run ((step >>= next).run.run s) = (.error other, after step s) :=
      Realm.run_bind_of_error hstep
    obtain rfl := Except.error.inj ((congrArg Prod.fst hrun).symm.trans herror)
    exact h s other hstep

theorem accepts_modifyGet (f : Loading P → α × Loading P) :
    Accepts (modifyGet f : LoadingM P α) := by
  intro s error herror
  cases herror

theorem accepts_get : Accepts (get : LoadingM P (Loading P)) := by
  intro s error herror
  cases herror

theorem accepts_ask (question : Realm P → α) : Accepts (ask question) := by
  intro s error herror
  cases herror

/-- What is done about the answer of the realm. -/
theorem accepts_ask_bind {question : Realm P → β} {next : β → LoadingM P α}
    (h : ∀ r, Accepts (next (question r))) : Accepts (ask question >>= next) :=
  fun s => h s.realm s

theorem accepts_ok {a : β} {next : β → LoadingM P α} (h : Accepts (next a)) :
    Accepts ((liftM (Except.ok a : Except SnapshotError β) : LoadingM P β) >>= next) := h

theorem accepts_forM {step : β → LoadingM P PUnit} {xs : List β} (h : ∀ x ∈ xs, Accepts (step x)) :
    Accepts (xs.forM step) := by
  induction xs with
  | nil => exact accepts_pure _
  | cons x xs ih =>
    exact (h x List.mem_cons_self).bind fun _ => ih fun y hy => h y (List.mem_cons_of_mem _ hy)

theorem Accepts.discard {step : LoadingM P α} (h : Accepts step) : Accepts (discard step) :=
  h.bind fun _ => accepts_pure _

theorem accepts_perform (action : Action P α) : Accepts (perform action) := by
  refine (accepts_modifyGet _).bind fun outcome => ?_
  cases outcome with
  | ok a => exact accepts_pure a
  | error error => exact accepts_throw rfl

/-- What is found amiss ends a strict load, and any other passes over it. -/
theorem accepts_strictly {error : SnapshotError} (h : error.isStructural = false) :
    Accepts (do if ← isStrict then throw error : LoadingM P PUnit) := by
  refine (accepts_ask _).bind fun strict => ?_
  cases strict with
  | false => exact accepts_pure _
  | true => exact accepts_throw h

/-! ## Writing and Waiting -/

theorem accepts_write (h : Handle) (name : String) (value : Value) :
    Accepts (write h name value : LoadingM P Unit) := by
  refine (accepts_modifyGet _).bind fun outcome => ?_
  cases outcome with
  | ok accepted => exact accepts_pure _
  | error error => exact accepts_strictly rfl

theorem accepts_assignElement (array : Handle) (index : Nat) (value : Value) :
    Accepts (discard (perform (Realm.assignElement array index value)) : LoadingM P Unit) :=
  (accepts_perform _).discard

theorem accepts_settle (target : Handle) (place : Place) :
    Accepts (settle target place : LoadingM P Unit) := by
  cases place with
  | property owner name => exact accepts_write owner name _
  | item array index => exact accepts_assignElement array index _

theorem accepts_announce (id : String) (target : Handle) :
    Accepts (announce id target : LoadingM P Unit) :=
  accepts_get.bind fun _ => (accepts_modifyGet _).bind fun _ =>
    accepts_forM fun place _ => accepts_settle target place

theorem accepts_settleAll : Accepts (settleAll : LoadingM P Unit) := by
  refine accepts_get.bind fun _ => (accepts_modifyGet _).bind fun _ => accepts_forM ?_
  rintro ⟨id, places⟩ -
  refine accepts_get.bind fun s => ?_
  cases s.built.lookup id with
  | some target => exact accepts_forM fun place _ => accepts_settle target place
  | none => exact accepts_strictly rfl

theorem accepts_renewAll : Accepts (renewAll : LoadingM P Unit) :=
  accepts_get.bind fun _ => (accepts_modifyGet _).bind fun _ =>
    accepts_forM fun renewal _ => accepts_write renewal.1 renewal.2.1 _

/-! ## Objects -/

theorem accepts_keepAlive (h : Handle) : Accepts (keepAlive h : LoadingM P Unit) :=
  accepts_modifyGet _

theorem accepts_make (className : Option String) : Accepts (make className : LoadingM P Handle) := by
  refine (accepts_ask _).bind fun registry => ?_
  cases className with
  | none =>
    refine (accepts_perform _).bind fun h => ?_
    exact (accepts_keepAlive h).bind fun _ => accepts_pure h
  | some name =>
    dsimp only
    cases registry.lookup? name with
    | some c =>
      refine (accepts_perform _).bind fun h => ?_
      split
      · refine (accepts_modifyGet _).bind fun _ => ?_
        exact (accepts_keepAlive h).bind fun _ => accepts_pure h
      · exact (accepts_keepAlive h).bind fun _ => accepts_pure h
    | none =>
      refine (accepts_ask _).bind fun strict => ?_
      cases strict with
      | false =>
        refine (accepts_perform _).bind fun h => ?_
        exact (accepts_keepAlive h).bind fun _ => accepts_pure h
      | true => exact accepts_throw_bind rfl _

theorem accepts_findSingleton (name : String) :
    Accepts (findSingleton name : LoadingM P (Option Handle)) := by
  refine (accepts_ask _).bind fun found => ?_
  cases found with
  | some h => exact accepts_pure _
  | none =>
    refine (accepts_ask _).bind fun strict => ?_
    cases strict with
    | false => exact accepts_pure _
    | true => exact accepts_throw_bind rfl _

/-! ## Reading -/

/-- What lies one container deeper is read without finding fault with it. A stub is not read. -/
def AcceptsInside (inner : Inner P) (entries : List Entry) : Prop :=
  ∀ entry ∈ entries, (∀ id, entry ≠ .stub id) → Accepts (inner entry)

variable {inner : Inner P}

theorem accepts_restoreEntry (h : Handle) (key : String) {entry : Entry}
    (hinner : AcceptsInside inner [entry]) : Accepts (restoreEntry inner h key entry) := by
  unfold restoreEntry
  split
  · refine (accepts_perform _).bind fun f => ?_
    exact accepts_write h _ _
  · refine (accepts_modifyGet _).bind fun _ => ?_
    exact Accepts.discard (accepts_modifyGet _)
  -- an entry that is not a stub, which would have been left to wait
  · next hstub _ =>
    refine accepts_get.bind fun _ => ?_
    refine (hinner _ List.mem_cons_self hstub).bind fun value => ?_
    dsimp only
    split
    · refine accepts_get.bind fun _ => ?_
      split
      · exact (accepts_modifyGet _).bind fun _ => accepts_write h key _
      · exact accepts_write h key _
    · exact accepts_write h key _

theorem accepts_rebuildNode {node : Node} (hinner : AcceptsInside inner node.entries.values) :
    Accepts (rebuildNode inner node) := by
  -- the entries of the node, in the order of their phases
  have hentries : ∀ h, Accepts (do
      let entries ← ask fun r : Realm P => inPhases r (r.classOf? h) node.entries
      entries.forM fun entry => restoreEntry inner h entry.1 entry.2
      return some h) := by
    refine fun h => accepts_ask_bind fun r => ?_
    refine (accepts_forM ?_).bind fun _ => accepts_pure _
    rintro ⟨key, entry⟩ hentry
    obtain ⟨_, -, hmem⟩ := List.mem_flatMap.1 hentry
    have hvalue : entry ∈ node.entries.values :=
      List.mem_map.2 ⟨(key, entry), (List.mem_filter.1 hmem).1, rfl⟩
    exact accepts_restoreEntry h key (by simpa [AcceptsInside] using hinner entry hvalue)
  refine (accepts_ask _).bind fun single => ?_
  cases single with
  | some name =>
    refine (accepts_findSingleton name).bind fun found => ?_
    cases found with
    | none => exact accepts_pure _
    | some h =>
      dsimp only
      split
      · exact (accepts_announce _ h).bind fun _ => accepts_pure _
      · exact accepts_pure _
  | none =>
    refine (accepts_make _).bind fun h => ?_
    dsimp only
    split
    · exact (accepts_announce _ h).bind fun _ => hentries h
    · exact hentries h

theorem accepts_rebuildItems {array : Handle} {index : Nat} {items : List Entry}
    (hinner : AcceptsInside inner items) : Accepts (rebuildItems inner array index items) := by
  induction items generalizing index with
  | nil => exact accepts_pure _
  | cons item items ih =>
    -- a stub that waits goes on like an item that has been read
    have hrest : ∀ value, Accepts (discard (perform (Realm.assignElement array index value)) >>=
        fun _ => rebuildItems inner array (index + 1) items) := fun value =>
      (accepts_assignElement array index value).bind fun _ =>
        ih fun entry hentry => hinner entry (List.mem_cons_of_mem _ hentry)
    unfold rebuildItems
    dsimp only
    split
    · exact (accepts_modifyGet _).bind fun _ => hrest _
    · next hstub => exact (hinner item List.mem_cons_self hstub).bind hrest

theorem accepts_rebuildArray {items : List Entry} (hinner : AcceptsInside inner items) :
    Accepts (rebuildArray inner items) :=
  (accepts_perform _).bind fun array => (accepts_keepAlive array).bind fun _ =>
    (accepts_rebuildItems hinner).bind fun _ => accepts_pure array

/-- Reading the entries of a walk, with room for what the walk needs room for. -/
theorem accepts_read {s : Snapshot} {room : Nat} {entries : List Entry} {met : List Nat}
    (h : Visits s.nodes room entries met) : AcceptsInside (read (P := P) s room) entries := by
  -- along the walk
  induction h with
  | nil => simp [AcceptsInside]
  | @leaf room entry entries after hleaf _ ih =>
    refine List.forall_mem_cons.2 ⟨fun hstub => ?_, ih⟩
    -- it does not matter whether there is room inside of a leaf
    have hread : ∃ inner?, read (P := P) s room entry = rebuildWith s inner? entry := by
      cases room <;> exact ⟨_, rfl⟩
    obtain ⟨inner?, hread⟩ := hread
    rw [hread]
    cases entry with
    | stub id => exact absurd rfl (hstub id)
    | array items => cases hleaf
    | node index => cases hleaf
    | reference h => exact (accepts_ask _).bind fun _ => accepts_pure _
    | _ => exact accepts_pure _
  | @array room items entries inside after _ _ ihitems ihrest =>
    refine List.forall_mem_cons.2 ⟨fun _ => ?_, ihrest⟩
    exact (accepts_rebuildArray ihitems).bind fun _ => accepts_pure _
  | @node room index node entries inside after hnode _ _ ihvalues ihrest =>
    refine List.forall_mem_cons.2 ⟨fun _ => ?_, ihrest⟩
    change Accepts (liftM (s.node index) >>= fun node => rebuildNode (read s room) node >>= fun h? =>
      pure (Value.ofObject? h?))
    rw [Snapshot.node_eq_ok_iff.2 hnode]
    exact accepts_ok ((accepts_rebuildNode ihvalues).bind fun _ => accepts_pure _)

/-! ## Loading -/

theorem accepts_awaken (host : Host P) : Accepts (awaken host) := by
  refine accepts_get.bind fun _ => (accepts_modifyGet _).bind fun _ => accepts_forM fun h _ => ?_
  refine (accepts_ask _).bind fun can => ?_
  split
  · refine (accepts_modifyGet _).bind fun outcome => ?_
    cases outcome with
    | ok value => exact accepts_pure _
    | error error =>
      refine (accepts_ask _).bind fun strict => ?_
      cases strict with
      | false => exact accepts_modifyGet _
      | true => exact accepts_throw_bind rfl _
  · exact accepts_pure _

/-- Loading a snapshot that can be walked through with the room that the options give. -/
theorem answer_load {s : Snapshot} {room : Nat} {met : List Nat}
    (hvisits : Visits s.nodes room [s.root] met) (hroot : ∀ id, s.root ≠ .stub id) (host : Host P)
    {start : Loading P} (hroom : start.realm.options.depthLimit = room) {error : SnapshotError}
    (h : answer (load host s) start = .error error) : error.isStructural = false := by
  have hall : Accepts (do
      let root ← read s room s.root
      settleAll
      renewAll
      awaken host
      ask (·.expand root)) :=
    (accepts_read hvisits s.root List.mem_cons_self hroot).bind fun root =>
      accepts_settleAll.bind fun _ => accepts_renewAll.bind fun _ =>
        (accepts_awaken host).bind fun _ => accepts_ask _
  subst hroom
  exact hall start error h

end Loading

/-- The root of what has been saved is no stub: nothing has been saved that it could name. -/
theorem Snapshot.Orderly.root_ne_stub {s : Snapshot} {room : Nat} (hs : s.Orderly room) (id : String) :
    s.root ≠ .stub id := by
  intro hroot
  -- a walk from a stub meets no node, so there is none
  have hnone : s.nodes.size = 0 := by
    have hpreorder := hs.preorder
    rw [hroot] at hpreorder
    generalize hmet : List.range s.nodes.size = met at hpreorder
    cases hpreorder with
    | leaf _ hrest =>
      cases hrest
      exact List.range_eq_nil.1 hmet
  -- but a stub that has been saved has the identifier of a node
  have hnamed : ∃ i, idAt? s.nodes i = some id :=
    (hs.named id).1 (by rw [allEntries, hroot]; exact List.mem_cons_self)
  obtain ⟨i, hi⟩ := hnamed
  obtain ⟨node, hnode, -⟩ := Option.bind_eq_some_iff.1 hi
  have hlt := (Array.getElem?_eq_some_iff.1 hnode).1
  omega

/-- **What has been saved can be loaded, as far as its depth and its form go.** A snapshot that has been
made in a realm that can come about is loaded into any realm with the same limit for the depth, whatever
its classes, its mode and its host are, without an error that tells of the depth or the form of the
snapshot. -/
theorem Realm.Reachable.load_accepts_saved {P Q : Platform} {r : Realm P} (hr : r.Reachable)
    {value : Value} {force : Bool} {mask? : Option (List String)} {s : Snapshot}
    (hsave : r.save value force mask? = .ok s) (host : Host Q) {r' : Realm Q}
    (hlimit : r'.options.depthLimit = r.options.depthLimit) (copying : Bool) :
    (∀ limit, answer (host.load s copying) r' ≠ .error (.depthExceeded limit)) ∧
    ∀ reason, answer (host.load s copying) r' ≠ .error (.malformed reason) := by
  obtain ⟨horderly, -⟩ := shows_of_save hr.sound.registry.nodup_visibleProperties hsave
  have hload : ∀ error, answer (host.load s copying) r' = .error error →
      error.isStructural = false := by
    intro error h
    unfold Host.load at h
    by_cases hrefused : (!copying && s.holdsLiveObjects) = true
    -- live objects are refused before anything is read
    · rw [if_pos hrefused] at h
      obtain rfl := Except.error.inj h
      rfl
    · rw [if_neg hrefused] at h
      exact Loading.answer_load horderly.preorder horderly.root_ne_stub host hlimit h
  refine ⟨fun limit h => ?_, fun reason h => ?_⟩
  · cases hload _ h
  · cases hload _ h

/-- A realm with room for two nested containers, and with an array in an object that it leads back
to. -/
def Realm.ofFolder : Realm Scenario.platform :=
  let empty : Realm Scenario.platform := ofRegistry .builtins ⟨1024, .lenient, 2⟩ Scenario.Stage.empty
  after (putProperty ⟨1, 0⟩ "papers" (.object ⟨2, 0⟩) false)
    (empty.newObject.2.newArray [.object ⟨1, 0⟩]).2

theorem Realm.reachable_ofFolder : ofFolder.Reachable := by
  have hsteps : Steps (ofRegistry .builtins ⟨1024, .lenient, 2⟩ Scenario.Stage.empty) ofFolder :=
    .tail (.tail (.single (.newObject _)) (.newArray [.object ⟨1, 0⟩] _))
      (.putProperty ⟨1, 0⟩ "papers" (.object ⟨2, 0⟩) false _)
  have hcapacity : ofFolder.heap.capacity = 3 := by cbv
  exact ⟨.builtins, ⟨1024, .lenient, 2⟩, Scenario.Stage.empty, .builtins, hsteps,
    by rw [hcapacity]; decide⟩

/-- The stub in the array takes no room, neither when it is made nor when a realm in strict mode comes
to it; with less room the array is one container too much. -/
theorem Realm.load_accepts_saved_folder :
    ofFolder.Reachable ∧
    ∃ s, ofFolder.save (.object ⟨1, 0⟩) false none = .ok s ∧
      s = ⟨#[⟨none, some "1", ⟨[("papers", .array [.stub "1"])], by decide⟩⟩], .node 0⟩ ∧
      ((∀ limit, answer ((Scenario.hostWithin false 1).load s false)
          (ofRegistry .builtins ⟨1024, .strict, 2⟩ Scenario.Stage.empty) ≠
            .error (.depthExceeded limit)) ∧
        ∀ reason, answer ((Scenario.hostWithin false 1).load s false)
          (ofRegistry .builtins ⟨1024, .strict, 2⟩ Scenario.Stage.empty) ≠
            .error (.malformed reason)) ∧
      answer ((Scenario.hostWithin false 1).load s false)
        (ofRegistry .builtins ⟨1024, .strict, 1⟩ Scenario.Stage.empty) =
          .error (.depthExceeded 1) := by
  have hsave : ofFolder.save (.object ⟨1, 0⟩) false none =
      .ok ⟨#[⟨none, some "1", ⟨[("papers", .array [.stub "1"])], by decide⟩⟩], .node 0⟩ := by cbv
  exact ⟨reachable_ofFolder, _, hsave, rfl,
    reachable_ofFolder.load_accepts_saved hsave _ (by cbv) false, by cbv⟩

end ScriptBridge
