import ScriptBridge.Proofs.Snapshot.Cloning
import ScriptBridge.Proofs.Snapshot.Meaning
import ScriptBridge.Proofs.Snapshot.Remaining
import ScriptBridge.Proofs.Snapshot.Room

/-!
# Functions in Copies

A function that was written in a script goes into a snapshot as its source, under a key that is made
of the name of its field. What comes out is a function of this source whose name is that of the field,
whatever the function was called before.

Main statements: `Saving.keepsScript_of_save` (what is saved), `Loading.delivers_build` (what is built
from it) and `Host.script_functions_copied`.
-/

namespace ScriptBridge

open Realm (after)

variable {P : Platform}

/-! ## Functions in Fields -/

/-- A field of a plain object holds a function that was written in a script. -/
def Realm.HoldsScript (r : Realm P) (owner : Handle) (field name source : String) : Prop :=
  ∃ fields f, r.heap.get? owner = some ⟨.plain, fields⟩ ∧
    fields.find? field = some (.function f) ∧ r.function? f = some ⟨name, .script source⟩

/-- What calls of the function in a field hand to an evaluator. -/
structure Host.CallsScript (host : Host P) (evaluator : Evaluator P) (r : Realm P) (owner : Handle)
    (field name source : String) : Prop where
  /-- A call of the function that the field holds. -/
  function : ∃ f, r.field? owner field = some (.function f) ∧ ∀ this args,
    Id.run ((host.callFunction f this args).run.run r) =
      Id.run ((evaluator.call name source this (args.map r.expand)).run.run r)
  /-- A call of the method of that name, unless plain objects have one by their class. -/
  method : r.registry.resolveFunction? .object field = none → ∀ args,
    Id.run ((host.callMethod owner field args).run.run r) =
      Id.run ((evaluator.call name source (some owner) (args.map r.expand)).run.run r)

namespace Realm.HoldsScript

variable {r r' : Realm P} {owner : Handle} {field name source : String}

theorem congr (h : r.HoldsScript owner field name source) (hheap : r'.heap = r.heap) :
    r'.HoldsScript owner field name source := by
  obtain ⟨fields, f, hget, hfield, hfunction⟩ := h
  unfold Realm.function? at hfunction
  rw [← hheap] at hget hfunction
  exact ⟨fields, f, hget, hfield, hfunction⟩

/-- Calls of a function that was written in a script are calls of the evaluator. -/
theorem calls (h : r.HoldsScript owner field name source) {host : Host P}
    {evaluator : Evaluator P} (hevaluator : host.evaluator? = some evaluator) :
    host.CallsScript evaluator r owner field name source := by
  obtain ⟨fields, f, hget, hfield, hfunction⟩ := h
  have hheld : r.field? owner field = some (.function f) := by
    rw [Realm.field?, hget]
    exact hfield
  have hcall : ∀ this args, Id.run ((host.callFunction f this args).run.run r) =
      Id.run ((evaluator.call name source this (args.map r.expand)).run.run r) := by
    intro this args
    obtain ⟨object, hobject, hform⟩ := Option.bind_eq_some_iff.1 hfunction
    unfold Host.callFunction
    rw [Realm.run_get]
    simp only [hobject, hform, Host.evaluator, hevaluator]
    rfl
  refine ⟨⟨f, hheld, hcall⟩, fun hfree args => ?_⟩
  -- the class has no function of the name, so the field is looked up
  have hresolves : r.resolves owner = true := Heap.contains_iff.2 ⟨_, hget⟩
  have hclass : r.classOf? owner = some .object := by rw [Realm.classOf?, hget]; rfl
  unfold Host.callMethod
  rw [Realm.run_get]
  simp only [hresolves, hclass, hfree, Option.bind_some]
  show Id.run ((host.callField owner field (some owner) args).run.run r) = _
  unfold Host.callField
  rw [Realm.run_get]
  simp only [hheld, Option.bind_some, Value.function?]
  exact hcall (some owner) args

end Realm.HoldsScript

/-! ## What is Saved -/

open Snapshot (Entry fieldName functionKey functionOf?)
open Loading (fieldName_of_some fieldName_of_none)

/-- A node without a class that keeps the source of a function for a field, and nothing else. -/
structure Snapshot.Node.KeepsScript (node : Snapshot.Node) (field source : String) : Prop where
  noClass : node.className = none
  kept : (functionKey field, .string source) ∈ node.entries.entries
  only : ∀ entry ∈ node.entries.entries, fieldName entry = field → entry.1 = functionKey field

namespace Saving

variable {r : Realm P} {mask? : Option (List String)}

/-- An object has the first node, unless it is left out. -/
theorem root_of_save {o : Handle} {object : ScriptObject P} (hget : r.heap.get? o = some object)
    (hitems : object.items? = none) {force : Bool}
    (hkept : force = true ∨ isTransient object = false) (hsingleton : r.isSingletonInstance o = false) {s : Snapshot}
    (hsave : r.save (.object o) force mask? = .ok s) : s.root = .node 0 := by
  have hroot : saveRoot r mask? force (.object o) =
      saveObject r mask? (inner? r mask? r.options.depthLimit) [] o force := by
    simp [saveRoot, Value.object?, Option.filter, hget, hitems]
  unfold Realm.save at hsave
  rw [hroot, saveObject_eq_saveNew] at hsave
  cases hroom : inner? r mask? r.options.depthLimit with
  | none =>
    rw [hroom] at hsave
    cases hsave
  | some inner =>
    -- the object is not left out
    have hstays : (!force && isTransient object) = false := by
      rcases hkept with rfl | hkept
      · rfl
      · rw [hkept, Bool.and_false]
    rw [hroom] at hsave
    have hnew : saveNew r mask? (inner []) o force =
        makeNode o ((registered? r object).map Prod.snd)
          (makeEntries r mask? (inner []) o object) := by
      simp [saveNew, hget, hstays, hsingleton]
    have hrun : ((saveNew r mask? (inner []) o force).run ⟨#[], [], 0⟩ >>= fun outcome =>
        pure ⟨outcome.2.nodes, outcome.1.getD .null⟩) = Except.ok s := hsave
    rw [hnew, run_makeNode] at hrun
    cases hentries : (makeEntries r mask? (inner []) o object).run
        (withNode ⟨#[], [], 0⟩ o ((registered? r object).map Prod.snd)) with
    | error error =>
      rw [hentries] at hrun
      cases hrun
    | ok outcome =>
      rw [hentries] at hrun
      exact Except.ok.inj hrun ▸ rfl

/-- A root that is a node is the node of the object that is saved. -/
theorem Shows.site_of_root {o : Handle} {s : Snapshot} {sites : List Site}
    (h : Shows r mask? (.object o) s sites) {i : Nat} (hroot : s.root = .node i) :
    ∃ path, sites[i]? = some ⟨o, path⟩ := by
  obtain ⟨image?, heq, himages⟩ := h.root
  rw [hroot] at heq
  cases image? with
  | none => cases heq
  | some entry =>
    obtain rfl : Entry.node i = entry := heq
    cases himages with
    | cons himage _ =>
      cases himage with
      | scalar hscalar => cases hscalar
      | node hsite => exact ⟨_, hsite⟩

section

variable {nodes : Array Snapshot.Node} {sites : List Site} {site : Site}

/-- A name that is not reserved does not look like the key of a function. -/
theorem fieldName_of_free {entry : String × Entry} (hfree : Snapshot.isReserved entry.1 = false) :
    fieldName entry = entry.1 := by
  apply fieldName_of_none
  obtain ⟨key, value⟩ := entry
  have hnone : Snapshot.functionName? key = none := (Snapshot.isReserved_eq_false_iff.1 hfree).2.2.2
  cases value <;> simp [functionOf?, hnone]

/-- What a field is shown as is about this field. -/
theorem FieldImage.fieldName_eq {present : List String} {key : String} {value : Value}
    {entry : String × Entry}
    (h : FieldImage r mask? nodes sites site present (key, value) (some entry)) :
    fieldName entry = key := by
  obtain ⟨hfree, hkey | ⟨hkey, text, htext⟩⟩ := h.key
  · have hkey : entry.1 = key := hkey
    rw [fieldName_of_free (hkey ▸ hfree)]
    exact hkey
  · have hname : functionOf? entry = some (key, text) := by
      obtain ⟨key', value'⟩ := entry
      obtain rfl : key' = functionKey key := hkey
      obtain rfl : value' = .string text := htext
      simp [functionOf?, Snapshot.functionName?_functionKey]
    exact fieldName_of_some hname

/-- A function is shown as its source. -/
theorem FieldImage.eq_of_function {present : List String} {key source : String} {f : Handle}
    {out : Option (String × Entry)} (hsource : sourceOf? r f = some source)
    (hmark : key ≠ Snapshot.transientField) (hnew : key ∉ present)
    (hfree : Snapshot.isReserved key = false)
    (h : FieldImage r mask? nodes sites site present (key, .function f) out) :
    out = some (functionKey key, .string source) := by
  cases h with
  | skipped hskipped =>
    rcases hskipped with hskipped | hskipped | hskipped
    · exact absurd hskipped hmark
    · exact absurd hskipped hnew
    · rw [hfree] at hskipped
      cases hskipped
  | function => rw [hsource, Option.map_some]
  | value _ _ _ hvalue => cases hvalue

/-- The node of a plain object keeps the source of a function that was written in a script. -/
theorem Content.keepsScript {node : Snapshot.Node} {fields : Table Value}
    (h : Content r mask? nodes sites site node ⟨.plain, fields⟩) {field source : String} {f : Handle}
    (hfield : fields.find? field = some (.function f)) (hsource : sourceOf? r f = some source)
    (hmark : field ≠ Snapshot.transientField) (hfree : Snapshot.isReserved field = false) :
    node.KeepsScript field source := by
  obtain ⟨properties, images, hproperties, hfields, hentries⟩ := h.entries
  obtain rfl : properties = [] := List.forall₂_nil_left_iff.1 hproperties
  have hmem := Table.find?_eq_some_iff.1 hfield
  refine ⟨h.className, ?_, ?_⟩
  · obtain ⟨out, hout, himage⟩ := exists_of_forall₂_left hfields hmem
    obtain rfl := himage.eq_of_function hsource hmark (by simp) hfree
    rw [hentries]
    exact List.mem_append_right _ (List.reduceOption_mem_iff.2 hout)
  · intro entry hentry hname
    rw [hentries] at hentry
    obtain ⟨⟨key, value⟩, hhere, himage⟩ :=
      exists_of_forall₂_right hfields (List.reduceOption_mem_iff.1 hentry)
    obtain rfl : key = field := himage.fieldName_eq.symm.trans hname
    -- the field holds the function and nothing else
    obtain rfl : value = .function f :=
      Option.some.inj ((Table.find?_eq_some_iff.2 hhere).symm.trans hfield)
    rw [Option.some.inj (himage.eq_of_function hsource hmark (by simp) hfree)]

end

/-- The node of a plain object keeps the source of a function that was written in a script. -/
theorem keepsScript_of_save (hr : r.Reachable) {o : Handle} {field name source : String}
    (hscript : r.HoldsScript o field name source) (hfree : Snapshot.isReserved field = false)
    (hmark : field ≠ Snapshot.transientField) {force : Bool}
    (hkept : force = true ∨ ∀ object, r.heap.get? o = some object → isTransient object = false)
    {s : Snapshot} (hsave : r.save (.object o) force mask? = .ok s) :
    s.root = .node 0 ∧ ∃ node, s.nodes[0]? = some node ∧ node.KeepsScript field source := by
  obtain ⟨fields, f, hget, hfield, hfunction⟩ := hscript
  have hsource : sourceOf? r f = some source := by
    unfold Realm.function? at hfunction
    obtain ⟨object, hobject, hform⟩ := Option.bind_eq_some_iff.1 hfunction
    rw [sourceOf?, hobject, Option.bind_some, hform]
    rfl
  obtain ⟨-, sites, hshows⟩ :=
    Realm.shows_of_save hr.sound.registry.nodup_visibleProperties hsave
  have hroot : s.root = .node 0 :=
    root_of_save hget rfl (hkept.imp_right fun h => h _ hget)
      (isSingletonInstance_eq_false hr.sound.registry hget rfl) hsave
  -- the first node shows the object that is saved
  obtain ⟨path, hsite⟩ := hshows.site_of_root hroot
  have hsize : 0 < s.nodes.size := by
    rw [← hshows.size]
    exact (List.getElem?_eq_some_iff.1 hsite).1
  have hnode := Array.getElem?_eq_getElem hsize
  obtain ⟨object, hcontent⟩ := hshows.content 0 _ _ hnode hsite
  obtain rfl := Option.some.inj (hcontent.alive.symm.trans hget)
  exact ⟨hroot, _, hnode, hcontent.keepsScript hfield hsource hmark hfree⟩

end Saving

namespace Loading

/-! ## The Function of the Root -/

/-- A field holds a function of a source whose name is that of the field, and nothing waits there. -/
def Delivers (h : Handle) (field source : String) (s : Loading P) : Prop :=
  ∃ f, s.Bounded → Remains h field (some (.function f)) s ∧
    s.heap.nature? f = some (.function ⟨field, .script source⟩)

section

variable {h : Handle} {field source : String} {s : Loading P} {inner : Inner P}

theorem Delivers.step {α : Type} {step : LoadingM P α} {Q : α → Loading P → Prop}
    (hs : Delivers h field source s)
    (hstep : ∀ v?, (s.Bounded → Remains h field v? s) →
      Carries (Maintains (Remains h field v?)) step s Q) :
    Carries Gains step s fun _ s' => Delivers h field source s' := by
  obtain ⟨f, hf⟩ := hs
  intro answer s' hrun
  obtain ⟨hr, -⟩ := hstep (some (.function f)) (fun hbound => (hf hbound).1) answer s' hrun
  refine ⟨hr.gains, f, fun hbound => ⟨hr.kept (fun hbound => (hf hbound).1) hbound, ?_⟩⟩
  obtain ⟨hremains, hnature⟩ := hf (hbound.before hr.gains)
  exact hr.gains.nature? hremains.wellFormed hbound hnature

/-- What is written into the field is what it holds then. -/
theorem remains_writeHere {v? : Option Value} (hs : s.Bounded → Remains h field v? s) {v : Value}
    (hinline : v.isInline = false) :
    Carries Gains (write h field v) s fun _ s' => s'.Bounded → Remains h field (some v) s' := by
  have hput : Carries Gains (attempt (Realm.putProperty h field v true)) s
      fun _ s' => s'.Bounded → Remains h field (some v) s' := by
    refine carries_attempt fun outcome r hrun => ?_
    obtain rfl : after (Realm.putProperty h field v true) s.realm = r := congrArg Prod.snd hrun
    have hchanges : s.heap.Changes (fun _ => True) (fun _ => True)
        (after (Realm.putProperty h field v true) s.realm).heap :=
      (Realm.alters_putProperty trivial field (Or.inl hinline) true s.realm).heap
    refine ⟨hchanges, fun hbound => ?_⟩
    have hremains := hs (Nat.le_trans hchanges.capacity_le hbound)
    have hheld := hremains.held_putProperty field hinline
    rw [if_pos rfl] at hheld
    exact ⟨hchanges.wellFormed hremains.wellFormed hbound, hheld, hremains.waiting, hremains.renewals⟩
  refine hput.bind fun outcome s' _ hremains => ?_
  cases outcome with
  | ok answer => exact carries_pure hremains
  | error error => exact carries_strictly hremains

/-- The entry of a function brings it into its field. -/
theorem delivers_restoreFunction {v? : Option Value} (hs : s.Bounded → Remains h field v? s) :
    Carries Gains (restoreEntry inner h (functionKey field) (.string source)) s
      fun _ s' => Delivers h field source s' := by
  rw [restoreEntry_function inner h (Snapshot.functionName?_functionKey field)]
  let object : ScriptObject P := .ofForm (.function ⟨field, .script source⟩)
  have hmake : Carries Gains (perform (modifyGet (Realm.newFunction field (.script source)))) s
      fun f s' => s'.Bounded → Remains h field v? s' ∧
        s'.heap.nature? f = some (.function ⟨field, .script source⟩) := by
    refine carries_perform fun f r hrun => ?_
    obtain ⟨hf, rfl⟩ := Prod.mk.inj hrun
    obtain rfl : (s.heap.allocate object).1 = f := Except.ok.inj hf
    obtain ⟨hmaintains, -⟩ := remains_made hs object
      { s with realm := (s.realm.newFunction field (.script source)).2 } rfl rfl rfl
    refine ⟨hmaintains.gains, fun hbound => ⟨hmaintains.kept hs hbound, ?_⟩⟩
    have hwf := (hs (hbound.before hmaintains.gains)).wellFormed
    show (s.heap.allocate object).2.nature? _ = _
    rw [Heap.nature?, hwf.get?_allocate (Heap.hasRoom_of_capacity_allocate hwf hbound), if_pos rfl]
    rfl
  refine hmake.bind fun f s' hr hf => ?_
  refine (remains_writeHere (fun hbound => (hf hbound).1) rfl).imp fun _ s'' hr' hremains => ?_
  refine ⟨f, fun hbound => ⟨hremains hbound, ?_⟩⟩
  obtain ⟨hbefore, hnature⟩ := hf (hbound.before hr')
  exact hr'.nature? hbefore.wellFormed hbound hnature

/-- The entries of a node bring the function into its field. -/
theorem delivers_restoreEntries (hinner : ∀ v?, RemainsInside h field v? inner) {v? : Option Value}
    (hs : s.Bounded → Remains h field v? s) {node : Snapshot.Node}
    (hnode : node.KeepsScript field source) {entries : List (String × Entry)}
    (hperm : entries.Perm node.entries.entries) :
    Carries Gains (entries.forM fun entry => restoreEntry inner h entry.1 entry.2) s
      fun _ s' => Delivers h field source s' := by
  obtain ⟨before, later, rfl⟩ := List.append_of_mem (hperm.mem_iff.2 hnode.kept)
  -- no other entry is about the field
  have hothers : ∀ entry ∈ before ++ later, fieldName entry ≠ field := by
    intro entry hentry hname
    have hkeys := (hperm.map Prod.fst).nodup_iff.2 node.entries.nodup
    rw [List.map_append, List.map_cons, List.nodup_middle, List.nodup_cons,
      ← List.map_append] at hkeys
    refine hkeys.1 ?_
    have hmem : entry ∈ node.entries.entries :=
      hperm.subset (List.mem_append.2 ((List.mem_append.1 hentry).imp_right (List.mem_cons_of_mem _)))
    show functionKey field ∈ _
    rw [← hnode.only entry hmem hname]
    exact List.mem_map_of_mem hentry
  let restore (entry : String × Entry) : LoadingM P Unit := restoreEntry inner h entry.1 entry.2
  -- so the field remains as it is before and after the function comes into it
  have hsplit : (before ++ (functionKey field, .string source) :: later).forM restore =
      before.forM restore >>= fun _ =>
        restoreEntry inner h (functionKey field) (.string source) >>= fun _ =>
          later.forM restore := by
    rw [List.forM_eq_forM, List.forM_append]
    rfl
  show Carries Gains (List.forM _ restore) s _
  rw [hsplit]
  have hbefore := remains_restoreEntries (hinner v?) hs fun _ => Or.inr (a := h ≠ h)
    fun entry hentry => hothers entry (List.mem_append_left _ hentry)
  refine (hbefore.kept hs).bind fun _ s₁ _ hs₁ => ?_
  refine (delivers_restoreFunction hs₁).bind fun _ s₂ _ hdelivers => ?_
  refine hdelivers.step fun v? hs₂ => remains_restoreEntries (hinner v?) hs₂ fun _ => Or.inr ?_
  exact fun entry hentry => hothers entry (List.mem_append_right _ hentry)

/-- Where nothing waits, the node of a plain object brings a function into a field of the object. -/
theorem delivers_rebuildNode (hinner : ∀ h v?, RemainsInside h field v? inner)
    (hwf : s.heap.WellFormed) (hwaiting : s.waiting = .empty) (hrenewals : s.renewals = []) {node : Snapshot.Node}
    (hnode : node.KeepsScript field source) :
    Carries Gains (rebuildNode inner node) s
      fun h? s' => ∃ h, h? = some h ∧ Delivers h field source s' := by
  have hsingleton : singletonName? s.realm node = none := by
    rw [singletonName?, hnode.noClass, Option.filter_none]
  have hmake : Carries Gains (make none) s
      fun h s' => s'.Bounded → Remains h field none s' := by
    rcases make_cases none s with ⟨-, error, hrun⟩ | hrun
    · intro _ _ hrun'
      cases (Prod.mk.inj (hrun.symm.trans hrun')).1
    · have hchange : Heap.Change (fun _ => True) (fun _ => True) s.heap
          (s.heap.allocate (.ofForm .plain)).2 := .allocate trivial
      have hgains : s.Gains (s.withNew .object s.sleepers) := .single hchange
      refine carries_of_runs hrun hgains fun hbound => ?_
      have hget := hwf.get?_allocate (Heap.hasRoom_of_capacity_allocate hwf hbound)
        (.ofForm .plain) (s.heap.allocate (.ofForm .plain)).1
      rw [if_pos rfl] at hget
      refine ⟨hgains.wellFormed hwf hbound, ⟨.empty, hget, rfl⟩, fun id places hentry => ?_, ?_⟩
      · have hentry : (id, places) ∈ s.waiting.entries := hentry
        simp [hwaiting, Table.empty] at hentry
      · intro renewal hrenewal
        have hrenewal : renewal ∈ s.renewals := hrenewal
        simp [hrenewals] at hrenewal
  apply carries_ask
  rw [hsingleton, hnode.noClass]
  refine hmake.bind fun h s' _ hs' => ?_
  -- what has been made has no such field yet, also when its identifier has been announced
  have hfill : ∀ s'', (s''.Bounded → Remains h field none s'') →
      Carries Gains ((ask fun r => inPhases r (r.classOf? h) node.entries) >>= fun entries =>
          (entries.forM fun entry => restoreEntry inner h entry.1 entry.2) >>= fun _ =>
            pure (some h)) s'' fun h? s' => ∃ h, h? = some h ∧ Delivers h field source s' := by
    intro s'' hs''
    apply carries_ask
    refine (delivers_restoreEntries (hinner h) hs'' hnode (inPhases_perm _ _ _)).bind
      fun _ s₃ _ hdelivers => carries_pure ⟨h, rfl, hdelivers⟩
  dsimp only
  split
  · exact ((remains_announce hs' _ h).kept hs').bind fun _ s'' _ hs'' => hfill s'' hs''
  · exact hfill s' hs'

/-- A load of a snapshot whose root keeps the source of a function brings the function into a field of
its answer. -/
theorem delivers_build {snapshot : Snapshot} {r : Realm P} (hwf : r.heap.WellFormed)
    (hroot : snapshot.root = .node 0) {node : Snapshot.Node}
    (hnode : snapshot.nodes[0]? = some node) (hkeeps : node.KeepsScript field source) :
    Carries Gains (build snapshot) (start r)
      fun root s' => ∃ h, root = .object h ∧ Delivers h field source s' := by
  have hwf : (start r).heap.WellFormed := hwf
  have hread : ∀ room, Carries Gains (read snapshot room (.node 0)) (start r)
      fun root s' => ∃ h, root = .object h ∧ Delivers h field source s' := by
    intro room
    cases room with
    | zero => exact fun _ _ hrun => nomatch (Prod.mk.inj hrun).1
    | succ room =>
      refine carries_roomFor fun inner hsome => ?_
      obtain rfl : read snapshot room = inner := Option.some.inj hsome
      rw [Snapshot.node_eq_ok_iff.2 hnode]
      refine Carries.bind (carries_pure (Q := fun found s' => found = node ∧ s' = start r)
        ⟨rfl, rfl⟩) ?_
      rintro _ _ - ⟨rfl, rfl⟩
      refine (delivers_rebuildNode (fun _ _ => remainsInside_read snapshot room) hwf rfl rfl
        hkeeps).bind ?_
      rintro _ s' - ⟨h, rfl, hdelivers⟩
      exact carries_pure ⟨h, rfl, hdelivers⟩
  apply carries_ask
  rw [hroot]
  refine (hread _).bind ?_
  rintro _ s₁ - ⟨h, rfl, hs₁⟩
  refine (hs₁.step fun _ hremains => remains_settleAll hremains).bind fun _ s₂ _ hs₂ => ?_
  refine (hs₂.step fun _ hremains => remains_renewAll hremains).bind fun _ s₃ _ hs₃ => ?_
  exact carries_pure ⟨h, rfl, hs₃⟩

theorem Delivers.holdsScript (hs : Delivers h field source s) (hbound : s.Bounded) :
    s.realm.HoldsScript h field field source := by
  obtain ⟨f, hf⟩ := hs
  obtain ⟨hremains, hnature⟩ := hf hbound
  obtain ⟨fields, hget, hfield⟩ := hremains.held
  refine ⟨fields, f, hget, hfield, ?_⟩
  obtain ⟨⟨form, others⟩, hobject, hform⟩ := Option.map_eq_some_iff.1 hnature
  have hget' : s.realm.heap.get? f = some ⟨form, others⟩ := hobject
  rw [Realm.function?, hget', Option.bind_some]
  cases form with
  | function g =>
    obtain rfl : g = ⟨field, .script source⟩ := ObjectForm.function.inj hform
    rfl
  | _ => cases hform

end

end Loading

open Loading (start build)

/-- A realm in which a load has ended whose answer is an object with a function in a field. -/
structure Host.LoadsScript (host : Host P) (s : Snapshot) (copying : Bool) (r : Realm P)
    (field source : String) (owner : Handle) (copy : Value) (r' : Realm P) : Prop where
  /-- When the graph is complete the function is in its field, and its name is that of the field. -/
  built : (r.building s copying).realm.HoldsScript owner field field source
  /-- Unless a call that awakens an instance takes it away, it is still there in the end. -/
  loaded : (∀ call ∈ host.awakeCalls s copying r, call.2.HoldsScript owner field field source →
      (after (host.callMethod call.1 Loading.awakeName []) call.2).HoldsScript owner field field
        source) →
    copy = .object owner ∧ r'.HoldsScript owner field field source ∧
      ∀ evaluator, host.evaluator? = some evaluator →
        host.CallsScript evaluator r' owner field field source

namespace Host

variable {host : Host P} {field source : String}

/-- What keeps the source of a function at its root is loaded with the function. -/
theorem loadsScript_of_keepsScript {s : Snapshot} (hroot : s.root = .node 0) {node : Snapshot.Node}
    (hnode : s.nodes[0]? = some node) (hkeeps : node.KeepsScript field source) {r r' : Realm P}
    (hr : r.Reachable) {copying : Bool} {copy : Value}
    (hload : Id.run ((host.load s copying).run.run r) = (.ok copy, r'))
    (hbound : (r.building s copying).realm.heap.capacity ≤ UInt32.size) :
    ∃ owner, host.LoadsScript s copying r field source owner copy r' := by
  have hadmitted : (!copying && s.holdsLiveObjects) = false := by
    rw [← Bool.not_eq_true]
    intro hrefused
    unfold Host.load at hload
    rw [if_pos hrefused] at hload
    cases (Prod.mk.inj hload).1
  obtain ⟨root, built, awoken, hbuild, hawaken, rfl, rfl⟩ := exists_of_run_load hadmitted hload
  -- the load has come past this state
  have hb : r.building s copying = built := by
    unfold Realm.building
    rw [hadmitted, if_neg Bool.false_ne_true]
    exact congrArg Prod.snd hbuild
  obtain ⟨-, owner, rfl, hdelivers⟩ :=
    Loading.delivers_build hr.sound.wellFormed hroot hnode hkeeps root built hbuild
  have hbuilt : (r.building s copying).realm.HoldsScript owner field field source := by
    rw [hb] at hbound ⊢
    exact hdelivers.holdsScript hbound
  refine ⟨owner, hbuilt, fun hawake => ?_⟩
  -- awakening calls the host, and reports errors
  let R : Realm P → Realm P → Prop := fun a b =>
    a.HoldsScript owner field field source → b.HoldsScript owner field field source
  have hcourse : Course R := ⟨fun _ => id, fun h h' => h' ∘ h⟩
  have hended : (host.ending s copying r).realm.HoldsScript owner field field source :=
    ending_of_calls (R := R) hawake (fun error r h => h.congr rfl) hbuilt
  -- protecting objects no longer leaves the heap as it is
  have hheap : awoken.realm.heap = (host.ending s copying r).realm.heap := by
    have hafter : after (host.load s copying) r = awoken.realm.unprotectAll awoken.made :=
      congrArg Prod.snd hload
    rw [← Realm.heap_unprotectAll awoken.made, ← hafter, after_load, Realm.heap_unprotectAll]
  have hholds : awoken.realm.HoldsScript owner field field source := hended.congr hheap
  have hloaded := hholds.congr (Realm.heap_unprotectAll awoken.made awoken.realm)
  refine ⟨?_, hloaded, fun evaluator hevaluator => hloaded.calls hevaluator⟩
  -- a plain object is no array, so the answer is its handle
  obtain ⟨fields, f, hget, -⟩ := hholds
  refine Heap.expandOn_of_items?_eq_none rfl fun k hk => ?_
  obtain rfl := Value.object.inj hk
  rw [Heap.items?, hget]
  rfl

/-- **Functions of scripts are copied by their source.** A function that was written in a script and
stands in a field of a plain object comes back in the field of the same name, from a snapshot that is
loaded as well as from a copy, unless the name of the field has a meaning of its own. A call of it hands
the same source and the same arguments to the evaluator as a call of the original does, together with
the name of the field, whatever the name of the function was. -/
theorem script_functions_copied (host : Host P) {evaluator : Evaluator P}
    (hevaluator : host.evaluator? = some evaluator) {r : Realm P} (hr : r.Reachable) {o : Handle}
    {field name source : String} (hscript : r.HoldsScript o field name source)
    (hfree : Snapshot.isReserved field = false) (hmark : field ≠ Snapshot.transientField) :
    host.CallsScript evaluator r o field name source ∧
    (∀ force mask? s, r.save (.object o) force mask? = .ok s →
      (force = true ∨ ∀ object, r.heap.get? o = some object → Saving.isTransient object = false) →
      ∀ (r₁ r' : Realm P) copying copy, r₁.Reachable →
        Id.run ((host.load s copying).run.run r₁) = (.ok copy, r') →
        (r₁.building s copying).realm.heap.capacity ≤ UInt32.size →
        ∃ owner, host.LoadsScript s copying r₁ field source owner copy r') ∧
    ∀ mask (r' : Realm P) copy,
      Id.run ((host.clone (.object o) mask).run.run r) = (.ok copy, r') →
      ∃ s, r.save (.object o) true (some mask) = .ok s ∧
        ((r.building s true).realm.heap.capacity ≤ UInt32.size →
          ∃ owner, host.LoadsScript s true r field source owner copy r') := by
  refine ⟨hscript.calls hevaluator, ?_, ?_⟩
  · intro force mask? s hsave hkept r₁ r' copying copy hr₁ hload hbound
    obtain ⟨hroot, node, hnode, hkeeps⟩ :=
      Saving.keepsScript_of_save hr hscript hfree hmark hkept hsave
    exact loadsScript_of_keepsScript hroot hnode hkeeps hr₁ hload hbound
  · intro mask r' copy hclone
    obtain ⟨s, hsave, hload⟩ := exists_of_run_clone hclone
    refine ⟨s, hsave, fun hbound => ?_⟩
    obtain ⟨hroot, node, hnode, hkeeps⟩ :=
      Saving.keepsScript_of_save hr hscript hfree hmark (Or.inl rfl) hsave
    exact loadsScript_of_keepsScript hroot hnode hkeeps hr hload hbound

end Host

namespace Realm

/-- A realm in which an object holds a function that was written in a script under another name. -/
def ofRunner : Realm Scenario.platform :=
  after (putProperty ⟨1, 0⟩ "run" (.function ⟨2, 0⟩) false)
    (ofSleepers.newObject.2.newFunction "f" (.script "return 1")).2

theorem steps_ofRunner : Steps ofSleepers ofRunner :=
  .tail (.tail (.single (.newObject _)) (.newFunction "f" (.script "return 1") _))
    (.putProperty ⟨1, 0⟩ "run" (.function ⟨2, 0⟩) false _)

theorem reachable_ofRunner : ofRunner.Reachable := by
  have hcapacity : ofRunner.heap.capacity = 3 := by cbv
  exact reachable_ofSleepers.steps steps_ofRunner (by rw [hcapacity]; decide)

theorem holdsScript_ofRunner : ofRunner.HoldsScript ⟨1, 0⟩ "run" "f" "return 1" :=
  ⟨⟨[("run", .function ⟨2, 0⟩)], by decide⟩, ⟨2, 0⟩, by cbv, by cbv, by cbv⟩

/-- The function is held under the name as well that keeps an object out of snapshots. -/
def ofMarked : Realm Scenario.platform :=
  after (putProperty ⟨1, 0⟩ Snapshot.transientField (.function ⟨2, 0⟩) false) ofRunner

theorem reachable_ofMarked : ofMarked.Reachable := by
  have hcapacity : ofMarked.heap.capacity = 3 := by cbv
  exact reachable_ofSleepers.steps (steps_ofRunner.tail (.putProperty ⟨1, 0⟩ _ _ false _))
    (by rw [hcapacity]; decide)

/-- The object holds an instance besides. -/
def ofNursery : Realm Scenario.platform :=
  after (putProperty ⟨1, 0⟩ "next" (.object ⟨3, 0⟩) false) (ofRunner.instantiate ⟨2⟩).2

theorem reachable_ofNursery : ofNursery.Reachable := by
  have hcapacity : ofNursery.heap.capacity = 4 := by cbv
  exact reachable_ofSleepers.steps
    ((steps_ofRunner.tail (.instantiate ⟨2⟩ _)).tail (.putProperty ⟨1, 0⟩ "next" _ false _))
    (by rw [hcapacity]; decide)

end Realm

/-- What is saved of the object that holds the function. -/
def Snapshot.ofRunner : Snapshot :=
  ⟨#[⟨none, none, ⟨[("run()", .string "return 1")], by decide⟩⟩], .node 0⟩

/-- An evaluator that answers the name of the function that is called. -/
def Evaluator.naming : Evaluator Scenario.platform where
  run _ _ := pure ()
  evaluate _ _ := pure .undefined
  call name _ _ _ := pure (.string name)

/-- A host with this evaluator and a callback. -/
def Host.naming (callback : Action Scenario.platform Unit) : Host Scenario.platform where
  invoke _ _ call := do
    callback
    return call
  evaluator? := some .naming

namespace Host

/-- The function comes out of a copy under the name of its field. -/
theorem script_functions_copied_runner :
    (naming (pure ())).evaluator? = some .naming ∧ Realm.ofRunner.Reachable ∧
    Realm.ofRunner.HoldsScript ⟨1, 0⟩ "run" "f" "return 1" ∧
    Snapshot.isReserved "run" = false ∧ "run" ≠ Snapshot.transientField ∧
    ∃ r', Id.run (((naming (pure ())).clone (.object ⟨1, 0⟩) []).run.run Realm.ofRunner) =
        (.ok (.object ⟨3, 0⟩), r') ∧
      r'.HoldsScript ⟨3, 0⟩ "run" "run" "return 1" ∧
      (naming (pure ())).CallsScript .naming r' ⟨3, 0⟩ "run" "run" "return 1" := by
  have hfree : Snapshot.isReserved "run" = false := by cbv
  have hmark : "run" ≠ Snapshot.transientField := by decide
  have hrun : Id.run (((naming (pure ())).clone (.object ⟨1, 0⟩) []).run.run Realm.ofRunner) =
      (.ok (.object ⟨3, 0⟩),
        after ((naming (pure ())).clone (.object ⟨1, 0⟩) []) Realm.ofRunner) :=
    Realm.run_of_answer (by cbv)
  have hsave : Realm.ofRunner.save (.object ⟨1, 0⟩) true (some []) = .ok .ofRunner := by cbv
  obtain ⟨-, -, hclone⟩ := script_functions_copied (naming (pure ())) rfl Realm.reachable_ofRunner
    Realm.holdsScript_ofRunner hfree hmark
  obtain ⟨s, hsaved, hloads⟩ := hclone [] _ _ hrun
  obtain rfl := Except.ok.inj (hsave.symm.trans hsaved)
  have hcapacity : (Realm.ofRunner.building .ofRunner true).realm.heap.capacity = 5 := by cbv
  have hquiet : (naming (pure ())).awakeCalls .ofRunner true Realm.ofRunner = [] := by cbv
  obtain ⟨owner, hloaded⟩ := hloads (by rw [hcapacity]; decide)
  obtain ⟨howner, hscript, hcalls⟩ := hloaded.loaded fun call hcall => by
    rw [hquiet] at hcall
    cases hcall
  obtain rfl := Value.object.inj howner
  exact ⟨rfl, Realm.reachable_ofRunner, Realm.holdsScript_ofRunner, hfree, hmark, _, hrun, hscript,
    hcalls _ rfl⟩

/-- What is lost: a call of the copy hands the name of the field to the evaluator, where a call of the
original hands over the name of the function; the field that keeps an object out of snapshots is not
copied; and a call that awakens an instance may write over a field of the copy. -/
theorem copied_script_functions_differ :
    (Realm.ofRunner.Reachable ∧ ∃ r',
      Id.run (((naming (pure ())).clone (.object ⟨1, 0⟩) []).run.run Realm.ofRunner) =
        (.ok (.object ⟨3, 0⟩), r') ∧
      Realm.answer ((naming (pure ())).callMethod ⟨1, 0⟩ "run" []) r' = .ok (.string "f") ∧
      Realm.answer ((naming (pure ())).callMethod ⟨3, 0⟩ "run" []) r' = .ok (.string "run")) ∧
    (Realm.ofMarked.Reachable ∧
      Realm.ofMarked.HoldsScript ⟨1, 0⟩ Snapshot.transientField "f" "return 1" ∧ ∃ r',
      Id.run (((naming (pure ())).clone (.object ⟨1, 0⟩) []).run.run Realm.ofMarked) =
        (.ok (.object ⟨3, 0⟩), r') ∧
      r'.field? ⟨3, 0⟩ Snapshot.transientField = none) ∧
    (Realm.ofNursery.Reachable ∧ Realm.ofNursery.HoldsScript ⟨1, 0⟩ "run" "f" "return 1" ∧ ∃ r',
      Id.run (((naming (Realm.putProperty ⟨4, 0⟩ "run" .null false)).clone (.object ⟨1, 0⟩)
        []).run.run Realm.ofNursery) = (.ok (.object ⟨4, 0⟩), r') ∧
      r'.field? ⟨4, 0⟩ "run" = some .null) := by
  refine ⟨⟨Realm.reachable_ofRunner, _, Realm.run_of_answer (by cbv), by cbv, by cbv⟩,
    ⟨Realm.reachable_ofMarked, ?_, _, Realm.run_of_answer (by cbv), by cbv⟩,
    Realm.reachable_ofNursery, ?_, _, Realm.run_of_answer (by cbv), by cbv⟩
  · exact ⟨⟨[("run", .function ⟨2, 0⟩), ("__transient__", .function ⟨2, 0⟩)], by decide⟩, ⟨2, 0⟩,
      by cbv, by cbv, by cbv⟩
  · exact ⟨⟨[("run", .function ⟨2, 0⟩), ("next", .object ⟨3, 0⟩)], by decide⟩, ⟨2, 0⟩,
      by cbv, by cbv, by cbv⟩

end Host

end ScriptBridge
