import ScriptBridge.Proofs.TypedVector.Loading
import ScriptBridge.Proofs.Realm.Callbacks

/-!
# Runs of Scripts

What scripts can make of the vectors of a realm, by operations, loads and copies in any order: as long
as no class is named for the elements of a vector that holds other objects, every vector holds
instances of its element class only. Nothing keeps a script from naming such a class, though.

Main statements: `ScriptRun.vectors_fit` and `misfit_ofOddity`.
-/

namespace ScriptBridge

open Realm (after Conserves)

variable {P : Platform}

namespace Realm

/-- A run of operations, loads and copies. The calls that awaken instances are such runs in turn. -/
inductive ScriptRun : Realm P → Realm P → Prop
  | refl (r : Realm P) : ScriptRun r r
  | step {r r' r'' : Realm P} : ScriptRun r r' → ScriptStep r' r'' → ScriptRun r r''
  | load {r r' : Realm P} (host : Host P) (s : Snapshot) (copying : Bool) : ScriptRun r r' →
      (∀ h a, ScriptRun a (after (host.callMethod h Loading.awakeName []) a)) →
      ScriptRun r (after (host.load s copying) r')
  | clone {r r' : Realm P} (host : Host P) (value : Value) (mask : List String) : ScriptRun r r' →
      (∀ h a, ScriptRun a (after (host.callMethod h Loading.awakeName []) a)) →
      ScriptRun r (after (host.clone value mask) r')

theorem ScriptRun.trans {r r' r'' : Realm P} (h : ScriptRun r r') (h' : ScriptRun r' r'') :
    ScriptRun r r'' := by
  induction h' with
  | refl => exact h
  | step _ hstep ih => exact .step (ih h) hstep
  | load host s copying _ hawake ih => exact .load host s copying (ih h) hawake
  | clone host value mask _ hawake ih => exact .clone host value mask (ih h) hawake

/-- A run keeps a realm conforming. -/
theorem ScriptRun.conserves (hP : P.TracesBase) {r r' : Realm P} (h : ScriptRun r r') :
    Conserves r r' := by
  induction h with
  | refl r => exact Course.refl r
  | step _ hstep ih => exact Course.trans ih (hstep.conserves hP)
  | load host s copying _ _ ih ihawake =>
    exact Course.trans ih (Host.conserves_load ihawake s copying _)
  | clone host value mask _ _ ih ihawake =>
    exact Course.trans ih (Host.conserves_clone ihawake value mask _)

/-- **Vectors fit their element classes.** In every realm that scripts can bring about, by operations,
loads and copies, the objects in a vector are instances of its element class, as long as no class is
named for elements of another one. -/
theorem ScriptRun.vectors_fit (hP : P.TracesBase) {registry : Registry P}
    (hregistry : registry.LeavesVectors) {options : Options} {world : P.World} {r : Realm P}
    (h : ScriptRun (ofRegistry registry options world) r)
    (hbound : r.heap.capacity ≤ UInt32.size) : r.Conforming := by
  have hslotted : (Heap.empty : Heap P).Slotted := by
    intro h object hget
    simp [Heap.get?, Heap.slot?, Heap.empty] at hget
  have hstart : (Heap.empty : Heap P).Grows (ofRegistry registry options world).heap :=
    Heap.grows_allocate _ (Heap.slotted_ofForm (by simp))
  have hconserves := h.conserves hP
  obtain ⟨hwf, hslotted⟩ := hstart.sound Heap.wellFormed_empty hslotted
    (Nat.le_trans hconserves.evolves.heap.capacity hbound)
  exact hconserves.conforming hregistry hwf hslotted hbound
    (conforming_ofRegistry registry options world)

end Realm

/-! ## Realms with Vectors -/

/-- The standard classes, and two more without members. -/
def Registry.declareItems : Except RegistrationError (Registry Scenario.platform) := do
  let r ← standard
  let r ← r.register (.declareClass "Item" none false)
  r.register (.declareClass "Odd" none false)

/-- The registry with these classes. -/
def Registry.ofItems : Registry Scenario.platform := declareItems.toOption.getD .builtins

namespace Registry

/-- What holds of the built-in classes and is kept by registrations holds of these classes. -/
theorem ofItems_induct {I : Registry Scenario.platform → Prop} (hbuiltins : I .builtins)
    (hstandard : ∀ r, standard = .ok r → I r)
    (hstep : ∀ r r' name parent singleton, I r →
      r.register (.declareClass name parent singleton) = .ok r' → I r') : I ofItems := by
  unfold ofItems
  cases hitems : declareItems with
  | error error => exact hbuiltins
  | ok r =>
    obtain ⟨r₁, h₁, hitems⟩ := except_bind_eq_ok hitems
    obtain ⟨r₂, h₂, h₃⟩ := except_bind_eq_ok hitems
    exact hstep _ _ _ _ _ (hstep _ _ _ _ _ (hstandard r₁ h₁) h₂) h₃

theorem leavesVectors_ofItems : ofItems.LeavesVectors :=
  ofItems_induct leavesVectors_builtins (fun _ => leavesVectors_standard)
    fun _ _ name parent singleton hr h =>
      hr.register (show Registration.LeavesVectors (.declareClass name parent singleton) from trivial) h

theorem declared_ofItems : ofItems.Declared :=
  ofItems_induct .builtins (fun _ => declared_standard) fun _ _ _ _ _ hr h => hr.register h

end Registry

theorem Scenario.tracesBase : Scenario.platform.TracesBase := by
  intro bag handles k hk
  show k ∈ Scenario.Bag.handlesOver bag handles
  unfold Scenario.Bag.handlesOver
  split
  · exact hk
  · exact List.mem_append_left _ hk

namespace Realm

/-- A realm with an empty vector, an item and an odd object. -/
def ofShelf : Realm Scenario.platform :=
  let r := ofRegistry .ofItems .standard Scenario.Stage.empty
  let r := (r.instantiate ⟨2⟩).2
  let r := (r.instantiate ⟨3⟩).2
  (r.instantiate ⟨4⟩).2

/-- The vector names a class and holds an instance of it, and then it is copied. -/
def ofBasket : Realm Scenario.platform :=
  let r := after (putProperty ⟨1, 0⟩ "elementClass" (.string "Item") false) ofShelf
  let r := after (VectorMethod.run .push (some ⟨1, 0⟩) (.ofArguments [.object ⟨2, 0⟩])) r
  after ((Scenario.hostWithin false 0).clone (.object ⟨1, 0⟩) []) r

instance : RunsVectors (ScriptRun (P := P)) where
  refl := .refl
  trans := .trans
  run method this call r := .step (.refl r) (.callVector method this call r)

/-- A host whose callbacks fail at once. -/
theorem operates_hostWithin_zero : (Scenario.hostWithin false 0).Operates ScriptRun where
  invoke _ _ _ := acts_throw _
  run _ _ _ h := nomatch h
  evaluate _ _ _ h := nomatch h
  call _ _ _ _ _ h := nomatch h

theorem scriptRun_ofShelf :
    ScriptRun (ofRegistry .ofItems .standard Scenario.Stage.empty) ofShelf :=
  .step (.step (.step (.refl _) (.instantiate ⟨2⟩ _)) (.instantiate ⟨3⟩ _)) (.instantiate ⟨4⟩ _)

theorem scriptRun_ofBasket :
    ScriptRun (ofRegistry .ofItems .standard Scenario.Stage.empty) ofBasket := by
  have hempty : (ofShelf.heap.vector? ⟨1, 0⟩).map TypedVector.handles = some [] := by cbv
  have hidle : ofShelf.Idle ⟨1, 0⟩ := by
    intro v hv
    rw [hv] at hempty
    exact Option.some.inj hempty
  have hnamed := ScriptRun.step scriptRun_ofShelf
    (.putProperty ⟨1, 0⟩ "elementClass" (.string "Item") false ofShelf (hidle.allows _ _))
  refine .clone (Scenario.hostWithin false 0) (.object ⟨1, 0⟩) []
    (.step hnamed (.callVector .push (some ⟨1, 0⟩) (.ofArguments [.object ⟨2, 0⟩]) _)) ?_
  exact operates_hostWithin_zero.awakens

/-- The vector and its copy hold an item each, and nothing else. -/
theorem vectors_fit_ofBasket :
    Scenario.platform.TracesBase ∧ Registry.ofItems.LeavesVectors ∧
    ScriptRun (ofRegistry .ofItems .standard Scenario.Stage.empty) ofBasket ∧
    ofBasket.heap.capacity ≤ UInt32.size ∧
    [⟨1, 0⟩, ⟨4, 0⟩].map (fun h => (ofBasket.heap.vector? h).map fun v =>
      (v.elementClass, v.handles)) =
        [some (some "Item", [⟨2, 0⟩]), some (some "Item", [⟨6, 0⟩])] ∧
    ofBasket.Conforming := by
  have hfacts : (ofBasket.heap.capacity, [⟨1, 0⟩, ⟨4, 0⟩].map fun h =>
      (ofBasket.heap.vector? h).map fun v => (v.elementClass, v.handles)) =
        (7, [some (some "Item", [⟨2, 0⟩]), some (some "Item", [⟨6, 0⟩])]) := by cbv
  obtain ⟨hcapacity, hvectors⟩ := Prod.mk.inj hfacts
  have hbound : ofBasket.heap.capacity ≤ UInt32.size := by rw [hcapacity]; decide
  exact ⟨Scenario.tracesBase, Registry.leavesVectors_ofItems, scriptRun_ofBasket, hbound, hvectors,
    scriptRun_ofBasket.vectors_fit Scenario.tracesBase Registry.leavesVectors_ofItems hbound⟩

/-- The vector receives an odd object, and then a class is named for its elements. -/
def ofOddity : Realm Scenario.platform :=
  let r := after (VectorMethod.run .push (some ⟨1, 0⟩) (.ofArguments [.object ⟨3, 0⟩])) ofShelf
  after (putProperty ⟨1, 0⟩ "elementClass" (.string "Item") false) r

/-- Nobody looks at the elements when a class is named: the vector ends up with an object that is no
instance of its element class. -/
theorem misfit_ofOddity :
    ofOddity.Reachable ∧ ofOddity.resolves ⟨3, 0⟩ = true ∧
    (ofOddity.heap.vector? ⟨1, 0⟩).map (fun v => (v.elementClass, v.handles)) =
      some (some "Item", [⟨3, 0⟩]) ∧
    ofOddity.surroundings.isInstanceOf ⟨3, 0⟩ "Item" = false ∧ ¬ ofOddity.Conforming := by
  have hfacts : (ofOddity.heap.capacity, ofOddity.resolves ⟨3, 0⟩,
      (ofOddity.heap.vector? ⟨1, 0⟩).map (fun v => (v.elementClass, v.handles)),
      ofOddity.surroundings.isInstanceOf ⟨3, 0⟩ "Item") =
        (4, true, some (some "Item", [⟨3, 0⟩]), false) := by cbv
  simp only [Prod.mk.injEq] at hfacts
  obtain ⟨hcapacity, hresolves, hvector, hodd⟩ := hfacts
  have hshelf : Steps (ofRegistry .ofItems .standard Scenario.Stage.empty) ofShelf :=
    .tail (.tail (.single (.instantiate ⟨2⟩ _)) (.instantiate ⟨3⟩ _)) (.instantiate ⟨4⟩ _)
  have hsteps : Steps (ofRegistry .ofItems .standard Scenario.Stage.empty) ofOddity :=
    .tail (hshelf.trans (VectorMethod.acts_run .push (some ⟨1, 0⟩) (.ofArguments [.object ⟨3, 0⟩]) _))
      (.putProperty ⟨1, 0⟩ "elementClass" (.string "Item") false _)
  refine ⟨⟨.ofItems, .standard, Scenario.Stage.empty, Registry.declared_ofItems, hsteps,
    by rw [hcapacity]; decide⟩, hresolves, hvector, hodd, fun hconforming => ?_⟩
  obtain ⟨v, hv, heq⟩ := Option.map_eq_some_iff.1 hvector
  obtain ⟨hclass, hhandles⟩ := Prod.mk.inj heq
  have hinstance := hconforming ⟨1, 0⟩ v hv "Item" hclass ⟨3, 0⟩
    (by rw [hhandles]; exact List.mem_cons_self)
  rw [hodd] at hinstance
  cases hinstance

end Realm

end ScriptBridge
