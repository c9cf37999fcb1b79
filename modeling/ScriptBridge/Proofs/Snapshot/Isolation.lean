import ScriptBridge.Proofs.Snapshot.Awakening

/-!
# Isolation

A load in which no instance is awakened leaves alone what was there before, wherever it ends: it
writes only into objects that it has made itself, it takes down just the protections that it has
added, and nothing from before refers to what it has made. So once the answer is dropped, or if there
is none, a collection leaves what it would have left without the load.

Main statement: `Host.load_intact`.
-/

namespace ScriptBridge

open Realm (after)

variable {P : Platform}

namespace Realm

/-! ## Collections of Realms that Agree -/

/-- The handles that are held, by objects and by protections, have all been given out. -/
structure HoldsIssued (r : Realm P) : Prop where
  objects : ∀ h object, r.heap.get? h = some object → ∀ k ∈ object.handles, r.heap.Issued k
  roots : ∀ h ∈ r.collector.roots.handles, r.heap.Issued h

variable {r r' : Realm P}

/-- Along handles that have been given out one gets to the same objects. -/
theorem reaches_iff_of_agree (hissued : r.HoldsIssued)
    (hagree : ∀ h, r.heap.Issued h → r'.heap.get? h = r.heap.get? h)
    (hroots : ∀ h, h ∈ r'.collector.roots.handles ↔ h ∈ r.collector.roots.handles) (h : Handle) :
    r'.heap.Reaches r'.collector.roots.handles h ↔ r.heap.Reaches r.collector.roots.handles h := by
  constructor
  · intro hreach
    induction hreach with
    | start hstart hget =>
      have hstart' := (hroots _).1 hstart
      exact .start hstart' ((hagree _ (hissued.roots _ hstart')).symm.trans hget)
    -- what is reached next is named by an object that is the same in both
    | @step h k object target _ hget hk hkget ih =>
      obtain ⟨before, hbefore⟩ := ih.resolves
      obtain rfl : object = before := by
        rw [hagree h (Heap.issued_of_get? hbefore), hbefore] at hget
        exact (Option.some.inj hget).symm
      have hissued' := hissued.objects h object hbefore k hk
      exact .step ih hbefore hk ((hagree k hissued').symm.trans hkget)
  · intro hreach
    have hsame : ∀ {k : Handle} {object : ScriptObject P}, r.heap.get? k = some object →
        r'.heap.get? k = some object := fun hget => (hagree _ (Heap.issued_of_get? hget)).trans hget
    induction hreach with
    | start hstart hget => exact .start ((hroots _).2 hstart) (hsame hget)
    | step _ hget hk hkget ih => exact .step ih (hsame hget) hk (hsame hkget)

/-- Two realms that agree on what had been given out in one of them are the same after a
collection. -/
theorem get?_collect_of_agree (hissued : r.HoldsIssued) (hwf : r.heap.WellFormed)
    (hwf' : r'.heap.WellFormed) (hagree : ∀ h, r.heap.Issued h → r'.heap.get? h = r.heap.get? h)
    (hroots : ∀ h, h ∈ r'.collector.roots.handles ↔ h ∈ r.collector.roots.handles) (h : Handle) :
    r'.collect.2.heap.get? h = r.collect.2.heap.get? h := by
  have hreach := reaches_iff_of_agree hissued hagree hroots h
  by_cases hr : r.heap.Reaches r.collector.roots.handles h
  · obtain ⟨object, hget⟩ := hr.resolves
    rw [(get?_collect hwf h).1 hr, (get?_collect hwf' h).1 (hreach.2 hr),
      hagree h (Heap.issued_of_get? hget)]
  · rw [(get?_collect hwf h).2 hr, (get?_collect hwf' h).2 fun hr' => hr (hreach.1 hr')]

end Realm

/-- A realm after something that has left alone what was there before. -/
structure Realm.Intact (r r' : Realm P) : Prop where
  /-- Every handle has as many protections as before. -/
  protections : ∀ h, r'.protections h = r.protections h
  /-- Every object is there with all that it holds. -/
  kept : ∀ h object, r.heap.get? h = some object → r'.heap.get? h = some object
  /-- A collection leaves what it would have left before. -/
  collect : ∀ h, r'.collect.2.heap.get? h = r.collect.2.heap.get? h

namespace Host

/-- **A load does not disturb the heap.** When no call starts that awakens an instance, a load,
whether it succeeds or fails, leaves the protections and the objects as they were, and what it has
made is gone with the next collection. -/
theorem load_intact (host : Host P) {r : Realm P} (hr : r.Reachable) (hissued : r.HoldsIssued)
    (s : Snapshot) (copying : Bool) (hquiet : host.awakeStarts s copying r = [])
    (hbound : (after (host.load s copying) r).heap.capacity ≤ UInt32.size) :
    r.Intact (after (host.load s copying) r) := by
  have hwf := hr.sound.wellFormed
  have hafter : after (host.load s copying) r =
      Realm.unprotectAll (r.building s copying).made (r.building s copying).realm := by
    rw [after_load, made_ending, realm_ending_of_quiet hquiet]
  have hsteps : r.Steps (after (host.load s copying) r) := by
    rw [hafter]
    exact Relation.ReflTransGen.trans acts_building (Realm.steps_unprotectAll _ _)
  have hreachable := hr.steps hsteps hbound
  have hprotections : ∀ h, (after (host.load s copying) r).protections h = r.protections h := by
    intro h
    rw [hafter, Realm.protections_unprotectAll, protections_building, Nat.add_sub_cancel]
  have hheap : (after (host.load s copying) r).heap = (r.building s copying).realm.heap := by
    rw [hafter, Realm.heap_unprotectAll]
  have hagree : ∀ h, r.heap.Issued h →
      (after (host.load s copying) r).heap.get? h = r.heap.get? h := by
    intro h hh
    rw [hheap] at hbound ⊢
    exact ((apart_building hwf hbound).issued h hh).2
  constructor
  case protections => exact hprotections
  case kept =>
    intro h object hget
    rw [hagree h (Heap.issued_of_get? hget), hget]
  case collect =>
    refine Realm.get?_collect_of_agree hissued hwf hreachable.sound.wellFormed hagree fun h => ?_
    -- a handle is listed as long as it has protections
    rw [hreachable.positive.mem_handles_iff, hr.positive.mem_handles_iff]
    exact iff_of_eq (congrArg (0 < ·) (hprotections h))

end Host

/-- The built-in classes, and a singleton class. -/
def Registry.withDesk : Registry Scenario.platform :=
  .push .builtins ⟨"Desk", none, true, false⟩

namespace Realm

/-- A realm in strict mode in which the singleton has been installed. -/
def ofDesk : Realm Scenario.platform :=
  after (publishSingleton "Desk")
    (ofRegistry .withDesk { Options.standard with strictness := .strict } Scenario.Stage.empty)

theorem reachable_ofDesk : ofDesk.Reachable := by
  have hclass : (Registry.builtins (P := Scenario.platform)).register
      (.declareClass "Desk" none true) = .ok .withDesk := by cbv
  have hcapacity : ofDesk.heap.capacity = 2 := by cbv
  exact ⟨.withDesk, _, _, .register .builtins hclass, .single (.publishSingleton "Desk" _),
    by rw [hcapacity]; decide⟩

theorem holdsIssued_ofDesk : ofDesk.HoldsIssued := by
  have hglobals : ofDesk.heap.get? ⟨0, 0⟩ =
      some ⟨.plain, ⟨[("Desk", .object ⟨1, 0⟩)], by decide⟩⟩ := by cbv
  have hdesk : ofDesk.heap.get? ⟨1, 0⟩ = some ⟨.instanceOf ⟨2⟩ none, .empty⟩ := by cbv
  have hlive : ofDesk.heap.handles = [⟨0, 0⟩, ⟨1, 0⟩] := by cbv
  have hroots : ofDesk.collector.roots.handles = [⟨0, 0⟩, ⟨1, 0⟩] := by cbv
  have hissued : ∀ h ∈ [⟨0, 0⟩, ⟨1, 0⟩], ofDesk.heap.Issued h := by
    intro h hh
    rcases List.mem_pair.1 hh with rfl | rfl
    · exact Heap.issued_of_get? hglobals
    · exact Heap.issued_of_get? hdesk
  constructor
  case roots =>
    rw [hroots]
    exact hissued
  case objects =>
    intro h object hget k hk
    have hmem := Heap.mem_handles_of_get? hget
    rw [hlive] at hmem
    rcases List.mem_pair.1 hmem with rfl | rfl
    · obtain rfl := Option.some.inj (hglobals.symm.trans hget)
      have hk : k ∈ [(⟨1, 0⟩ : Handle)] := hk
      exact hissued k (List.mem_cons_of_mem _ hk)
    · obtain rfl := Option.some.inj (hdesk.symm.trans hget)
      have hk : k ∈ ([] : List Handle) := hk
      cases hk

end Realm

/-- A node with the singleton and a stub that stands for nothing. -/
def Snapshot.ofDesk : Snapshot :=
  ⟨#[⟨none, none, ⟨[("desk", .node 1), ("chair", .stub "7")], by decide⟩⟩,
    ⟨some "Desk", none, ⟨[("legs", .int 4)], by decide⟩⟩], .node 0⟩

/-- A load that fails when its object has been made leaves no trace. -/
theorem Host.load_intact_desk :
    Realm.ofDesk.Reachable ∧ Realm.ofDesk.HoldsIssued ∧
    (Scenario.hostWithin false 1).awakeStarts .ofDesk false Realm.ofDesk = [] ∧
    (after ((Scenario.hostWithin false 1).load .ofDesk false) Realm.ofDesk).heap.capacity = 3 ∧
    (Id.run (((Scenario.hostWithin false 1).load .ofDesk false).run.run Realm.ofDesk)).1 =
      .error (.unresolvedStub "7") ∧
    Realm.ofDesk.Intact (after ((Scenario.hostWithin false 1).load .ofDesk false) Realm.ofDesk) := by
  have hquiet : (Scenario.hostWithin false 1).awakeStarts .ofDesk false Realm.ofDesk = [] := by cbv
  have hcapacity : (after ((Scenario.hostWithin false 1).load .ofDesk false)
      Realm.ofDesk).heap.capacity = 3 := by cbv
  exact ⟨Realm.reachable_ofDesk, Realm.holdsIssued_ofDesk, hquiet, hcapacity, by cbv,
    (Scenario.hostWithin false 1).load_intact Realm.reachable_ofDesk Realm.holdsIssued_ofDesk
      .ofDesk false hquiet (by rw [hcapacity]; decide)⟩

end ScriptBridge
