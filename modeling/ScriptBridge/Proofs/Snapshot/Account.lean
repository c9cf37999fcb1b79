import ScriptBridge.Proofs.Snapshot.Phases

/-!
# The Account of a Load

A load leaves a realm behind, but not what it has handed to the properties on the way, nor which array
it has read for which entry. So that this can be spoken of, a load is told again, step by step, with an
account of these things. The account is kept on the side: without it, every step is the step that is
told.

Main statement: `Told.tells_build` (leaving the account aside, a load that is told is the load).
-/

namespace ScriptBridge

variable {P : Platform}

namespace Loading

open Snapshot (Entry Node fieldName functionOf?)

/-! ## Accounts -/

/-- Something that is told of a load. -/
inductive Event where
  /-- A value, with the items of its arrays, is handed to a property. -/
  | handed (owner : Handle) (name : String) (value : Value)
  /-- An array has been read for the entry of an object under a key. -/
  | built (owner : Handle) (key : String) (array : Handle)
  /-- An item of an array waits for the node with an identifier. -/
  | deferred (id : String) (array : Handle) (index : Nat)
  /-- A node has been read into a new object, and all its entries have been written. -/
  | filled (h : Handle) (node : Node)

/-- What is told of a load, the newest first. -/
abbrev Account := List Event

/-- The value that was handed to a property last. -/
def Account.lastHanded (H : Account) (h : Handle) (name : String) : Option Value :=
  H.findSome? fun
    | .handed owner key value => if owner = h ∧ key = name then some value else none
    | _ => none

/-- A step of loading of which an account is given. -/
abbrev ToldM (P : Platform) (α : Type) := StateT Account (LoadingM P) α

namespace Told

variable {α β : Type}

/-- A step of loading of which nothing is told. -/
def silently (step : LoadingM P α) : ToldM P α := StateT.lift step

/-- Adds to the account. -/
def tell (event : Event) : ToldM P Unit := modify (event :: ·)

/-- Writes a property, having told what it is handed: properties see arrays with their items. -/
def hand (h : Handle) (name : String) (value : Value) (step : LoadingM P Unit) : ToldM P Unit := do
  tell (.handed h name (← silently (ask (·.expand value))))
  silently step

/-! ## The Steps of a Load, Told -/

def settle (target : Handle) : Place → ToldM P Unit
  | .property owner name => hand owner name (.object target) (write owner name (.object target))
  | .item array index => silently (Loading.settle target (.item array index))

def announce (id : String) (target : Handle) : ToldM P Unit := do
  let s ← silently get
  silently (modify (·.met (some id) target))
  (s.waitingFor id).forM (settle target)

def settleRow (id : String) (places : List Place) : ToldM P Unit := do
  match (← silently get).built.lookup id with
  | some target => places.forM (settle target)
  | none => silently do if ← isStrict then throw (.unresolvedStub id)

def settleAll : ToldM P Unit := do
  let s ← silently get
  silently (modify fun s => { s with waiting := .empty })
  s.waiting.entries.forM fun (id, places) => settleRow id places

def renewAll : ToldM P Unit := do
  let s ← silently get
  silently (modify fun s => { s with renewals := [] })
  s.renewals.forM fun (owner, name, array) =>
    hand owner name (.object array) (write owner name (.object array))

/-- What is read for an entry one container deeper. -/
abbrev Inner (P : Platform) := Entry → ToldM P Value

def readNoting (inner : Inner P) (h : Handle) (key : String) (entry : Entry) : ToldM P Value := do
  let before := (← silently get).lateItems
  let value ← inner entry
  match entry, value with
  | .array _, .object array =>
    tell (.built h key array)
    if before < (← silently get).lateItems then
      silently (modify fun s => { s with renewals := s.renewals ++ [(h, key, array)] })
  | _, _ => pure ()
  return value

def prepare (inner : Inner P) (h : Handle) (key : String) (entry : Entry) : ToldM P Value :=
  match functionOf? (key, entry), entry with
  | some (name, source), _ => silently do
    return .function (← perform (modifyGet (Realm.newFunction name (.script source))))
  | none, .stub id => silently do
    await id (.property h key)
    return .null
  | none, entry => readNoting inner h key entry

def restoreEntry (inner : Inner P) (h : Handle) (key : String) (entry : Entry) : ToldM P Unit := do
  let value ← prepare inner h key entry
  let name := fieldName (key, entry)
  hand h name value (writeFirst h name entry value)

def rebuildNode (inner : Inner P) (node : Node) : ToldM P (Option Handle) := do
  match ← silently (ask (singletonName? · node)) with
  | some name =>
    let some h ← silently (findSingleton name) | return none
    if let some id := node.id then announce id h
    return some h
  | none =>
    let h ← silently (make node.className)
    if let some id := node.id then announce id h
    let entries ← silently (ask fun r => inPhases r (r.classOf? h) node.entries)
    entries.forM fun (key, entry) => restoreEntry inner h key entry
    tell (.filled h node)
    return some h

def rebuildItems (inner : Inner P) (array : Handle) (index : Nat) : List Entry → ToldM P Unit
  | [] => return
  | item :: items => do
    let value ← match item with
      | .stub id => do
        silently (await id (.item array index))
        tell (.deferred id array index)
        pure .null
      | item => inner item
    silently (discard (perform (Realm.assignElement array index value)))
    rebuildItems inner array (index + 1) items

def rebuildArray (inner : Inner P) (items : List Entry) : ToldM P Handle := do
  let array ← silently makeArray
  rebuildItems inner array 0 items
  return array

def rebuildWith (s : Snapshot) (inner? : Option (Inner P)) (entry : Entry) : ToldM P Value :=
  match inner?, entry with
  | some inner, .array items => return .object (← rebuildArray inner items)
  | some inner, .node index => do
    let node ← silently (s.node index)
    return .ofObject? (← rebuildNode inner node)
  -- of what is no container there is nothing to tell, and without room for it a load ends
  | _, entry => silently (Loading.rebuildWith s none entry)

def read (s : Snapshot) : (room : Nat) → Inner P
  | 0 => rebuildWith s none
  | room + 1 => rebuildWith s (some (read s room))

def build (s : Snapshot) : ToldM P Value := do
  let root ← read s (← silently (ask Realm.options)).depthLimit s.root
  settleAll
  renewAll
  return root

/-! ## Leaving the Account Aside -/

/-- A step that is told is, but for the account, a step of loading. -/
def Tells (told : ToldM P α) (step : LoadingM P α) : Prop := ∀ H, Prod.fst <$> told.run H = step

theorem tells_pure (answer : α) : Tells (pure answer : ToldM P α) (pure answer) := by
  intro H
  simp only [StateT.run_pure, map_pure]

theorem tells_silently (step : LoadingM P α) : Tells (silently step) step := by
  intro H
  simp only [silently, StateT.run_lift, map_bind, map_pure, bind_pure]

theorem tells_tell_bind {event : Event} {next : PUnit → ToldM P α} {step : LoadingM P α}
    (h : Tells (next ⟨⟩) step) : Tells (tell event >>= next) step :=
  fun H => h (event :: H)

theorem Tells.bind {told : ToldM P α} {step : LoadingM P α} {next : α → ToldM P β}
    {next' : α → LoadingM P β} (h : Tells told step) (h' : ∀ answer, Tells (next answer) (next' answer)) :
    Tells (told >>= next) (step >>= next') := by
  intro H
  rw [← h H, StateT.run_bind, map_bind, bind_map_left]
  exact bind_congr fun ran => h' ran.1 ran.2

theorem tells_forM {xs : List α} {told : α → ToldM P PUnit} {step : α → LoadingM P PUnit}
    (h : ∀ x, Tells (told x) (step x)) : Tells (xs.forM told) (xs.forM step) := by
  induction xs with
  | nil => exact tells_pure _
  | cons x xs ih => exact (h x).bind fun _ => ih

theorem tells_hand (h : Handle) (name : String) (value : Value) (step : LoadingM P Unit) :
    Tells (hand h name value step) step := by
  have hask : step = ask (·.expand value) >>= fun _ => step := rfl
  rw [hask]
  exact (tells_silently _).bind fun _ => tells_tell_bind (tells_silently step)

theorem tells_settle (target : Handle) (place : Place) :
    Tells (P := P) (settle target place) (Loading.settle target place) := by
  cases place with
  | property owner name => exact tells_hand owner name _ _
  | item array index => exact tells_silently _

theorem tells_announce (id : String) (target : Handle) :
    Tells (P := P) (announce id target) (Loading.announce id target) := by
  refine (tells_silently get).bind fun s => ?_
  exact (tells_silently _).bind fun _ => tells_forM (tells_settle target)

theorem tells_settleAll : Tells (P := P) settleAll Loading.settleAll := by
  refine (tells_silently get).bind fun s => (tells_silently _).bind fun _ => tells_forM ?_
  intro (id, places)
  refine (tells_silently get).bind fun s => ?_
  cases s.built.lookup id with
  | some target => exact tells_forM (tells_settle target)
  | none => exact tells_silently _

theorem tells_renewAll : Tells (P := P) renewAll Loading.renewAll := by
  refine (tells_silently get).bind fun s => (tells_silently _).bind fun _ => tells_forM ?_
  intro (owner, name, array)
  exact tells_hand owner name _ _

section

variable {inner : Inner P} {inner' : Loading.Inner P}

theorem tells_readNoting (hinner : ∀ entry, Tells (inner entry) (inner' entry)) (h : Handle)
    (key : String) (entry : Entry) :
    Tells (readNoting inner h key entry) (Loading.readNoting inner' h key entry) := by
  refine (tells_silently get).bind fun s => (hinner entry).bind fun value => ?_
  cases entry with
  | array items =>
    cases value with
    | object array =>
      refine tells_tell_bind ((tells_silently get).bind fun s' => ?_)
      dsimp only
      split
      · exact (tells_silently _).bind fun _ => tells_pure _
      · exact tells_pure _
    | _ => exact tells_pure _
  | _ => exact tells_pure _

theorem tells_prepare (hinner : ∀ entry, Tells (inner entry) (inner' entry)) (h : Handle)
    (key : String) (entry : Entry) :
    Tells (prepare inner h key entry) (Loading.prepare inner' h key entry) := by
  unfold prepare Loading.prepare
  cases functionOf? (key, entry) with
  | some function => exact tells_silently _
  | none =>
    cases entry with
    | stub id => exact tells_silently _
    | _ => exact tells_readNoting hinner h key _

theorem tells_restoreEntry (hinner : ∀ entry, Tells (inner entry) (inner' entry)) (h : Handle)
    (key : String) (entry : Entry) :
    Tells (restoreEntry inner h key entry) (Loading.restoreEntry inner' h key entry) := by
  rw [restoreEntry_eq]
  exact (tells_prepare hinner h key entry).bind fun value => tells_hand h _ value _

theorem tells_rebuildNode (hinner : ∀ entry, Tells (inner entry) (inner' entry)) (node : Node) :
    Tells (rebuildNode inner node) (Loading.rebuildNode inner' node) := by
  refine (tells_silently _).bind fun name? => ?_
  cases name? with
  | some name =>
    refine (tells_silently _).bind fun found => ?_
    cases found with
    | none => exact tells_pure none
    | some h =>
      dsimp only
      cases node.id with
      | none => exact tells_pure (some h)
      | some id => exact (tells_announce id h).bind fun _ => tells_pure (some h)
  | none =>
    refine (tells_silently _).bind fun h => ?_
    have hentries : Tells (P := P) (do
        let entries ← silently (ask fun r => inPhases r (r.classOf? h) node.entries)
        entries.forM fun entry => restoreEntry inner h entry.1 entry.2
        tell (.filled h node)
        return some h) (do
        let entries ← ask fun r => inPhases r (r.classOf? h) node.entries
        entries.forM fun entry => Loading.restoreEntry inner' h entry.1 entry.2
        return some h) := by
      refine (tells_silently _).bind fun entries => Tells.bind ?_ fun _ =>
        tells_tell_bind (tells_pure (some h))
      exact tells_forM fun entry => tells_restoreEntry hinner h entry.1 entry.2
    dsimp only
    cases node.id with
    | none => exact hentries
    | some id => exact (tells_announce id h).bind fun _ => hentries

theorem tells_rebuildItems (hinner : ∀ entry, Tells (inner entry) (inner' entry)) (array : Handle)
    (index : Nat) (items : List Entry) :
    Tells (rebuildItems inner array index items) (Loading.rebuildItems inner' array index items) := by
  induction items generalizing index with
  | nil => exact tells_pure ()
  | cons item items ih =>
    have hrest : ∀ value, Tells (P := P)
        (silently (discard (perform (Realm.assignElement array index value))) >>= fun _ =>
          rebuildItems inner array (index + 1) items)
        (discard (perform (Realm.assignElement array index value)) >>= fun _ =>
          Loading.rebuildItems inner' array (index + 1) items) :=
      fun value => (tells_silently _).bind fun _ => ih (index + 1)
    unfold rebuildItems Loading.rebuildItems
    cases item with
    | stub id => exact (tells_silently _).bind fun _ => tells_tell_bind (hrest .null)
    | _ => exact (hinner _).bind hrest

theorem tells_rebuildArray (hinner : ∀ entry, Tells (inner entry) (inner' entry))
    (items : List Entry) :
    Tells (rebuildArray inner items) (Loading.rebuildArray inner' items) := by
  rw [rebuildArray_eq]
  refine (tells_silently _).bind fun array => ?_
  exact (tells_rebuildItems hinner array 0 items).bind fun _ => tells_pure array

end

theorem tells_read (s : Snapshot) (room : Nat) (entry : Entry) :
    Tells (P := P) (read s room entry) (Loading.read s room entry) := by
  -- by the room that is left for nesting
  induction room generalizing entry with
  | zero =>
    cases entry with
    | _ => exact tells_silently _
  | succ room ih =>
    cases entry with
    | array items => exact (tells_rebuildArray ih items).bind fun array => tells_pure _
    | node index =>
      exact (tells_silently _).bind fun node => (tells_rebuildNode ih node).bind fun h? =>
        tells_pure _
    | _ => exact tells_silently _

/-- Leaving the account aside, a load that is told is the load. -/
theorem tells_build (s : Snapshot) : Tells (P := P) (build s) (Loading.build s) := by
  refine (tells_silently _).bind fun options => (tells_read s _ s.root).bind fun root => ?_
  exact tells_settleAll.bind fun _ => tells_renewAll.bind fun _ => tells_pure root

end Told

end Loading

end ScriptBridge
