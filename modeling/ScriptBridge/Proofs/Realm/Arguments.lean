import ScriptBridge.Invocation
import Mathlib.Data.List.FinRange
import Mathlib.Logic.Function.Basic

/-!
# Reading Arguments in Place

A native function names the places that its arguments go to: none, a single one, or a row of them, each
of a type of its own. Arguments are converted in order and set aside first; only when all of them have
converted, the places are written, one after the other. So a read that breaks off half-way has written
nothing.

Main statements: `run_stage` (what has been set aside), `run_commit` (what has been written) and
`Invocation.reads_all_or_nothing`.
-/

namespace ScriptBridge

/-! ## Places -/

/-- A type as which native code can receive values. -/
structure Reception where
  /-- The type. -/
  type : Type
  /-- The value as one of this type, if it converts. -/
  read? : Value → Option type

/-- A value that is received as a target is passed on as a value. -/
def Target.reception (target : Target) : Reception := ⟨Value, target.read?⟩

/-- The places that arguments are read into. -/
inductive Prototype where
  /-- No place. -/
  | nothing
  /-- A single place. -/
  | single (reception : Reception)
  /-- A row of places. -/
  | row {n : Nat} (receptions : Fin n → Reception)

/-- What the places of a row hold. -/
abbrev Held {n : Nat} (receptions : Fin n → Reception) : Type := (i : Fin n) → (receptions i).type

/-- Converted arguments that wait to be written. -/
abbrev Staged {n : Nat} (receptions : Fin n → Reception) : Type :=
  (i : Fin n) → Option (receptions i).type

namespace Prototype

/-- The number of places. -/
def size : Prototype → Nat
  | nothing => 0
  | single _ => 1
  | @row n _ => n

/-- As what each place receives its argument. -/
def receptions : (p : Prototype) → Fin p.size → Reception
  | nothing => fun i => i.elim0
  | single reception => fun _ => reception
  | row receptions => receptions

/-- The row of places that native code keeps in a list. -/
def ofOutputs (outputs : List Output) : Prototype :=
  row fun i : Fin outputs.length => (outputs.get i).target.reception

end Prototype

/-! ## Reading -/

section

variable {n : Nat} {receptions : Fin n → Reception}

/-- Converts the argument of a place, if there is one, and sets it aside. -/
def stageAt (receptions : Fin n → Reception) (arguments : List Value) (staged : Staged receptions)
    (i : Fin n) : Option (Staged receptions) :=
  match arguments[i.val]? with
  -- nothing is going to be written behind the last argument
  | none => some staged
  | some argument => do
    let converted ← (receptions i).read? argument
    return Function.update staged i (some converted)

/-- Converts the arguments in order, up to the first one that does not convert. -/
def stage (receptions : Fin n → Reception) (arguments : List Value) : Option (Staged receptions) :=
  (List.finRange n).foldlM (stageAt receptions arguments) fun _ => none

/-- Writes the argument that waits for a place, if there is one. -/
def commitAt (staged : Staged receptions) (held : Held receptions) (i : Fin n) : Held receptions :=
  match staged i with
  | some converted => Function.update held i converted
  | none => held

/-- Writes the arguments that wait, in order. -/
def commit (staged : Staged receptions) (held : Held receptions) : Held receptions :=
  (List.finRange n).foldl (commitAt staged) held

end

namespace Prototype

/-- Reads arguments into the places, and tells whether all of them have converted. -/
def fill : (p : Prototype) → List Value → StateM (Held p.receptions) Bool
  | nothing, _ => return true
  | single reception, arguments =>
    match arguments.head? with
    | none => return true
    | some argument =>
      match reception.read? argument with
      | none => return false
      | some converted => do
        modify fun _ _ => converted
        return true
  | row receptions, arguments =>
    -- no place is touched before the last argument has converted
    match stage receptions arguments with
    | none => return false
    | some staged => do
      modify (commit staged)
      return true

end Prototype

/-- Reads the arguments from position `offset` on, of which `required` have to be there, and tells
whether that has succeeded. -/
def Invocation.readInPlace (call : Invocation) (offset required : Nat) (p : Prototype) :
    StateM (Held p.receptions) Bool :=
  let rest := call.arguments.drop offset
  if rest.length < required then return false else p.fill rest

/-! ## One Place after the Other -/

section

variable {n : Nat} {receptions : Fin n → Reception} {arguments : List Value}

/-- The argument of a place as what the place receives, if there is one that converts. -/
def received? (receptions : Fin n → Reception) (arguments : List Value) (i : Fin n) :
    Option (receptions i).type :=
  arguments[i.val]?.bind (receptions i).read?

/-- The argument of a place converts, if there is one. -/
def Converts (receptions : Fin n → Reception) (arguments : List Value) (i : Fin n) : Prop :=
  ∀ argument, arguments[i.val]? = some argument → ∃ x, (receptions i).read? argument = some x

theorem stageAt_of_converts {i : Fin n} (h : Converts receptions arguments i)
    (staged : Staged receptions) :
    ∃ staged', stageAt receptions arguments staged i = some staged' ∧
      staged' i = (received? receptions arguments i).or (staged i) ∧
      ∀ j, j ≠ i → staged' j = staged j := by
  unfold stageAt received?
  cases hargument : arguments[i.val]? with
  | none => exact ⟨staged, rfl, rfl, fun _ _ => rfl⟩
  | some argument =>
    obtain ⟨converted, hconverted⟩ := h argument hargument
    refine ⟨Function.update staged i (some converted), ?_, ?_, ?_⟩
    · simp [hconverted]
    · simp [hconverted]
    · exact fun j hj => Function.update_of_ne hj _ _

theorem stageAt_of_not_converts {i : Fin n} (h : ¬ Converts receptions arguments i)
    (staged : Staged receptions) : stageAt receptions arguments staged i = none := by
  unfold stageAt
  cases hargument : arguments[i.val]? with
  | none =>
    refine absurd ?_ h
    intro argument hsome
    rw [hargument] at hsome
    cases hsome
  | some argument =>
    cases hconverted : (receptions i).read? argument with
    | none => simp [hconverted]
    | some converted =>
      refine absurd ?_ h
      intro other hother
      obtain rfl := Option.some.inj (hargument.symm.trans hother)
      exact ⟨converted, hconverted⟩

/-- What is set aside on the way along some of the places. -/
theorem foldlM_stageAt (positions : List (Fin n))
    (h : ∀ i ∈ positions, Converts receptions arguments i) (staged : Staged receptions) :
    ∃ staged', positions.foldlM (stageAt receptions arguments) staged = some staged' ∧
      (∀ i ∈ positions, staged' i = (received? receptions arguments i).or (staged i)) ∧
      ∀ i, i ∉ positions → staged' i = staged i := by
  induction positions generalizing staged with
  | nil => exact ⟨staged, rfl, fun i hi => absurd hi List.not_mem_nil, fun _ _ => rfl⟩
  | cons i positions ih =>
    -- the first place is staged, and the others come on top of that
    obtain ⟨next, hnext, hhere, hthere⟩ := stageAt_of_converts (h i List.mem_cons_self) staged
    obtain ⟨last, hlast, hin, hout⟩ := ih (fun j hj => h j (List.mem_cons_of_mem _ hj)) next
    refine ⟨last, ?_, ?_, ?_⟩
    · rw [List.foldlM_cons, hnext]
      exact hlast
    · intro j hj
      by_cases hmem : j ∈ positions
      -- a place that comes twice is staged in the same way again
      · rw [hin j hmem]
        by_cases hji : j = i
        · subst hji
          rw [hhere]
          cases received? receptions arguments j <;> rfl
        · rw [hthere j hji]
      · rw [hout j hmem]
        obtain rfl : j = i := (List.mem_cons.1 hj).resolve_right hmem
        exact hhere
    · intro j hj
      rw [List.mem_cons, not_or] at hj
      rw [hout j hj.2, hthere j hj.1]

theorem foldlM_stageAt_eq_none {positions : List (Fin n)} {i : Fin n} (hi : i ∈ positions)
    (h : ¬ Converts receptions arguments i) (staged : Staged receptions) :
    positions.foldlM (stageAt receptions arguments) staged = none := by
  induction positions generalizing staged with
  | nil => cases hi
  | cons j positions ih =>
    rw [List.foldlM_cons]
    cases hnext : stageAt receptions arguments staged j with
    | none => rfl
    | some next =>
      -- the place that fails is the first one or lies ahead
      rcases List.mem_cons.1 hi with rfl | hi
      · rw [stageAt_of_not_converts h] at hnext
        cases hnext
      · exact ih hi next

/-- What is set aside when all arguments convert. -/
theorem run_stage (h : ∀ i, Converts receptions arguments i) :
    stage receptions arguments = some (received? receptions arguments) := by
  obtain ⟨staged, hrun, hin, -⟩ := foldlM_stageAt (List.finRange n) (fun i _ => h i)
    fun _ => none
  have hstaged : staged = received? receptions arguments := by
    funext i
    rw [hin i (List.mem_finRange i), Option.or_none]
  rw [← hstaged]
  exact hrun

theorem run_stage_eq_none {i : Fin n} (h : ¬ Converts receptions arguments i) :
    stage receptions arguments = none :=
  foldlM_stageAt_eq_none (List.mem_finRange i) h _

/-- What is written on the way along some of the places. -/
theorem foldl_commitAt (staged : Staged receptions) (positions : List (Fin n)) (held : Held receptions)
    (i : Fin n) :
    positions.foldl (commitAt staged) held i =
      if i ∈ positions then (staged i).getD (held i) else held i := by
  have hstep : ∀ (held : Held receptions) (j : Fin n), commitAt staged held j i =
      if i = j then (staged i).getD (held i) else held i := by
    intro held j
    unfold commitAt
    by_cases hij : i = j
    · subst hij
      rw [if_pos rfl]
      cases staged i <;> simp
    · rw [if_neg hij]
      cases staged j with
      | none => rfl
      | some converted => exact Function.update_of_ne hij _ _
  induction positions generalizing held with
  | nil => rfl
  | cons j positions ih =>
    rw [List.foldl_cons, ih, hstep]
    by_cases hij : i = j
    -- a place that comes twice is written with the same value again
    · subst hij
      cases staged i <;> simp
    · simp [hij]

/-- What the places hold when all that waits has been written. -/
theorem run_commit (staged : Staged receptions) (held : Held receptions) :
    commit staged held = fun i => (staged i).getD (held i) := by
  funext i
  rw [commit, foldl_commitAt, if_pos (List.mem_finRange i)]

end

/-! ## All or Nothing -/

namespace Prototype

variable {p : Prototype} {arguments : List Value}

theorem fill_of_converts (h : ∀ i, Converts p.receptions arguments i) (held : Held p.receptions) :
    (p.fill arguments).run held =
      (true, fun i => (received? p.receptions arguments i).getD (held i)) := by
  cases p with
  | nothing => exact Prod.ext rfl (funext fun i => i.elim0)
  | single reception =>
    have hzero : ∀ i : Fin (single reception).size, i = (0 : Fin 1) := fun i => @Subsingleton.elim (Fin 1) _ i 0
    cases arguments with
    | nil => rfl
    | cons argument arguments =>
      obtain ⟨converted, hconverted⟩ := h (0 : Fin 1) argument rfl
      have hreceived : reception.read? argument = some converted := hconverted
      simp only [fill, List.head?_cons, hreceived]
      refine Prod.ext rfl (funext fun i => ?_)
      obtain rfl := hzero i
      show converted = (reception.read? argument).getD (held (0 : Fin 1))
      rw [hreceived]
      rfl
  | row receptions =>
    have hstage : stage receptions arguments = some (received? receptions arguments) := run_stage h
    simp only [fill, hstage]
    exact Prod.ext rfl (run_commit _ held)

theorem fill_of_not_converts {i : Fin p.size} (h : ¬ Converts p.receptions arguments i)
    (held : Held p.receptions) : (p.fill arguments).run held = (false, held) := by
  cases p with
  | nothing => exact i.elim0
  | single reception =>
    have hi : i = (0 : Fin 1) := @Subsingleton.elim (Fin 1) _ i 0
    subst hi
    cases arguments with
    | nil => exact absurd (fun argument hargument => nomatch hargument) h
    | cons argument arguments =>
      cases hreceived : reception.read? argument with
      | none =>
        simp only [fill, List.head?_cons, hreceived]
        rfl
      | some converted =>
        refine absurd ?_ h
        intro other hother
        obtain rfl := Option.some.inj hother
        exact ⟨converted, hreceived⟩
  | row receptions =>
    have hstage : stage receptions arguments = none := run_stage_eq_none h
    simp only [fill, hstage]
    rfl

end Prototype

/-! ## Outputs in a List -/

/-- What arguments are read into a list of outputs, position by position. -/
theorem readInto_eq_some_iff {outputs : List Output} {arguments values : List Value} :
    readInto outputs arguments = some values ↔ values.length = outputs.length ∧
      ∀ (i : Nat) (output : Output), outputs[i]? = some output →
        values[i]? = arguments[i]?.elim (some output.held) output.target.read? := by
  induction outputs generalizing arguments values with
  | nil => simp [readInto, eq_comm]
  | cons output outputs ih =>
    cases arguments with
    | nil =>
      simp only [readInto, Option.some.injEq, List.getElem?_nil, Option.elim_none]
      constructor
      · rintro rfl
        refine ⟨by simp, fun i output' h => ?_⟩
        rw [List.getElem?_map, h, Option.map_some]
      -- without arguments the values are what the outputs hold, at each position
      · rintro ⟨hlength, hvalues⟩
        refine (List.ext_getElem? fun i => ?_).symm
        rw [List.getElem?_map]
        cases houtput : (output :: outputs)[i]? with
        | some output' => rw [hvalues i output' houtput, Option.map_some]
        | none =>
          rw [List.getElem?_eq_none_iff] at houtput
          rw [Option.map_none, List.getElem?_eq_none_iff, hlength]
          exact houtput
    | cons argument arguments =>
      cases values with
      | nil =>
        cases hread : output.target.read? argument <;> simp [readInto, hread, Option.bind_eq_some_iff]
      | cons value values =>
        have hstep : readInto (output :: outputs) (argument :: arguments) = some (value :: values) ↔
            output.target.read? argument = some value ∧ readInto outputs arguments = some values := by
          simp [readInto, Option.bind_eq_some_iff]
        rw [hstep, ih, List.length_cons, List.length_cons, Nat.add_right_cancel_iff]
        constructor
        · rintro ⟨hvalue, hlength, hvalues⟩
          refine ⟨hlength, fun i output' h => ?_⟩
          cases i with
          | zero =>
            obtain rfl := Option.some.inj h
            exact hvalue.symm
          | succ i => exact hvalues i output' h
        · rintro ⟨hlength, hvalues⟩
          exact ⟨(hvalues 0 output rfl).symm, hlength, fun i output' h => hvalues (i + 1) output' h⟩

/-- What a list of outputs holds when its places hold `held`. -/
def valuesOf (outputs : List Output) (held : Held (Prototype.ofOutputs outputs).receptions) : List Value :=
  List.ofFn fun i : Fin outputs.length => (held i : Value)

theorem length_valuesOf (outputs : List Output) (held : Held (Prototype.ofOutputs outputs).receptions) :
    (valuesOf outputs held).length = outputs.length :=
  List.length_ofFn

theorem getElem?_valuesOf (outputs : List Output) (held : Held (Prototype.ofOutputs outputs).receptions)
    (i : Fin outputs.length) : (valuesOf outputs held)[i.val]? = some (held i : Value) := by
  have hi : i.val < (valuesOf outputs held).length := by rw [length_valuesOf]; exact i.isLt
  rw [List.getElem?_eq_getElem hi]
  exact congrArg some (List.getElem_ofFn hi)

theorem valuesOf_held (outputs : List Output) :
    valuesOf outputs (fun i => (outputs.get i).held) = outputs.map Output.held := by
  refine List.ext_getElem? fun i => ?_
  rw [List.getElem?_map]
  cases houtput : outputs[i]? with
  | some output =>
    obtain ⟨hi, rfl⟩ := List.getElem?_eq_some_iff.1 houtput
    exact getElem?_valuesOf _ _ ⟨i, hi⟩
  | none =>
    rw [List.getElem?_eq_none_iff] at houtput
    rw [Option.map_none, List.getElem?_eq_none_iff]
    exact (length_valuesOf _ _).trans_le houtput

/-- Arguments that convert are read into a list of outputs as they are read in place. -/
theorem readInto_of_converts {outputs : List Output} {arguments : List Value}
    (h : ∀ i, Converts (Prototype.ofOutputs outputs).receptions arguments i) :
    readInto outputs arguments = some (valuesOf outputs fun i =>
      (received? (Prototype.ofOutputs outputs).receptions arguments i).getD (outputs.get i).held) := by
  rw [readInto_eq_some_iff]
  refine ⟨length_valuesOf _ _, fun i output houtput => ?_⟩
  obtain ⟨hi, rfl⟩ := List.getElem?_eq_some_iff.1 houtput
  rw [getElem?_valuesOf _ _ ⟨i, hi⟩]
  cases hargument : arguments[i]? with
  | none =>
    have hreceived : received? (Prototype.ofOutputs outputs).receptions arguments ⟨i, hi⟩ = none := by
      rw [received?, hargument, Option.bind_none]
    exact congrArg (fun x : Option Value => some (x.getD outputs[i].held)) hreceived
  | some argument =>
    obtain ⟨converted, hconverted⟩ := h ⟨i, hi⟩ argument hargument
    have hreceived : received? (Prototype.ofOutputs outputs).receptions arguments ⟨i, hi⟩ =
        some converted := by
      rw [received?, hargument, Option.bind_some, hconverted]
    exact (congrArg (fun x : Option Value => some (x.getD outputs[i].held)) hreceived).trans
      hconverted.symm

theorem readInto_of_not_converts {outputs : List Output} {arguments : List Value}
    {i : Fin outputs.length} (h : ¬ Converts (Prototype.ofOutputs outputs).receptions arguments i) :
    readInto outputs arguments = none := by
  cases hread : readInto outputs arguments with
  | none => rfl
  | some values =>
    -- a read that succeeds has converted the argument of each place
    refine absurd ?_ h
    intro argument hargument
    obtain ⟨hlength, hvalues⟩ := readInto_eq_some_iff.1 hread
    have hi : i.val < values.length := by rw [hlength]; exact i.isLt
    have hvalue := hvalues i.val (outputs.get i) (List.getElem?_eq_getElem i.isLt)
    rw [List.getElem?_eq_getElem hi, hargument, Option.elim_some] at hvalue
    exact ⟨values[i.val], hvalue.symm⟩

namespace Invocation

/-- What the places hold after a read that succeeds, and that a read that fails leaves them. -/
theorem run_readInPlace (call : Invocation) (offset required : Nat) (p : Prototype)
    (held : Held p.receptions) :
    let rest := call.arguments.drop offset
    ((required ≤ rest.length ∧ ∀ i, Converts p.receptions rest i) ∧
      Id.run ((call.readInPlace offset required p).run held) =
        (true, fun i => (received? p.receptions rest i).getD (held i))) ∨
    (¬ (required ≤ rest.length ∧ ∀ i, Converts p.receptions rest i) ∧
      Id.run ((call.readInPlace offset required p).run held) = (false, held)) := by
  intro rest
  have hrun : call.readInPlace offset required p =
      if rest.length < required then return false else p.fill rest := rfl
  rw [hrun]
  by_cases hfew : rest.length < required
  -- with too few arguments no place is looked at
  · right
    rw [if_pos hfew]
    exact ⟨fun h => absurd h.1 (Nat.not_le.2 hfew), rfl⟩
  · rw [if_neg hfew]
    by_cases hconverts : ∀ i, Converts p.receptions rest i
    · exact Or.inl ⟨⟨Nat.not_lt.1 hfew, hconverts⟩, Prototype.fill_of_converts hconverts held⟩
    · right
      obtain ⟨i, hi⟩ := not_forall.1 hconverts
      exact ⟨fun h => hconverts h.2, Prototype.fill_of_not_converts hi held⟩

/-- Reading into a list of outputs is reading in place. -/
theorem outputsAfter_eq (call : Invocation) (offset required : Nat) (outputs : List Output) :
    let read := Id.run ((call.readInPlace offset required (.ofOutputs outputs)).run
      fun i => (outputs.get i).held)
    call.outputsAfter offset required outputs = (read.1, valuesOf outputs read.2) := by
  intro read
  let rest := call.arguments.drop offset
  have hread? : call.read? offset required outputs =
      if rest.length < required then none else readInto outputs rest := rfl
  unfold outputsAfter
  rw [hread?]
  rcases call.run_readInPlace offset required (.ofOutputs outputs) fun i => (outputs.get i).held with
    ⟨⟨henough, hconverts⟩, hrun⟩ | ⟨hnot, hrun⟩
  · have hread : read = _ := hrun
    rw [hread, if_neg (Nat.not_lt.2 henough), readInto_of_converts hconverts]
  · have hread : read = _ := hrun
    rw [hread]
    by_cases hfew : rest.length < required
    · rw [if_pos hfew]
      exact Prod.ext rfl (valuesOf_held outputs).symm
    · obtain ⟨i, hi⟩ := not_forall.1 fun h => hnot ⟨Nat.not_lt.1 hfew, h⟩
      rw [if_neg hfew, readInto_of_not_converts hi]
      exact Prod.ext rfl (valuesOf_held outputs).symm

/-- **Arguments are read all or none.** Whatever the places are and whatever they hold: a read succeeds
exactly when enough arguments remain and every argument that has a place converts; then every place with
an argument holds what it has been converted into, and every other one what it held; and a read that fails
leaves all places as they were. Reading into a list of outputs, as native functions do, is such a read. -/
theorem reads_all_or_nothing (call : Invocation) (offset required : Nat) :
    (∀ (p : Prototype) (held : Held p.receptions),
      let rest := call.arguments.drop offset
      let read := Id.run ((call.readInPlace offset required p).run held)
      (read.1 = true ↔ required ≤ rest.length ∧ ∀ (i : Fin p.size) argument,
        rest[i.val]? = some argument → ∃ x, (p.receptions i).read? argument = some x) ∧
      (read.1 = true → ∀ i : Fin p.size,
        (∀ argument, rest[i.val]? = some argument →
          (p.receptions i).read? argument = some (read.2 i)) ∧
        (rest[i.val]? = none → read.2 i = held i)) ∧
      (read.1 = false → read.2 = held)) ∧
    ∀ outputs : List Output,
      let read := Id.run ((call.readInPlace offset required (.ofOutputs outputs)).run
        fun i => (outputs.get i).held)
      call.outputsAfter offset required outputs = (read.1, valuesOf outputs read.2) := by
  refine ⟨fun p held => ?_, call.outputsAfter_eq offset required⟩
  intro rest read
  rcases call.run_readInPlace offset required p held with ⟨hreads, hrun⟩ | ⟨hnot, hrun⟩
  · have hread : read = _ := hrun
    rw [hread]
    refine ⟨iff_of_true rfl hreads, fun _ i => ⟨fun argument hargument => ?_, fun hnone => ?_⟩,
      fun hfalse => absurd hfalse.symm Bool.false_ne_true⟩
    · obtain ⟨x, hx⟩ := hreads.2 i argument hargument
      have hreceived : received? p.receptions rest i = some x := by
        rw [received?, hargument, Option.bind_some, hx]
      show _ = some ((received? p.receptions rest i).getD (held i))
      rw [hx, hreceived, Option.getD_some]
    · have hreceived : received? p.receptions rest i = none := by
        rw [received?, hnone, Option.bind_none]
      show (received? p.receptions rest i).getD (held i) = held i
      rw [hreceived, Option.getD_none]
  · have hread : read = _ := hrun
    rw [hread]
    exact ⟨iff_of_false Bool.false_ne_true hnot, fun htrue => absurd htrue Bool.false_ne_true,
      fun _ => rfl⟩

/-- The text converts, the second one is no number: neither place changes. -/
example : (ofArguments [.string "a", .string "b"]).outputsAfter 0 1
    [⟨.string, .string "x"⟩, ⟨.int, .int 7⟩] = (false, [.string "x", .int 7]) := rfl

end Invocation

end ScriptBridge
