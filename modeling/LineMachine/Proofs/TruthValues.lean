import LineMachine.Proofs.Changes
import LineMachine.Proofs.Lockstep

/-! Truth values are the words zero and one under another name. Taking them as words changes what is
printed and the details of reports, but nothing that a machine computes. -/
namespace LineMachine

/-- The value with truth taken as a word. -/
def Value.erased : Value → Value
  | .bool b => .int (if b then 1 else 0)
  | v => v

def Store.erased : Store → Store
  | .var name v => .var name v.erased
  | .cell a n => .cell a n

/-- The variables with truth taken as a word in all of them. -/
def erasedVars (vars : Std.ExtTreeMap Bytes Value) : Std.ExtTreeMap Bytes Value :=
  vars.map fun _ => Value.erased

/-- A fault without its detail. -/
def Fault.summary (f : Fault) : Int × Int × Bytes := (f.cause.code, f.pc, f.line)

/-- A record without the detail of a fault. -/
def Log.Record.undetailed (r : Log.Record) : Log.Record :=
  { r with attrs := r.attrs.filter fun a => a.1 ≠ text "detail" }

/-- Changes that differ in truth values that could be words, in what is printed and in the details of
what is reported. -/
structure Change.Matches (c d : Change) : Prop where
  takes : d.takes = c.takes
  pushes : d.pushes.map Value.erased = c.pushes.map Value.erased
  stores : d.stores.map Store.erased = c.stores.map Store.erased
  codes : d.causes.map Cause.code = c.causes.map Cause.code
  color : d.color? = c.color?
  input : d.input? = c.input?
  random : d.random? = c.random?

namespace Value

variable (v : Value)

@[simp] theorem erased_erased : v.erased.erased = v.erased := by cases v <;> rfl

@[simp] theorem number?_erased : v.erased.number? = v.number? := by cases v <;> rfl

@[simp] theorem word?_erased : v.erased.word? = v.word? := by
  unfold word?
  rw [number?_erased]

@[simp] theorem reading?_erased : v.erased.reading? = v.reading? := by cases v <;> rfl

@[simp] theorem cell_erased : v.erased.cell = v.cell := by
  unfold cell
  rw [reading?_erased]

@[simp] theorem isZero_erased : v.erased.isZero = v.isZero := by
  cases v with
  | bool b => cases b <;> rfl
  | _ => rfl

end Value

/-- Strings are told from other values before anything else is. -/
theorem Arith.result?_erased (op : Arith) (a b : Value) :
    op.result? a.erased b.erased = op.result? a b := by
  cases a <;> cases b <;> cases op <;> rfl

theorem Comparison.result?_erased (op : Comparison) (a b : Value) :
    op.result? a.erased b.erased = op.result? a b := by
  cases a <;> cases b <;> rfl

theorem Bitwise.result?_erased (op : Bitwise) (a b : Value) :
    op.result? a.erased b.erased = op.result? a b := by
  unfold result?
  rw [Value.word?_erased, Value.word?_erased]

namespace Store

theorem erasedVars_setVar (vars : Std.ExtTreeMap Bytes Value) (s : Store) :
    erasedVars (setVar vars s) = setVar (erasedVars vars) s.erased := by
  cases s with
  | cell a n => rfl
  | var x v =>
    apply Std.ExtTreeMap.ext_getElem?
    intro name
    simp only [erasedVars, setVar, erased, Std.ExtTreeMap.getElem?_map,
      Std.ExtTreeMap.getElem?_insert]
    split <;> rfl

theorem setCell_erased (memory : Memory) (s : Store) : setCell memory s.erased = setCell memory s := by
  cases s with
  | cell a n => rfl
  | var x v => simp [setCell, erased]

theorem erasedVars_foldl_setVar (stores : List Store) (vars : Std.ExtTreeMap Bytes Value) :
    erasedVars (stores.foldl setVar vars) =
      (stores.map erased).foldl setVar (erasedVars vars) := by
  induction stores generalizing vars with
  | nil => rfl
  | cons s stores ih => rw [List.foldl_cons, ih, erasedVars_setVar, List.map_cons, List.foldl_cons]

theorem foldl_setCell_erased (stores : List Store) (memory : Memory) :
    (stores.map erased).foldl setCell memory = stores.foldl setCell memory := by
  rw [List.foldl_map]
  simp only [setCell_erased]

end Store

namespace Change.Matches

variable {c d e : Change}

theorem refl (c : Change) : c.Matches c := ⟨rfl, rfl, rfl, rfl, rfl, rfl, rfl⟩

/-- Two changes that match a third one match each other. -/
theorem euclidean (hc : c.Matches e) (hd : d.Matches e) : c.Matches d where
  takes := hd.takes.symm.trans hc.takes
  pushes := hd.pushes.symm.trans hc.pushes
  stores := hd.stores.symm.trans hc.stores
  codes := hd.codes.symm.trans hc.codes
  color := hd.color.symm.trans hc.color
  input := hd.input.symm.trans hc.input
  random := hd.random.symm.trans hc.random

/-- Changes that only differ in what they print. -/
theorem of_printed (c : Change) (printed : List Bytes) (output : Bytes) :
    c.Matches { c with printed := printed, output := output } := ⟨rfl, rfl, rfl, rfl, rfl, rfl, rfl⟩

/-- Changes that only differ in what they push. -/
theorem of_pushes (c : Change) {vs : List Value}
    (h : vs.map Value.erased = c.pushes.map Value.erased) :
    c.Matches { c with pushes := vs } := ⟨rfl, h, rfl, rfl, rfl, rfl, rfl⟩

/-- The same result, or the same kind of fault. -/
theorem result (takes : Nat) {a b : Cause} (hcode : b.code = a.code) (v : Option Value) :
    (Change.result takes a v).Matches (Change.result takes b v) := by
  cases v with
  | none => exact ⟨rfl, rfl, rfl, by simp [Change.result, hcode], rfl, rfl, rfl⟩
  | some v => exact refl _

end Change.Matches

namespace Machine

/-- The machine with truth taken as a word on the stack and in the variables. -/
def erased (m : Machine) : Machine :=
  { m with
    stack := m.stack.map Value.erased
    vars := erasedVars m.vars }

/-- What a machine computes with, without what it has told so far. -/
def computation (m : Machine) : Machine :=
  { m.erased with
    printed := #[]
    output := #[]
    faults := #[]
    journal := #[] }

/-- Machines that differ in truth values that could be words, in what they printed and in the details
of what they reported. -/
structure SameButTruth (m m' : Machine) : Prop where
  computation : m'.computation = m.computation
  faults : m'.faults.map Fault.summary = m.faults.map Fault.summary
  journal : m'.journal.map Log.Record.undetailed = m.journal.map Log.Record.undetailed

variable {m m' : Machine} {i : Instruction}

theorem valueAt_computation (m : Machine) (n : Nat) :
    m.computation.valueAt n = (m.valueAt n).erased := by
  unfold valueAt
  rw [List.getD_eq_getElem?_getD, List.getD_eq_getElem?_getD]
  change ((m.stack.map Value.erased)[n]?).getD _ = _
  rw [List.getElem?_map]
  cases m.stack[n]? <;> rfl

theorem getVar_computation (m : Machine) (name : Bytes) :
    m.computation.getVar name = (m.getVar name).erased := by
  unfold getVar
  change ((erasedVars m.vars)[name]?).getD _ = _
  rw [erasedVars, Std.ExtTreeMap.getElem?_map]
  cases m.vars[name]? <;> rfl

theorem operandValue_computation (m : Machine) (o : Operand) :
    m.computation.operandValue o = (m.operandValue o).erased := by
  cases o with
  | ref name => exact getVar_computation m name
  | literal t n => rfl
  | word t => rfl

theorem intOperand_computation (m : Machine) (i : Instruction) (n : Nat) :
    m.computation.intOperand i n = m.intOperand i n := by
  unfold intOperand
  simp only [getVar_computation, Value.reading?_erased]

theorem limit_computation (m : Machine) (i : Instruction) : m.computation.limit i = m.limit i := by
  unfold limit
  rw [intOperand_computation]

theorem binaryChange_computation (m : Machine) (i : Instruction)
    {f : Value → Value → Option Value} (hf : ∀ a b, f a.erased b.erased = f a b) :
    (m.binaryChange i f).Matches (m.computation.binaryChange i f) := by
  simp only [binaryChange, valueAt_computation, hf]
  apply Change.Matches.result
  rfl

theorem flippedChange_computation (m : Machine) (i : Instruction)
    {f : Value → Value → Option Value} (hf : ∀ a b, f a.erased b.erased = f a b) :
    (m.flippedChange i f).Matches (m.computation.flippedChange i f) := by
  simp only [flippedChange, valueAt_computation, hf]
  apply Change.Matches.result
  rfl

/-- Truth values are characters, so the values that are reported are no truth values. -/
theorem stackTextChange_computation (m : Machine) :
    m.stackTextChange.Matches m.computation.stackTextChange := by
  have hstack : m.computation.stack.reverse = m.stack.reverse.map Value.erased := List.map_reverse.symm
  have hcause (v : Value) : (if v.erased.word?.isSome then none
      else some (Cause.notCharacter v.erased.kind)) =
      if v.word?.isSome then none else some (Cause.notCharacter v.kind) := by
    cases v <;> rfl
  have hcauses : m.computation.stackTextChange.causes = m.stackTextChange.causes := by
    simp only [stackTextChange, hstack, List.filterMap_map, Function.comp_def, hcause]
  exact ⟨rfl, rfl, rfl, by rw [hcauses], rfl, rfl, rfl⟩

/-- Every instruction makes the same change of a machine and of its computation. -/
theorem change_computation (m : Machine) (i : Instruction) :
    (m.change i).Matches (m.computation.change i) := by
  unfold change
  cases i.op with
  | print => exact .of_printed _ _ _
  | popPrint => exact .of_printed _ _ _
  | push =>
    simp only [pushChange]
    cases i.operand? 0 with
    | none => exact .refl _
    | some o => exact .of_pushes _ (by simp [operandValue_computation])
  | memSet =>
    simp only [memSetChange, intOperand_computation]
    exact .refl _
  | memGet =>
    simp only [memGetChange, intOperand_computation]
    exact .refl _
  | random =>
    simp only [randomChange, limit_computation]
    exact .refl _
  | dup => exact .of_pushes _ (by simp [valueAt_computation])
  | swap => exact .of_pushes _ (by simp [valueAt_computation])
  | reverse =>
    refine ⟨List.length_map _, ?_, rfl, rfl, rfl, rfl, rfl⟩
    simp [computation, erased]
  | stackText => exact stackTextChange_computation m
  | arith op => exact binaryChange_computation m i op.result?_erased
  | compare op => exact binaryChange_computation m i op.result?_erased
  | bitwise op =>
    cases op with
    | xor => exact flippedChange_computation m i (Bitwise.result?_erased .xor)
    | and => exact binaryChange_computation m i (Bitwise.result?_erased .and)
    | or => exact binaryChange_computation m i (Bitwise.result?_erased .or)
  | complement =>
    simp only [valueAt_computation, Value.word?_erased]
    apply Change.Matches.result
    rfl
  | _ => exact .refl _

theorem next_computation (m : Machine) (i : Instruction) : m.computation.next i = m.next i := by
  have hpop : m.computation.pop.1.isZero = m.pop.1.isZero := by
    rw [pop_eq, pop_eq, valueAt_computation, Value.isZero_erased]
  unfold next jump?
  simp only [hpop]
  rfl

/-- The computation goes on from itself and from the change with truth taken as a word. -/
theorem computation_execute (m : Machine) (i : Instruction) : (m.execute i).computation =
    { m.computation with
      stack := (m.change i).pushes.map Value.erased ++ m.computation.stack.drop (m.change i).takes
      vars := ((m.change i).stores.map Store.erased).foldl Store.setVar m.computation.vars
      memory := ((m.change i).stores.map Store.erased).foldl Store.setCell m.computation.memory
      color := (m.change i).color?.getD m.computation.color
      input := (m.change i).input?.getD m.computation.input
      random := (m.change i).random?.getD m.computation.random
      running := (m.computation.control i).running
      loops := (m.computation.control i).loops
      calls := (m.computation.control i).calls
      pc := m.computation.next i
      steps := m.computation.steps + 1 } := by
  have hstack : ((m.change i).pushes ++ m.stack.drop (m.change i).takes).map Value.erased =
      (m.change i).pushes.map Value.erased ++ m.computation.stack.drop (m.change i).takes := by
    rw [List.map_append, List.map_drop]
    rfl
  have hvars := Store.erasedVars_foldl_setVar (m.change i).stores m.vars
  have hmemory := Store.foldl_setCell_erased (m.change i).stores m.memory
  rw [next_computation, execute_change]
  unfold computation erased
  simp only [hstack, hvars, ← hmemory]
  unfold control
  cases i.op <;> rfl

/-- What is seen of the computations is the same. -/
theorem SameButTruth.view_eq {α : Type} (h : SameButTruth m m') (view : Machine → α) :
    view m'.computation = view m.computation := by
  rw [h.computation]

theorem SameButTruth.change (h : SameButTruth m m') (i : Instruction) :
    (m.change i).Matches (m'.change i) := by
  have hchange := change_computation m' i
  rw [h.computation] at hchange
  exact (change_computation m i).euclidean hchange

/-- Of a fault, the place is up to the computation, and the rest of its summary to its code. -/
theorem SameButTruth.reports (h : SameButTruth m m') {cs ds : List Cause}
    (hcodes : ds.map Cause.code = cs.map Cause.code) :
    (ds.map m'.faultAt).map Fault.summary = (cs.map m.faultAt).map Fault.summary ∧
      (ds.map fun c => faultRecord (m'.faultAt c)).map Log.Record.undetailed =
        (cs.map fun c => faultRecord (m.faultAt c)).map Log.Record.undetailed := by
  let line (m : Machine) : Bytes := (m.computation.current?.map Instruction.text).getD []
  have hsummary (m : Machine) (cs : List Cause) : (cs.map m.faultAt).map Fault.summary =
      (cs.map Cause.code).map fun code => (code, m.computation.pc, line m) := by
    rw [List.map_map, List.map_map]
    rfl
  have hrecord (m : Machine) (cs : List Cause) :
      (cs.map fun c => faultRecord (m.faultAt c)).map Log.Record.undetailed =
        (cs.map Cause.code).map fun code => ⟨Log.Level.warn, Fault.codeMessage code,
          [(text "pc", .int m.computation.pc), (text "line", .str (line m))]⟩ := by
    rw [List.map_map, List.map_map]
    rfl
  rw [hsummary m', hsummary m, hrecord m', hrecord m, hcodes]
  simp only [line, h.computation, and_self]

/-- A trace says where the machine is and how high its stack is. -/
theorem SameButTruth.trace (h : SameButTruth m m') (i : Instruction) :
    (m'.trace i).journal.map Log.Record.undetailed = (m.trace i).journal.map Log.Record.undetailed := by
  have hdebug : m'.debug = m.debug := h.view_eq Machine.debug
  have hpc : m'.pc = m.pc := h.view_eq Machine.pc
  have hdepth : m'.stack.length = m.stack.length := by
    have hlength := h.view_eq (·.stack.length)
    simpa [Machine.computation, erased] using hlength
  unfold Machine.trace
  rw [hdebug, hpc, hdepth]
  split
  · rw [log, log, Array.map_push, Array.map_push, h.journal]
  · exact h.journal

theorem sameButTruth_execute (h : SameButTruth m m') (i : Instruction) :
    SameButTruth (m.execute i) (m'.execute i) := by
  have hchange := h.change i
  have hreports := h.reports hchange.codes
  refine ⟨?_, ?_, ?_⟩
  · rw [computation_execute, computation_execute, h.computation, hchange.takes, hchange.pushes,
      hchange.stores, hchange.color, hchange.input, hchange.random]
  · rw [execute_change m, execute_change m']
    exact map_append_congr h.faults hreports.1
  · rw [execute_change m, execute_change m']
    exact map_append_congr (h.trace i) hreports.2

theorem lockstep_sameButTruth : Lockstep SameButTruth where
  gas m m' h := h.view_eq Machine.gas
  maxGas m m' h := h.view_eq Machine.maxGas
  steps m m' h := h.view_eq Machine.steps
  stopped m m' h := by
    have hpending : m'.pending? = m.pending? := h.view_eq Machine.pending?
    rw [hpending]
  execute m m' i i' h hi hi' := by
    have hpending : m'.pending? = m.pending? := h.view_eq Machine.pending?
    rw [hpending, hi] at hi'
    cases hi'
    exact sameButTruth_execute h i
  pay m m' a h := ⟨h.view_eq fun m => { m with gas := a }, h.faults, h.journal⟩
  stop m m' c h := by
    have hreports := h.reports (rfl : [c].map Cause.code = [c].map Cause.code)
    refine ⟨h.view_eq fun m => { m with running := false }, ?_, ?_⟩
    · exact map_append_congr h.faults hreports.1
    · exact map_append_congr h.journal hreports.2

theorem sameButTruth_erased (m : Machine) : SameButTruth m m.erased := by
  have hstack : (m.stack.map Value.erased).map Value.erased = m.stack.map Value.erased := by simp
  have hvars : erasedVars (erasedVars m.vars) = erasedVars m.vars := by
    apply Std.ExtTreeMap.ext_getElem?
    intro name
    simp [erasedVars, Std.ExtTreeMap.getElem?_map]
  refine ⟨?_, rfl, rfl⟩
  unfold computation erased
  simp only [hstack, hvars]

/-- A step, and a run of any length, of a machine and of the same machine with truth taken as a word
lead to machines that again differ in nothing but that, what they printed and details of reports. -/
theorem truth_values_are_words (m : Machine) :
    Option.Rel SameButTruth m.step? m.erased.step? ∧
      ∀ n, (m.erased.runFor n).1 = (m.runFor n).1 ∧
        SameButTruth (m.runFor n).2 (m.erased.runFor n).2 := by
  have hstart := sameButTruth_erased m
  refine ⟨?_, fun n => lockstep_sameButTruth.runFor hstart n⟩
  have hcurrent : m.erased.current? = m.current? := rfl
  unfold step?
  rw [hcurrent]
  cases m.current? with
  | none => exact .none
  | some i => exact .some (sameButTruth_execute hstart i)

-- Printed text is where the two can be told apart.
example : (Value.bool true).print ≠ (Value.bool true).erased.print := by decide

end Machine
end LineMachine
