import LineMachine.Proofs.Frame

/-! What an instruction does to the data, said once for all instructions and as data itself: what it
takes from the stack and pushes, what it stores, reports and writes. Executing an instruction is
applying its change. -/
namespace LineMachine

theorem zero_lt_memorySize : 0 < memorySize := by decide

theorem one_lt_memorySize : 1 < memorySize := by decide

/-- A write to a variable, which its cell mirrors, or to a cell alone. -/
inductive Store where
  | var (name : Bytes) (v : Value)
  | cell (a : Address) (n : Int64)

namespace Store

def setVar (vars : Std.ExtTreeMap Bytes Value) : Store → Std.ExtTreeMap Bytes Value
  | var name v => vars.insert name v
  | cell _ _ => vars

def setCell (memory : Memory) : Store → Memory
  | var name v => memory.write (Address.ofName name) v.cell
  | cell a n => memory.write a n

end Store

structure Change where
  /-- The number of values that are popped. -/
  takes : Nat := 0
  /-- The values that are pushed then, the topmost first. -/
  pushes : List Value := []
  stores : List Store := []
  causes : List Cause := []
  color? : Option Color := none
  printed : List Bytes := []
  output : Bytes := []
  /-- The rest of the input, if some of it was read. -/
  input? : Option Input := none
  /-- The random source, if it was drawn from. -/
  random? : Option Random := none

namespace Change

/-- A result is pushed; without one zero is, and the cause is reported. -/
def result (takes : Nat) (cause : Cause) : Option Value → Change
  | some v => { takes := takes, pushes := [v] }
  | none => { takes := takes, pushes := [.int 0], causes := [cause] }

/-- A random byte for each of some cells, and the random source afterwards. -/
def randomCells : List Address → Random → List Store × Random
  | [], r => ([], r)
  | a :: rest, r =>
    let drawn := r.below 256
    let others := randomCells rest drawn.2
    (.cell a (Int64.ofNat drawn.1) :: others.1, others.2)

/-- The change takes nothing from the input and nothing from the random source. -/
structure KeepsSources (c : Change) : Prop where
  input : c.input? = none
  random : c.random? = none

theorem keepsSources_result (takes : Nat) (cause : Cause) (v : Option Value) :
    (result takes cause v).KeepsSources := by
  cases v <;> exact ⟨rfl, rfl⟩

end Change

/-- The next instruction is on the next line: no branch, no bracket and no halt. -/
def Opcode.isStraight : Opcode → Bool
  | halt | branchZero | branchNonzero | loopOpen | loopClose | callOpen | callClose => false
  | _ => true

/-- The instruction takes nothing from outside: no input and no random numbers. -/
def Opcode.isSelfContained : Opcode → Bool
  | input | random | randomCells => false
  | _ => true

namespace Machine

/-- What a line of input puts on the stack, the topmost value first. -/
def inputPushes (line : Bytes) : List Value :=
  match inputNumber? line with
  | some n => [.int n]
  | none => .int 10 :: ((Utf8.decode line).map fun p => .int (Int64.ofNat p.codePoint)).reverse

/-- What a line of input is stored as. -/
def inputValue (line : Bytes) : Value :=
  match inputNumber? line with
  | some n => .int n
  | none => .str line

/-- The value at a depth of the stack, as popping would find it. -/
def valueAt (m : Machine) (n : Nat) : Value := m.stack.getD n (.int 0)

section Definitions

variable (m : Machine) (i : Instruction)

def printChange : Change :=
  let s := m.render i.template
  { printed := [s], output := m.color.escape ++ s ++ Color.reset.escape ++ [Bytes.newline] }

def pushChange : Change :=
  match i.operand? 0 with
  | some o => { pushes := [m.operandValue o] }
  | none => { output := [Bytes.newline] }

def memSetChange : Change :=
  match m.intOperand i 0, m.intOperand i 1 with
  | .ok address, .ok n =>
    match Address.ofInt? address.toInt with
    | some a => { stores := [.cell a n] }
    | none => { causes := [.outOfMemory address] }
  | address, n => { causes := (problem address).toList ++ (problem n).toList }

def memGetChange : Change :=
  match m.intOperand i 0 with
  | .ok address =>
    .result 0 (.outOfMemory address)
      ((Address.ofInt? address.toInt).map fun a => .int (m.memory.read a))
  | .error c => .result 0 c none

def randomChange : Change :=
  match m.limit i with
  | .error c => .result 0 c none
  | .ok n =>
    let drawn := m.random.below n.toInt.toNat
    { pushes := [.int (Int64.ofNat drawn.1)], random? := some drawn.2 }

def randomCellsChange : Change :=
  let drawn := Change.randomCells firstCells m.random
  { stores := drawn.1, random? := some drawn.2 }

def stackTextChange : Change :=
  let values := m.stack.reverse
  { causes := values.filterMap fun v =>
      if v.word?.isSome then none else some (.notCharacter v.kind)
    output := (values.filterMap Value.word?).flatMap character ++ [Bytes.newline] }

/-- The topmost value is on the right. -/
def binaryChange (f : Value → Value → Option Value) : Change :=
  let a := m.valueAt 1
  let b := m.valueAt 0
  .result 2 (.mismatch a.kind i.mnemonic b.kind) (f a b)

/-- The topmost value is on the left. -/
def flippedChange (f : Value → Value → Option Value) : Change :=
  let a := m.valueAt 0
  let b := m.valueAt 1
  .result 2 (.mismatch a.kind i.mnemonic b.kind) (f a b)

/-- The name under which a line of input is stored. -/
def inputName : Bytes := ((i.operand? 0).map Operand.token).getD (text "in")

/-- The line that would be read next, without its end. -/
def inputLine : Bytes :=
  Bytes.trimEndWhile (fun b => b = 13 || b = 10) m.input.readLine.line

def inputChange : Change :=
  { pushes := inputPushes m.inputLine
    stores := [.var (inputName i) (inputValue m.inputLine)]
    causes := (m.input.readLine.problem.map inputCause).toList
    output := m.prompt
    input? := some m.input.readLine.rest }

def declareChange (k : Kind) : Change :=
  match i.operand? 0 with
  | none => { causes := [.missingName i.mnemonic] }
  | some name =>
    { stores := [.var name.token (declared i k).1], causes := (declared i k).2.toList }

/-- The change that an instruction makes to the data of a machine. -/
def change : Change :=
  match i.op with
  | .unknown => { causes := [.unknownSymbol i.mnemonic] }
  | .label | .halt | .loopOpen | .loopClose | .callOpen | .callClose => {}
  | .print => m.printChange i
  | .color => { color? := (i.operand? 0).map fun o => Color.named o.token }
  | .push => m.pushChange i
  | .popPrint => { takes := 1, output := (m.valueAt 0).print ++ [Bytes.newline] }
  | .memSet => m.memSetChange i
  | .memGet => m.memGetChange i
  | .random => m.randomChange i
  | .dup => { takes := 1, pushes := [m.valueAt 0, m.valueAt 0] }
  | .swap => { takes := 2, pushes := [m.valueAt 1, m.valueAt 0] }
  | .reverse => { takes := m.stack.length, pushes := m.stack.reverse }
  | .randomCells => m.randomCellsChange
  | .sumFirst =>
    { pushes :=
        [.int (m.memory.read ⟨0, zero_lt_memorySize⟩ + m.memory.read ⟨1, one_lt_memorySize⟩)] }
  | .stackText => m.stackTextChange
  | .arith op => m.binaryChange i op.result?
  | .compare op => m.binaryChange i op.result?
  | .bitwise .xor => m.flippedChange i Bitwise.xor.result?
  | .bitwise op => m.binaryChange i op.result?
  | .complement =>
    .result 1 (.notWord i.mnemonic (m.valueAt 0).kind)
      ((m.valueAt 0).word?.map fun n => .int (~~~n))
  | .branchZero | .branchNonzero => { takes := 1 }
  | .input => m.inputChange i
  | .declare k => declareChange i k

def apply (c : Change) : Machine :=
  { m.reportAll c.causes with
    stack := c.pushes ++ m.stack.drop c.takes
    vars := c.stores.foldl Store.setVar m.vars
    memory := c.stores.foldl Store.setCell m.memory
    color := c.color?.getD m.color
    printed := m.printed ++ c.printed
    output := m.output ++ c.output
    input := c.input?.getD m.input
    random := c.random?.getD m.random }

end Definitions

theorem pop_eq (m : Machine) : m.pop = (m.valueAt 0, { m with stack := m.stack.drop 1 }) := by
  obtain ⟨_, stack⟩ := m
  cases stack <;> rfl

/-- What is below the topmost value is one deeper before it is popped. -/
theorem valueAt_drop (m : Machine) (n : Nat) :
    valueAt { m with stack := m.stack.drop 1 } n = m.valueAt (n + 1) := by
  obtain ⟨_, stack⟩ := m
  cases stack <;> rfl

theorem pushResult_eq (m : Machine) (takes : Nat) (c : Cause) (v : Option Value) :
    { m with stack := m.stack.drop takes }.pushResult c v = m.apply (.result takes c v) := by
  cases v <;> rfl

theorem binary_eq (m : Machine) (i : Instruction) (f : Value → Value → Option Value) :
    m.binary i f = m.apply (m.binaryChange i f) := by
  simp only [binary, pop_eq, valueAt_drop, List.drop_drop]
  exact pushResult_eq m 2 _ _

theorem flipped_eq (m : Machine) (i : Instruction) (f : Value → Value → Option Value) :
    m.flipped i f = m.apply (m.flippedChange i f) := by
  simp only [flipped, pop_eq, valueAt_drop, List.drop_drop]
  exact pushResult_eq m 2 _ _

theorem memSet_eq (m : Machine) (i : Instruction) : m.memSet i = m.apply (m.memSetChange i) := by
  unfold memSet memSetChange
  rcases m.intOperand i 0 with c | address <;> rcases m.intOperand i 1 with d | n
  · rfl
  · rfl
  · rfl
  · change m.memWrite address n = m.apply (match Address.ofInt? address.toInt with
      | some a => { stores := [.cell a n] }
      | none => { causes := [.outOfMemory address] })
    unfold memWrite
    cases Address.ofInt? address.toInt <;> rfl

theorem memGet_eq (m : Machine) (i : Instruction) : m.memGet i = m.apply (m.memGetChange i) := by
  unfold memGet memGetChange
  rcases m.intOperand i 0 with c | address
  · rfl
  · simp only [memRead]
    cases Address.ofInt? address.toInt <;> rfl

theorem pushRandom_eq (m : Machine) (i : Instruction) :
    m.pushRandom i = m.apply (m.randomChange i) := by
  unfold pushRandom randomChange
  cases m.limit i <;> rfl

theorem foldl_randomCell (as : List Address) (m : Machine) : as.foldl randomCell m =
    { m with
      random := (Change.randomCells as m.random).2
      memory := (Change.randomCells as m.random).1.foldl Store.setCell m.memory } := by
  induction as generalizing m with
  | nil => rfl
  | cons a as ih =>
    rw [List.foldl_cons, ih]
    rfl

/-- Random bytes only go to cells, not to variables. -/
theorem foldl_setVar_randomCells (as : List Address) (r : Random)
    (vars : Std.ExtTreeMap Bytes Value) :
    (Change.randomCells as r).1.foldl Store.setVar vars = vars := by
  induction as generalizing r with
  | nil => rfl
  | cons a as ih => exact ih _

theorem randomCells_eq (m : Machine) :
    firstCells.foldl randomCell m = m.apply m.randomCellsChange := by
  have hvars := foldl_setVar_randomCells firstCells m.random m.vars
  rw [foldl_randomCell]
  unfold randomCellsChange apply
  simp only [hvars]
  rfl

theorem foldl_push (vs : List Value) (m : Machine) :
    vs.foldl push m = { m with stack := vs.reverse ++ m.stack } := by
  induction vs generalizing m with
  | nil => rfl
  | cons v vs ih =>
    rw [List.foldl_cons, ih]
    simp [push]

theorem foldl_notCharacter (vs : List Value) (m : Machine) :
    vs.foldl (fun m v =>
      match v.word? with
      | some _ => m
      | none => m.fault (.notCharacter v.kind)) m =
    m.reportAll (vs.filterMap fun v =>
      if v.word?.isSome then none else some (.notCharacter v.kind)) := by
  induction vs generalizing m with
  | nil => rfl
  | cons v vs ih =>
    rw [List.foldl_cons, ih, List.filterMap_cons]
    cases v.word? <;> rfl

theorem printStack_eq (m : Machine) : m.printStack = m.apply m.stackTextChange := by
  have hfaults := foldl_notCharacter m.stack.reverse m
  calc m.printStack = (m.reportAll m.stackTextChange.causes).writeLine
        ((m.stack.reverse.filterMap Value.word?).flatMap character) :=
      congrArg (writeLine · _) hfaults
    _ = m.apply m.stackTextChange := by
      unfold apply
      rw [reportAll_eq]
      rfl

theorem store_eq (m : Machine) (name line : Bytes) :
    (match inputNumber? line with
    | some n => (m.push (.int n)).setVar name (.int n)
    | none => ((((Utf8.decode line).map fun p => Value.int (Int64.ofNat p.codePoint)).foldl push
        m).push (.int 10)).setVar name (.str line)) =
    m.apply { pushes := inputPushes line, stores := [.var name (inputValue line)] } := by
  unfold inputPushes inputValue
  rw [foldl_push]
  cases inputNumber? line <;> rfl

theorem readInput_eq (m : Machine) (i : Instruction) :
    m.readInput i = m.apply (m.inputChange i) := by
  have hstore := store_eq ({ m.write m.prompt with input := m.input.readLine.rest }.report
    (m.input.readLine.problem.map inputCause)) (inputName i) m.inputLine
  refine Eq.trans hstore ?_
  unfold inputChange
  cases m.input.readLine.problem <;> rfl

theorem declare_eq (m : Machine) (i : Instruction) (k : Kind) :
    m.declare i k = m.apply (declareChange i k) := by
  unfold declare declareChange
  cases i.operand? 0 with
  | none => rfl
  | some name => cases h : (declared i k).2 <;> simp only [h] <;> rfl

theorem effect_eq_apply (m : Machine) (i : Instruction) :
    m.effect i = (m.control i).apply (m.change i) := by
  unfold effect control change
  cases i.op with
  | unknown | label | halt | loopOpen | loopClose | callOpen | callClose | print | sumFirst => rfl
  | color => cases i.operand? 0 <;> rfl
  | push =>
    change (match i.operand? 0 with
      | some o => m.push (m.operandValue o)
      | none => m.writeLine []) = m.apply (m.pushChange i)
    unfold pushChange
    cases i.operand? 0 <;> rfl
  | popPrint | dup | branchZero | branchNonzero =>
    simp only [pop_eq]
    rfl
  | swap =>
    simp only [pop_eq, valueAt_drop, List.drop_drop]
    rfl
  | memSet => exact memSet_eq m i
  | memGet => exact memGet_eq m i
  | random => exact pushRandom_eq m i
  | reverse =>
    simp only [apply, List.drop_length, List.append_nil]
    rfl
  | randomCells => exact randomCells_eq m
  | stackText => exact printStack_eq m
  | arith op => exact binary_eq m i _
  | compare op => exact binary_eq m i _
  | bitwise op =>
    cases op with
    | xor => exact flipped_eq m i _
    | and | or => exact binary_eq m i _
  | complement =>
    simp only [pop_eq]
    exact pushResult_eq m 1 _ _
  | input => exact readInput_eq m i
  | declare k => exact declare_eq m i k

/-- Everything that a step does: the change of the data with the faults it reports, the control part
of the instruction, and the records made of all that. -/
theorem execute_change (m : Machine) (i : Instruction) : m.execute i =
    { m with
      stack := (m.change i).pushes ++ m.stack.drop (m.change i).takes
      vars := (m.change i).stores.foldl Store.setVar m.vars
      memory := (m.change i).stores.foldl Store.setCell m.memory
      color := (m.change i).color?.getD m.color
      printed := m.printed ++ (m.change i).printed
      output := m.output ++ (m.change i).output
      input := (m.change i).input?.getD m.input
      random := (m.change i).random?.getD m.random
      faults := m.faults ++ (m.change i).causes.map m.faultAt
      journal := (m.trace i).journal ++ (m.change i).causes.map fun c => faultRecord (m.faultAt c)
      running := (m.control i).running
      loops := (m.control i).loops
      calls := (m.control i).calls
      pc := m.next i
      steps := m.steps + 1 } := by
  obtain ⟨records, htrace⟩ := trace_eq m i
  have hchange : (m.trace i).change i = m.change i := by
    rw [htrace]
    rfl
  unfold execute
  rw [effect_eq_apply, hchange, htrace]
  unfold apply control
  rw [reportAll_eq]
  cases i.op <;> rfl

theorem keepsSources_change {m : Machine} {i : Instruction} (h : i.op.isSelfContained = true) :
    (m.change i).KeepsSources := by
  unfold change
  cases hop : i.op with
  | random | randomCells | input =>
    rw [hop] at h
    cases h
  | memSet =>
    simp only [memSetChange]
    rcases m.intOperand i 0 with c | address <;> rcases m.intOperand i 1 with d | n
    · exact ⟨rfl, rfl⟩
    · exact ⟨rfl, rfl⟩
    · exact ⟨rfl, rfl⟩
    · simp only
      cases Address.ofInt? address.toInt <;> exact ⟨rfl, rfl⟩
  | declare k =>
    simp only [declareChange]
    cases i.operand? 0 <;> exact ⟨rfl, rfl⟩
  | push =>
    simp only [pushChange]
    cases i.operand? 0 <;> exact ⟨rfl, rfl⟩
  | memGet =>
    simp only [memGetChange]
    cases m.intOperand i 0 <;> exact Change.keepsSources_result _ _ _
  | arith op => exact Change.keepsSources_result _ _ _
  | compare op => exact Change.keepsSources_result _ _ _
  | bitwise op => cases op <;> exact Change.keepsSources_result _ _ _
  | complement => exact Change.keepsSources_result _ _ _
  | _ => exact ⟨rfl, rfl⟩

section Straight

variable {i : Instruction} (h : i.op.isStraight = true)
include h

theorem control_straight (m : Machine) : m.control i = m := by
  unfold control
  cases hop : i.op <;> simp [hop, Opcode.isStraight] at h ⊢

theorem next_straight (m : Machine) : m.next i = m.pc + 1 := by
  unfold next jump?
  cases hop : i.op <;> simp [hop, Opcode.isStraight] at h ⊢

/-- Straight instructions apply their change and go on; apart from that there are the records. -/
theorem execute_straight (m : Machine) : m.execute i =
    { m.apply (m.change i) with
      pc := m.pc + 1
      steps := m.steps + 1
      journal := (m.execute i).journal } := by
  rw [execute_change, control_straight h, next_straight h, apply, reportAll_eq]

end Straight

/-- Reports are appended, and what is left out of them is left out of each. -/
theorem map_append_congr {α β : Type} {f : α → β} {a a' : Array α} {l l' : List α}
    (ha : a'.map f = a.map f) (hl : l'.map f = l.map f) :
    (a' ++ l').map f = (a ++ l).map f := by
  have hsplit : ∀ (a : Array α) (l : List α), (a ++ l).map f = a.map f ++ l.map f := by
    intro a l
    apply Array.toList_inj.mp
    simp
  rw [hsplit, hsplit, ha, hl]

end Machine
end LineMachine
