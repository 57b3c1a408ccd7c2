import LineMachine.Machine.Run

/-! What an instruction can touch. The state falls into data, which instructions compute with, and
a frame around it: the program, the place in it and the records. Effects on data do not depend on
the frame, and the frame changes in few ways. -/
namespace LineMachine.Machine

/-- The frame of `f` around the data of `d`. -/
def withData (f d : Machine) : Machine :=
  { f with
    stack := d.stack
    memory := d.memory
    vars := d.vars
    color := d.color
    printed := d.printed
    output := d.output
    input := d.input
    prompt := d.prompt
    random := d.random }

/-- The fault that a cause gives at the current line. -/
def faultAt (m : Machine) (c : Cause) : Fault :=
  ⟨c, m.pc, (m.current?.map Instruction.text).getD []⟩

def reportAll (m : Machine) (cs : List Cause) : Machine := cs.foldl fault m

/-- What an instruction does to the frame, apart from reports and the program counter. -/
def control (m : Machine) (i : Instruction) : Machine :=
  match i.op with
  | .halt => { m with running := false }
  | .loopOpen => { m with loops := m.pc.toNat :: m.loops }
  | .callOpen => { m with calls := m.pc.toNat :: m.calls }
  | .callClose => { m with calls := m.calls.tail }
  | _ => m

variable {m f : Machine} {i : Instruction}

theorem withData_self (m : Machine) : m.withData m = m := rfl

theorem reportAll_append (m : Machine) (cs ds : List Cause) :
    m.reportAll (cs ++ ds) = (m.reportAll cs).reportAll ds := List.foldl_append

/-- Reports only append: the place they name does not move while they are made. -/
theorem reportAll_eq (m : Machine) (cs : List Cause) :
    m.reportAll cs = { m with
      faults := m.faults ++ cs.map m.faultAt
      journal := m.journal ++ cs.map fun c => faultRecord (m.faultAt c) } := by
  induction cs generalizing m with
  | nil => simp [reportAll]
  | cons c cs ih =>
    have hc : m.reportAll (c :: cs) = (m.fault c).reportAll cs := rfl
    have hat : (m.fault c).faultAt = m.faultAt := rfl
    rw [hc, ih, hat]
    simp [fault, faultAt]

/-- A change of the data that does not look at the frame, and reports the same causes in all. -/
def Local (g : Machine → Machine) (m : Machine) : Prop :=
  ∃ cs, ∀ f : Machine, g (f.withData m) = (f.reportAll cs).withData (g m)

theorem Local.comp {g h : Machine → Machine} (hg : Local g m) (hh : Local h (g m)) :
    Local (fun m => h (g m)) m := by
  obtain ⟨cs, hg⟩ := hg
  obtain ⟨ds, hh⟩ := hh
  refine ⟨cs ++ ds, fun f => ?_⟩
  calc h (g (f.withData m)) = h ((f.reportAll cs).withData (g m)) := by rw [hg]
    _ = ((f.reportAll cs).reportAll ds).withData (h (g m)) := hh _
    _ = (f.reportAll (cs ++ ds)).withData (h (g m)) := by rw [reportAll_append]

/-- Only the values on machines with the data of `m` matter. -/
theorem Local.congr {g h : Machine → Machine} (hg : Local g m)
    (heq : ∀ f : Machine, h (f.withData m) = g (f.withData m)) : Local h m := by
  obtain ⟨cs, hg⟩ := hg
  have hm : h m = g m := heq m
  refine ⟨cs, fun f => ?_⟩
  rw [heq, hg, hm]

theorem local_id (m : Machine) : Local (fun m => m) m := ⟨[], fun _ => rfl⟩

theorem local_push (v : Value) (m : Machine) : Local (·.push v) m := ⟨[], fun _ => rfl⟩

theorem local_fault (c : Cause) (m : Machine) : Local (·.fault c) m := ⟨[c], fun _ => rfl⟩

theorem local_writeLine (s : Bytes) (m : Machine) : Local (·.writeLine s) m := ⟨[], fun _ => rfl⟩

theorem local_setVar (name : Bytes) (v : Value) (m : Machine) : Local (·.setVar name v) m :=
  ⟨[], fun _ => rfl⟩

theorem local_report (c : Option Cause) (m : Machine) : Local (·.report c) m := by
  cases c with
  | none => exact local_id m
  | some c => exact local_fault c m

theorem local_foldl {α : Type} {g : Machine → α → Machine} (h : ∀ x m, Local (g · x) m)
    (xs : List α) (m : Machine) : Local (fun m => xs.foldl g m) m := by
  induction xs generalizing m with
  | nil => exact local_id m
  | cons x xs ih => exact (h x m).comp (ih (g m x))

theorem pop_withData (f m : Machine) : (f.withData m).pop = (m.pop.1, f.withData m.pop.2) := by
  obtain ⟨_, stack⟩ := m
  cases stack <;> rfl

theorem pop_fst (m : Machine) : m.pop.1 = m.stack.headD (.int 0) := by
  unfold pop
  cases m.stack <;> rfl

/-- What is done with the topmost value and the machine below it. -/
theorem local_pop {g : Value → Machine → Machine} (h : ∀ v m, Local (g v) m) (m : Machine) :
    Local (fun m => g m.pop.1 m.pop.2) m := by
  obtain ⟨cs, hg⟩ := h m.pop.1 m.pop.2
  refine ⟨cs, fun f => ?_⟩
  simp only [pop_withData]
  exact hg f

theorem local_pushResult (c : Cause) (v : Option Value) (m : Machine) :
    Local (·.pushResult c v) m := by
  cases v with
  | none => exact (local_fault c m).comp (local_push _ _)
  | some v => exact local_push v m

theorem local_binary (i : Instruction) (g : Value → Value → Option Value) (m : Machine) :
    Local (·.binary i g) m :=
  local_pop (fun b m => local_pop (fun a m =>
    local_pushResult (.mismatch a.kind i.mnemonic b.kind) (g a b) m) m) m

theorem local_flipped (i : Instruction) (g : Value → Value → Option Value) (m : Machine) :
    Local (·.flipped i g) m :=
  local_pop (fun a m => local_pop (fun b m =>
    local_pushResult (.mismatch a.kind i.mnemonic b.kind) (g a b) m) m) m

theorem local_memWrite (a n : Int64) (m : Machine) : Local (·.memWrite a n) m := by
  unfold memWrite
  cases Address.ofInt? a.toInt with
  | none => exact local_fault _ m
  | some a => exact ⟨[], fun _ => rfl⟩

theorem local_memRead {g : Int64 → Machine → Machine} (h : ∀ n m, Local (g n) m) (a : Int64)
    (m : Machine) : Local (fun m => g (m.memRead a).1 (m.memRead a).2) m := by
  unfold memRead
  cases Address.ofInt? a.toInt with
  | none => exact (local_fault _ m).comp (h 0 _)
  | some a => exact h (m.memory.read a) m

theorem local_memSet (i : Instruction) (m : Machine) : Local (·.memSet i) m := by
  have hop (n : Nat) (f : Machine) : (f.withData m).intOperand i n = m.intOperand i n := rfl
  simp only [Local, memSet, hop]
  rcases m.intOperand i 0 with c | a <;> rcases m.intOperand i 1 with d | n
  · exact (local_report (some c) m).comp (local_report (some d) _)
  · exact (local_report (some c) m).comp (local_report none _)
  · exact (local_report none m).comp (local_report (some d) _)
  · exact local_memWrite a n m

theorem local_memGet (i : Instruction) (m : Machine) : Local (·.memGet i) m := by
  have hop (f : Machine) : (f.withData m).intOperand i 0 = m.intOperand i 0 := rfl
  simp only [Local, memGet, hop]
  rcases m.intOperand i 0 with c | a
  · exact (local_fault c m).comp (local_push _ _)
  · exact local_memRead (fun n m => local_push (.int n) m) a m

theorem local_pushRandom (i : Instruction) (m : Machine) : Local (·.pushRandom i) m := by
  have hop (f : Machine) : (f.withData m).limit i = m.limit i := rfl
  simp only [Local, pushRandom, hop]
  rcases m.limit i with c | n
  · exact (local_fault c m).comp (local_push _ _)
  · exact ⟨[], fun _ => rfl⟩

/-- The stack that is written is that of the data, which is the same in every frame. -/
theorem local_printStack (m : Machine) : Local printStack m := by
  refine Local.congr (Local.comp (local_foldl ?_ m.stack.reverse m)
    (local_writeLine ((m.stack.reverse.filterMap Value.word?).flatMap character) _)) fun _ => rfl
  intro v n
  cases v.word? with
  | none => exact local_fault _ n
  | some _ => exact local_id n

/-- What a line of input leaves on the stack and in a variable. -/
theorem local_store (name line : Bytes) (m : Machine) :
    Local (fun m =>
      match inputNumber? line with
      | some n => (m.push (.int n)).setVar name (.int n)
      | none => ((((Utf8.decode line).map fun p => Value.int (Int64.ofNat p.codePoint)).foldl push
          m).push (.int 10)).setVar name (.str line)) m := by
  cases inputNumber? line with
  | some n => exact (local_push _ m).comp (local_setVar _ _ _)
  | none =>
    have hcodes := local_foldl local_push
      ((Utf8.decode line).map fun p => Value.int (Int64.ofNat p.codePoint)) m
    exact (hcodes.comp (local_push _ _)).comp (local_setVar _ _ _)

theorem local_readInput (i : Instruction) (m : Machine) : Local (·.readInput i) m := by
  have hread : Local (fun n => { n.write m.prompt with input := m.input.readLine.rest }) m :=
    ⟨[], fun _ => rfl⟩
  have hreport := hread.comp (local_report (m.input.readLine.problem.map inputCause) _)
  have hstore := hreport.comp (local_store (((i.operand? 0).map Operand.token).getD (text "in"))
    (Bytes.trimEndWhile (fun b => b = 13 || b = 10) m.input.readLine.line) _)
  exact hstore.congr fun _ => rfl

theorem local_declare (i : Instruction) (k : Kind) (m : Machine) : Local (·.declare i k) m := by
  unfold declare
  cases i.operand? 0 with
  | none => exact local_fault _ m
  | some name => exact (local_report _ m).comp (local_setVar _ _ _)

/-- Instructions act on the data in one way in every frame; the frame only sees reports of the same
causes and the control part of the instruction. -/
theorem effect_withData (m : Machine) (i : Instruction) : ∃ cs, ∀ f : Machine,
    (f.withData m).effect i = ((f.control i).reportAll cs).withData (m.effect i) := by
  unfold effect control
  cases i.op with
  | unknown => exact local_fault _ m
  | label | print | reverse => exact ⟨[], fun _ => rfl⟩
  | halt | loopOpen | callOpen | callClose | loopClose => exact ⟨[], fun _ => rfl⟩
  | color | push => cases i.operand? 0 <;> exact ⟨[], fun _ => rfl⟩
  | popPrint => exact local_pop (fun v m => local_writeLine v.print m) m
  | memSet => exact local_memSet i m
  | memGet => exact local_memGet i m
  | random => exact local_pushRandom i m
  | dup => exact local_pop (fun v m => (local_push v m).comp (local_push v _)) m
  | swap =>
    exact local_pop (fun a m => local_pop (fun b m => (local_push a m).comp (local_push b _)) m) m
  | randomCells => exact local_foldl (fun _ _ => ⟨[], fun _ => rfl⟩) firstCells m
  | sumFirst => exact ⟨[], fun _ => rfl⟩
  | stackText => exact local_printStack m
  | arith op => exact local_binary i _ m
  | compare op => exact local_binary i _ m
  | bitwise op =>
    cases op with
    | xor => exact local_flipped i _ m
    | and | or => exact local_binary i _ m
  | complement =>
    exact local_pop (fun a m => local_pushResult (.notWord i.mnemonic a.kind)
      (a.word?.map fun n => .int (~~~n)) m) m
  | branchZero | branchNonzero => exact local_pop (fun _ m => local_id m) m
  | input => exact local_readInput i m
  | declare k => exact local_declare i k m

@[simp] theorem control_program : (m.control i).program = m.program := by
  unfold control; split <;> rfl

theorem control_loops : (m.control i).loops =
    if i.op = .loopOpen then m.pc.toNat :: m.loops else m.loops := by
  unfold control
  cases i.op <;> rfl

theorem control_calls : (m.control i).calls =
    if i.op = .callOpen then m.pc.toNat :: m.calls
    else if i.op = .callClose then m.calls.tail
    else m.calls := by
  unfold control
  cases i.op <;> rfl

theorem control_running : (m.control i).running = (m.running && i.op ≠ .halt) := by
  unfold control
  cases i.op <;> simp

@[simp] theorem control_maxGas : (m.control i).maxGas = m.maxGas := by
  unfold control; split <;> rfl

theorem trace_eq (m : Machine) (i : Instruction) :
    ∃ records, m.trace i = { m with journal := records } := by
  unfold trace
  split
  · exact ⟨_, rfl⟩
  · exact ⟨m.journal, rfl⟩

/-- The frame is left by a step with the reports made, the control part done, and the program counter
and the count of steps moved on. -/
theorem execute_withData (m : Machine) (i : Instruction) : ∃ cs, ∀ f : Machine,
    (f.withData m).execute i =
      { ((((f.withData m).trace i).control i).reportAll cs).withData (m.effect i) with
        pc := (f.withData m).next i
        steps := f.steps + 1 } := by
  obtain ⟨cs, h⟩ := effect_withData m i
  refine ⟨cs, fun f => ?_⟩
  have htrace : (f.withData m).trace i = ((f.withData m).trace i).withData m := by
    obtain ⟨records, h⟩ := trace_eq (f.withData m) i
    rw [h]
    rfl
  have heffect := h ((f.withData m).trace i)
  rw [← htrace] at heffect
  unfold execute
  rw [heffect]
  rfl

/-- The fields of a frame after a step; the causes of faults are the same in every frame. -/
theorem execute_frame (m : Machine) (i : Instruction) : ∃ cs : List Cause, ∀ f : Machine,
    ∃ records, (f.withData m).execute i =
      { (f.control i).withData (m.effect i) with
        pc := (f.withData m).next i
        steps := f.steps + 1
        faults := f.faults ++ cs.map f.faultAt
        journal := records } := by
  obtain ⟨cs, h⟩ := execute_withData m i
  refine ⟨cs, fun f => ⟨((f.withData m).execute i).journal, ?_⟩⟩
  obtain ⟨records, htrace⟩ := trace_eq (f.withData m) i
  have hf := h f
  rw [reportAll_eq, htrace] at hf
  rw [hf]
  unfold control
  cases i.op <;> rfl

theorem execute_eq (m : Machine) (i : Instruction) : ∃ cs : List Cause, ∃ records,
    m.execute i = { (m.control i).withData (m.effect i) with
      pc := m.next i
      steps := m.steps + 1
      faults := m.faults ++ cs.map m.faultAt
      journal := records } := by
  obtain ⟨cs, h⟩ := execute_frame m i
  obtain ⟨records, hm⟩ := h m
  exact ⟨cs, records, hm⟩

@[simp] theorem execute_program : (m.execute i).program = m.program := by
  obtain ⟨cs, records, h⟩ := execute_eq m i
  rw [h]
  exact control_program

@[simp] theorem execute_pc : (m.execute i).pc = m.next i := rfl

@[simp] theorem execute_steps : (m.execute i).steps = m.steps + 1 := rfl

@[simp] theorem execute_loops : (m.execute i).loops = (m.control i).loops := by
  obtain ⟨cs, records, h⟩ := execute_eq m i
  rw [h]
  rfl

@[simp] theorem execute_calls : (m.execute i).calls = (m.control i).calls := by
  obtain ⟨cs, records, h⟩ := execute_eq m i
  rw [h]
  rfl

@[simp] theorem execute_running : (m.execute i).running = (m.control i).running := by
  obtain ⟨cs, records, h⟩ := execute_eq m i
  rw [h]
  rfl

@[simp] theorem execute_maxGas : (m.execute i).maxGas = m.maxGas := by
  obtain ⟨cs, records, h⟩ := execute_eq m i
  rw [h]
  exact control_maxGas

end LineMachine.Machine
