import LineMachine.Machine.Operands

/-! One step: the effect of an instruction, and where the machine goes on. -/
namespace LineMachine.Machine

/-- Reports what went wrong, if anything did. -/
def report (m : Machine) : Option Cause → Machine
  | none => m
  | some c => m.fault c

def problem {α : Type} : Except Cause α → Option Cause
  | .ok _ => none
  | .error c => some c

/-- Pushes a result; without one the fault is reported and zero takes its place. -/
def pushResult (m : Machine) (cause : Cause) : Option Value → Machine
  | some v => m.push v
  | none => (m.fault cause).push (.int 0)

/-- An operator on the two topmost values, the topmost on the right. -/
def binary (m : Machine) (i : Instruction) (f : Value → Value → Option Value) : Machine :=
  let (b, m) := m.pop
  let (a, m) := m.pop
  m.pushResult (.mismatch a.kind i.mnemonic b.kind) (f a b)

/-- An operator on the two topmost values, the topmost on the left. -/
def flipped (m : Machine) (i : Instruction) (f : Value → Value → Option Value) : Machine :=
  let (a, m) := m.pop
  let (b, m) := m.pop
  m.pushResult (.mismatch a.kind i.mnemonic b.kind) (f a b)

def print (m : Machine) (i : Instruction) : Machine :=
  let s := m.render i.template
  let m := m.writeLine (m.color.escape ++ s ++ Color.reset.escape)
  { m with printed := m.printed.push s }

def memSet (m : Machine) (i : Instruction) : Machine :=
  match m.intOperand i 0, m.intOperand i 1 with
  | .ok a, .ok n => m.memWrite a n
  | a, n => (m.report (problem a)).report (problem n)

def memGet (m : Machine) (i : Instruction) : Machine :=
  match m.intOperand i 0 with
  | .ok a =>
    let (n, m) := m.memRead a
    m.push (.int n)
  | .error c => (m.fault c).push (.int 0)

/-- The limit of a random number, 256 if none is given. -/
def limit (m : Machine) (i : Instruction) : Except Cause Int64 :=
  if i.operands = [] then .ok 256
  else match m.intOperand i 0 with
    | .error c => .error c
    | .ok n => if n ≤ 0 then .error (.badLimit n) else .ok n

def pushRandom (m : Machine) (i : Instruction) : Machine :=
  match m.limit i with
  | .error c => (m.fault c).push (.int 0)
  | .ok n =>
    let (k, r) := m.random.below n.toInt.toNat
    { m with random := r }.push (.int (Int64.ofNat k))

/-- Puts a random byte into a cell. -/
def randomCell (m : Machine) (a : Address) : Machine :=
  let (k, r) := m.random.below 256
  { m with random := r, memory := m.memory.write a (Int64.ofNat k) }

def firstCells : List Address :=
  (List.finRange 16).map fun i => ⟨i.val, Nat.lt_trans i.isLt (by decide)⟩

/-- The character whose code is a word modulo 256. -/
def character (n : Int64) : Bytes := Utf8.encodePoint (Floor.mod n 256).toInt.toNat

/-- Writes the stack as characters, bottom first; values that are no words are reported. -/
def printStack (m : Machine) : Machine :=
  let values := m.stack.reverse
  let m := values.foldl (fun m v =>
    match v.word? with
    | some _ => m
    | none => m.fault (.notCharacter v.kind)) m
  m.writeLine ((values.filterMap Value.word?).flatMap character)

/-- What a line of input means: a number if it consists of digits and fits a word. -/
def inputNumber? (line : Bytes) : Option Int64 :=
  if Decimal.isDigit (line.headD 0) then Decimal.readInt64? line else none

def inputCause : Input.Problem → Cause
  | .ended => .endOfInput
  | .failed reason => .inputFailed reason

/-- Reads a line. A number is pushed; of other text the code points are pushed, then a newline. -/
def readInput (m : Machine) (i : Instruction) : Machine :=
  let name := ((i.operand? 0).map Operand.token).getD (text "in")
  let m := m.write m.prompt
  let reading := m.input.readLine
  let m := { m with input := reading.rest }.report (reading.problem.map inputCause)
  let line := Bytes.trimEndWhile (fun b => b = 13 || b = 10) reading.line
  match inputNumber? line with
  | some n => (m.push (.int n)).setVar name (.int n)
  | none =>
    let codes := (Utf8.decode line).map fun p => Value.int (Int64.ofNat p.codePoint)
    ((codes.foldl push m).push (.int 10)).setVar name (.str line)

def declare (m : Machine) (i : Instruction) (k : Kind) : Machine :=
  match i.operand? 0 with
  | none => m.fault (.missingName i.mnemonic)
  | some name =>
    let (v, cause) := declared i k
    (m.report cause).setVar name.token v

/-- What an instruction does, apart from moving the program counter. -/
def effect (m : Machine) (i : Instruction) : Machine :=
  match i.op with
  | .unknown => m.fault (.unknownSymbol i.mnemonic)
  | .label => m
  | .print => m.print i
  | .halt => { m with running := false }
  | .color =>
    match i.operand? 0 with
    | some o => { m with color := Color.named o.token }
    | none => m
  | .push =>
    match i.operand? 0 with
    | some o => m.push (m.operandValue o)
    | none => m.writeLine []
  | .popPrint =>
    let (v, m) := m.pop
    m.writeLine v.print
  | .memSet => m.memSet i
  | .memGet => m.memGet i
  | .random => m.pushRandom i
  | .dup =>
    let (v, m) := m.pop
    (m.push v).push v
  | .swap =>
    let (a, m) := m.pop
    let (b, m) := m.pop
    (m.push a).push b
  | .reverse => { m with stack := m.stack.reverse }
  | .randomCells => firstCells.foldl randomCell m
  | .sumFirst =>
    m.push (.int (m.memory.read ⟨0, by decide⟩ + m.memory.read ⟨1, by decide⟩))
  | .stackText => m.printStack
  | .arith op => m.binary i op.result?
  | .compare op => m.binary i op.result?
  | .bitwise .xor => m.flipped i Bitwise.xor.result?
  | .bitwise op => m.binary i op.result?
  | .complement =>
    let (a, m) := m.pop
    m.pushResult (.notWord i.mnemonic a.kind) (a.word?.map fun n => .int (~~~n))
  | .branchZero | .branchNonzero => m.pop.2
  | .loopOpen => { m with loops := m.pc.toNat :: m.loops }
  | .loopClose => m
  | .callOpen => { m with calls := m.pc.toNat :: m.calls }
  | .callClose => { m with calls := m.calls.tail }
  | .input => m.readInput i
  | .declare k => m.declare i k

/-- The line after the label that a branch names, if there is such a label. -/
def branchTarget? (m : Machine) (i : Instruction) : Option Nat := do
  let o ← i.operand? 0
  let j ← m.program.label? o.token
  some (j + 1)

/-- Where the machine jumps. A loop is entered anew at its head, a call is resumed after its head,
and a branch goes on after its label. -/
def jump? (m : Machine) (i : Instruction) : Option Nat :=
  match i.op with
  | .branchZero => if m.pop.1.isZero then m.branchTarget? i else none
  | .branchNonzero => if m.pop.1.isZero then none else m.branchTarget? i
  | .loopClose => m.loops.head?
  | .callClose => m.calls.head?.map (· + 1)
  | _ => none

/-- The next value of the program counter. -/
def next (m : Machine) (i : Instruction) : Int :=
  match m.jump? i with
  | some j => j
  | none => m.pc + 1

def trace (m : Machine) (i : Instruction) : Machine :=
  if m.debug then
    m.log ⟨Log.Level.debug, text "step",
      [(text "pc", .int m.pc), (text "op", .str i.op.name), (text "depth", .int m.stack.length)]⟩
  else m

def execute (m : Machine) (i : Instruction) : Machine :=
  let pc := m.next i
  let steps := m.steps + 1
  { (m.trace i).effect i with pc := pc, steps := steps }

/-- One step, if the program counter is inside the program. -/
def step? (m : Machine) : Option Machine := m.current?.map m.execute

end LineMachine.Machine
