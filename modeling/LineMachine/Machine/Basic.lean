import LineMachine.Color
import LineMachine.Fault
import LineMachine.Input
import LineMachine.Log
import LineMachine.Memory
import LineMachine.Program.Basic
import LineMachine.Random.Source

/-! The state of a machine and what can be done to it from outside. -/
namespace LineMachine

structure Machine where
  program : Program
  /-- The top of the stack comes first. -/
  stack : List Value := []
  memory : Memory := ∅
  vars : Std.ExtTreeMap Bytes Value := ∅
  /-- The indices of the loop heads passed so far, the last one first. -/
  loops : List Nat := []
  /-- The indices of the call heads to return to, the last one first. -/
  calls : List Nat := []
  pc : Int := 0
  running : Bool := true
  color : Color := .reset
  /-- The text of every print instruction so far. -/
  printed : Array Bytes := #[]
  faults : Array Fault := #[]
  gas : Int64 := 0
  /-- Zero for a machine without a limit. -/
  maxGas : Int64 := 0
  /-- The number of instructions executed so far, as a word that wraps. -/
  steps : Int64 := 0
  output : Array UInt8 := #[]
  /-- Every record made so far; which of them are written is up to a logger. -/
  journal : Array Log.Record := #[]
  input : Input := ⟨[], none⟩
  prompt : Bytes := text "> "
  random : Random := .scripted []
  /-- Makes a record of every step. -/
  debug : Bool := false

namespace Machine

/-- The instruction at the program counter. -/
def current? (m : Machine) : Option Instruction :=
  if 0 ≤ m.pc then m.program.lines[m.pc.toNat]? else none

def log (m : Machine) (r : Log.Record) : Machine := { m with journal := m.journal.push r }

def faultRecord (f : Fault) : Log.Record :=
  ⟨Log.Level.warn, f.message,
    [(text "pc", .int f.pc), (text "line", .str f.line), (text "detail", .str f.cause.detail)]⟩

/-- Reports a fault against the current line. -/
def fault (m : Machine) (cause : Cause) : Machine :=
  let f : Fault := ⟨cause, m.pc, (m.current?.map Instruction.text).getD []⟩
  { m with faults := m.faults.push f, journal := m.journal.push (faultRecord f) }

def write (m : Machine) (s : Bytes) : Machine := { m with output := m.output ++ s }

def writeLine (m : Machine) (s : Bytes) : Machine := m.write (s ++ [Bytes.newline])

def push (m : Machine) (v : Value) : Machine := { m with stack := v :: m.stack }

/-- Takes the top of the stack; an empty stack gives zero. -/
def pop (m : Machine) : Value × Machine :=
  match m.stack with
  | [] => (.int 0, m)
  | v :: s => (v, { m with stack := s })

/-- Writes a cell; an address out of range is reported and nothing is written. -/
def memWrite (m : Machine) (address n : Int64) : Machine :=
  match Address.ofInt? address.toInt with
  | some a => { m with memory := m.memory.write a n }
  | none => m.fault (.outOfMemory address)

/-- Reads a cell; an address out of range is reported and reads as zero. -/
def memRead (m : Machine) (address : Int64) : Int64 × Machine :=
  match Address.ofInt? address.toInt with
  | some a => (m.memory.read a, m)
  | none => (0, m.fault (.outOfMemory address))

/-- A variable, or the cell that mirrors it if the variable was never set. -/
def getVar (m : Machine) (name : Bytes) : Value :=
  (m.vars[name]?).getD (.int (m.memory.read (Address.ofName name)))

/-- Sets a variable and the cell that mirrors it. -/
def setVar (m : Machine) (name : Bytes) (v : Value) : Machine :=
  { m with
    vars := m.vars.insert name v
    memory := m.memory.write (Address.ofName name) v.cell }

def setGas (m : Machine) (n : Int64) : Machine := { m with gas := n, maxGas := n }

def seed (m : Machine) (n : Int64) : Machine := { m with random := Random.ofSeed n }

/-- Pays for something, if there is a limit and the rest of the gas covers it. -/
def consumeGas? (m : Machine) (amount : Int64) : Option Machine :=
  if m.maxGas = 0 then some m
  else if m.gas < amount then none
  else some { m with gas := m.gas - amount }

/-- Back to the start. The program, the streams, what was written, the settings and the random
source stay; a limited machine gets its gas back. -/
def reset (m : Machine) : Machine :=
  { m with
    stack := []
    memory := ∅
    vars := ∅
    loops := []
    calls := []
    pc := 0
    running := true
    color := .reset
    printed := #[]
    faults := #[]
    steps := 0
    gas := if 0 < m.maxGas then m.maxGas else m.gas }

/-- The stack on one line, bottom first. -/
def stackText (m : Machine) : Bytes :=
  match m.stack with
  | [] => text "[]"
  | s => text "[ " ++ Bytes.join [Bytes.space] (s.reverse.map Value.print) ++ text " ]"

end Machine
end LineMachine
