import Std.Data.ExtTreeMap
import LineMachine.Program.Line
import LineMachine.Program.Opcode
import LineMachine.Program.Template
import LineMachine.Text.Blank

/-! Programs: the instructions of a source text, in order, and the labels declared in it. -/
namespace LineMachine

structure Instruction where
  op : Opcode
  mnemonic : Bytes
  operands : List Operand
  /-- The line without blanks around it, and its number in the source, counted from one. -/
  text : Bytes
  line : Nat
  template : Template
  deriving DecidableEq

namespace Instruction

def operand? (i : Instruction) (n : Nat) : Option Operand := i.operands[n]?

/-- The operands from the `n`-th on as written, joined by single spaces. -/
def tokensFrom (i : Instruction) (n : Nat) : Bytes :=
  Bytes.join [Bytes.space] ((i.operands.drop n).map Operand.token)

/-- Only print instructions have a template. -/
def ofLine (number : Nat) (source : Bytes) (l : Line) : Instruction where
  op := Opcode.ofMnemonic l.mnemonic
  mnemonic := l.mnemonic
  operands := l.operands.map Operand.ofToken
  text := source
  line := number
  template :=
    if Opcode.ofMnemonic l.mnemonic = .print then
      Template.split (Bytes.join [Bytes.space] l.operands)
    else []

end Instruction

structure Program where
  name : Bytes
  lines : Array Instruction
  labels : Std.ExtTreeMap Bytes Nat
  deriving DecidableEq

namespace Program

structure Problem where
  line : Nat
  reason : Line.Problem

def Problem.message (name : Bytes) (p : Problem) : Bytes :=
  name ++ text ":" ++ Decimal.ofNat p.line ++ text ": " ++ p.reason.message name

def size (p : Program) : Nat := p.lines.size

def label? (p : Program) (name : Bytes) : Option Nat := p.labels[name]?

/-- A line of the source with its number; blank lines and comments have no content. -/
def hasContent (line : Bytes) : Bool := !line.isEmpty && !(text "//").isPrefixOf line

/-- The lines with content, trimmed, with their numbers. -/
def contents (source : Bytes) : List (Nat × Bytes) :=
  (((Bytes.splitOn Bytes.newline source).zipIdx 1).map fun (s, n) => (n, Utf8.trim s)).filter
    fun (_, s) => hasContent s

/-- Adds a line at the end. A line that ends in a colon declares what is before the colon as a label
for itself; a later declaration of the same label takes its place. -/
def addLine (p : Program) (number : Nat) (source : Bytes) : Except Problem Program :=
  match Line.parse source with
  | .error e => .error ⟨number, e⟩
  | .ok l => .ok { p with
      lines := p.lines.push (Instruction.ofLine number source l)
      labels := match Bytes.dropFinal? 58 source with
        | some name => p.labels.insert name p.size
        | none => p.labels }

def load (name source : Bytes) : Except Problem Program :=
  (contents source).foldlM (fun p (n, s) => p.addLine n s) ⟨name, #[], ∅⟩

end Program
end LineMachine
