import LineMachine.Machine.Basic
import LineMachine.Number.FloatReader

/-! What operands mean in a state of the machine. -/
namespace LineMachine.Machine

/-- The value a push operand stands for. -/
def operandValue (m : Machine) : Operand → Value
  | .ref name => m.getVar name
  | .literal _ n => .int n
  | .word t => .str t

/-- The `n`-th operand as an integer. -/
def intOperand (m : Machine) (i : Instruction) (n : Nat) : Except Cause Int64 :=
  match i.operand? n with
  | none => .error (.missingOperand i.mnemonic (n + 1))
  | some (.literal _ k) => .ok k
  | some (.word t) => .error (.notInteger t)
  | some (.ref name) =>
    match (m.getVar name).reading? with
    | some k => .ok k
    | none => .error (.notInteger (Operand.ref name).token)

/-- The text of a template, with the variables' values in place. -/
def render (m : Machine) (t : Template) : Bytes :=
  t.flatMap fun
    | .literal s => s
    | .ref name => (m.getVar name).print

/-- Text between two double quotes loses them; a single one is nothing. -/
def unquoted (s : Bytes) : Bytes :=
  match s with
  | 34 :: r => if s.getLast? = some 34 then r.dropLast else s
  | _ => s

/-- The value that a declaration gives, and what is wrong with its operand. -/
def declared (i : Instruction) : Kind → Value × Option Cause
  | .int =>
    match i.operand? 1 with
    | none => (.int 0, none)
    | some (.literal _ n) => (.int n, none)
    | some o => (.int 0, some (.notInteger o.token))
  | .float =>
    match i.operand? 1 with
    | none => (.float 0, none)
    | some o =>
      match FloatReader.read? o.token with
      | some x => (.float x, none)
      | none => (.float 0, some (.notFloat o.token))
  | .str => (.str (unquoted (i.tokensFrom 1)), none)
  | .bool =>
    match i.operand? 1 with
    | none => (.bool false, none)
    | some o => (.bool (Utf8.spells Utf8.fold o.token "true"), none)

end LineMachine.Machine
