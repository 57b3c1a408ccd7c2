import LineMachine.Program.Basic

/-! Listing a program, one instruction a line, with its index, its operation and its labels. -/
namespace LineMachine.Program

/-- The labels bound to a line, in byte order. -/
def labelsAt (p : Program) (i : Nat) : List Bytes :=
  (p.labels.toList.filter fun (_, j) => j = i).map (·.1)

def listLine (p : Program) (i : Nat) (inst : Instruction) : Bytes :=
  Bytes.padLeft 4 48 (Decimal.ofNat i) ++ text "  " ++
    Bytes.padRight 8 Bytes.space inst.op.name ++ [Bytes.space] ++ inst.text ++
    (match p.labelsAt i with
      | [] => []
      | names => text "    ; label " ++ Bytes.join (text ",") names) ++ [Bytes.newline]

def listing (p : Program) : Bytes :=
  (p.lines.toList.zipIdx).flatMap fun (inst, i) => p.listLine i inst

/-- The source with one line per instruction, its words joined by single spaces. -/
def source (p : Program) : Bytes :=
  p.lines.toList.flatMap fun inst =>
    Bytes.join [Bytes.space] (inst.mnemonic :: inst.operands.map Operand.token) ++ [Bytes.newline]

end LineMachine.Program
