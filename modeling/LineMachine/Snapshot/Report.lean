import LineMachine.Snapshot.Basic

/-! Showing a snapshot. -/
namespace LineMachine.Snapshot

def showBool (b : Bool) : Bytes := if b then text "true" else text "false"

def showVariable (name : Bytes) (v : Value) : Bytes :=
  text "var " ++ name ++ text " = " ++ v.print ++ text " (" ++ v.kind.name ++ text ")\n"

def showCell (address n : Int64) : Bytes :=
  text "mem[" ++ Decimal.ofInt64 address ++ text "] = " ++ Decimal.ofInt64 n ++ text "\n"

/-- One line each for the program, the counters and the stack, then variables, cells and faults. -/
def report (s : Snapshot) : Bytes :=
  text "program: " ++ s.program ++ text "\npc: " ++ Decimal.ofInt64 s.pc ++
    text "  steps: " ++ Decimal.ofInt64 s.steps ++ text "  running: " ++ showBool s.running ++
    text "\nstack: [" ++ (s.stack.getD []).flatMap (fun t => [Bytes.space] ++ t.toValue.print) ++
    text " ]\n" ++
    s.variableList.flatMap (fun (name, t) => showVariable name t.toValue) ++
    s.cells.flatMap (fun (a, n) => showCell a n) ++
    s.faults.flatMap fun f => text "fault: " ++ f ++ text "\n"

end LineMachine.Snapshot
