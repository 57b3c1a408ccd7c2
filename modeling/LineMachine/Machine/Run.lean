import LineMachine.Machine.Step

/-! Running a machine until it stops. -/
namespace LineMachine

inductive Outcome where
  /-- It was stopped, or the program counter left the program. -/
  | finished
  /-- The gas did not cover the next step. -/
  | exhausted (steps : Int64)
  /-- It would still go on. -/
  | unfinished
  deriving DecidableEq

/-- The error that a run ends with. -/
def Outcome.error? : Outcome → Option Bytes
  | exhausted n => some (text "gas exhausted after " ++ Decimal.ofInt64 n ++ text " steps")
  | _ => none

namespace Machine

/-- The next instruction of a machine that has not stopped. -/
def pending? (m : Machine) : Option Instruction := if m.running then m.current? else none

/-- At most `n` steps, each of which costs one unit of gas. Whether the machine can go on is found
out before the steps are counted, so `n` units of gas never leave a run of `n` steps unfinished. -/
def runFor (n : Nat) (m : Machine) : Outcome × Machine :=
  match m.pending? with
  | none => (.finished, m)
  | some i =>
    match m.consumeGas? 1 with
    | none => (.exhausted m.steps, { m.fault (.outOfGas m.steps) with running := false })
    | some paid =>
      match n with
      | 0 => (.unfinished, m)
      | n + 1 => runFor n (paid.execute i)

end Machine
end LineMachine
