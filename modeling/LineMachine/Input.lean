import LineMachine.Text.Bytes

/-! The input of a machine, read line by line. -/
namespace LineMachine

structure Input where
  pending : Bytes
  /-- Why reading fails once the pending bytes are used up; nothing for a plain end of input. -/
  failure : Option Bytes := none
  deriving DecidableEq

namespace Input

inductive Problem where
  | ended
  | failed (reason : Bytes)
  deriving DecidableEq

structure Reading where
  line : Bytes
  problem : Option Problem
  rest : Input

/-- Reads up to and including the next newline, or what there is. The end of the input is no problem
if there was something before it. -/
def readLine (i : Input) : Reading :=
  match i.pending.span (· ≠ Bytes.newline) with
  | (before, b :: rest) => ⟨before ++ [b], none, { i with pending := rest }⟩
  | (before, []) =>
    let problem := match i.failure with
      | some reason => some (.failed reason)
      | none => if before = [] then some .ended else none
    ⟨before, problem, { i with pending := [] }⟩

end Input
end LineMachine
