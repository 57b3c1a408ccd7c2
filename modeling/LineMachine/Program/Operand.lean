import LineMachine.Number.Decimal

/-! Operands: the words after the mnemonic. -/
namespace LineMachine

inductive Operand where
  | ref (name : Bytes)
  | literal (token : Bytes) (n : Int64)
  | word (token : Bytes)
  deriving DecidableEq

namespace Operand

def dollar : UInt8 := 36

/-- The word as written. -/
def token : Operand → Bytes
  | ref name => dollar :: name
  | literal t _ => t
  | word t => t

/-- A dollar sign makes a reference, whatever follows it; an integer that fits a word is a literal. -/
def ofToken (t : Bytes) : Operand :=
  if t.head? = some dollar then ref t.tail
  else match Decimal.readInt64? t with
    | some n => literal t n
    | none => word t

end Operand
end LineMachine
