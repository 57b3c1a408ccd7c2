import LineMachine.Program.Operand

/-! Text to print, with references to variables in it. -/
namespace LineMachine

inductive Segment where
  | literal (s : Bytes)
  | ref (name : Bytes)
  deriving DecidableEq

def Segment.source : Segment → Bytes
  | literal s => s
  | ref name => Operand.dollar :: name

abbrev Template := List Segment

namespace Template

/-- What a variable's name in a template consists of. -/
def isNameByte (b : UInt8) : Bool :=
  (48 ≤ b && b ≤ 57) || (65 ≤ b && b ≤ 90) || (97 ≤ b && b ≤ 122) || b = 95

/-- Puts literal text in front, joining it with literal text that follows. -/
def prepend (s : Bytes) (t : Template) : Template :=
  match s, t with
  | [], t => t
  | s, .literal u :: t => .literal (s ++ u) :: t
  | s, t => .literal s :: t

/-- One byte of the text, read from the right: the name bytes directly after it, and the segments
after those. -/
def scan (b : UInt8) : Bytes × Template → Bytes × Template
  | (name, t) =>
    if isNameByte b then (b :: name, t)
    else if b = Operand.dollar ∧ name ≠ [] then ([], .ref name :: t)
    else ([], prepend (b :: name) t)

/-- Splits text at its references; a dollar sign without a name is literal. -/
def split (s : Bytes) : Template :=
  let (name, t) := s.foldr scan ([], [])
  prepend name t

/-- The text that a template was split from. -/
def source (t : Template) : Bytes := t.flatMap Segment.source

end Template
end LineMachine
