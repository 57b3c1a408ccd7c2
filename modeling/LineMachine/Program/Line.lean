import LineMachine.Number.Decimal
import LineMachine.Text.Quoted

/-! Splitting one line into words. -/
namespace LineMachine.Line

/-- Blanks may stand before a word. -/
def isBlank (b : UInt8) : Bool := b = 32 || b = 9 || b = 13 || b = 12 || b = 11

/-- What continues a word. A vertical tab does, though it cannot start one. -/
def continuesWord (b : UInt8) : Bool := !(b = 32 || b = 9 || b = 10 || b = 12 || b = 13)

theorem length_dropWhile_le {p : UInt8 → Bool} {s : Bytes} : (s.dropWhile p).length ≤ s.length :=
  (List.dropWhile_suffix p).length_le

/-- The words of a line without newlines. -/
def words (s : Bytes) : List Bytes :=
  match _h : s.dropWhile isBlank with
  | [] => []
  | b :: rest => (b :: rest.takeWhile continuesWord) :: words (rest.dropWhile continuesWord)
termination_by s.length
decreasing_by
  have := length_dropWhile_le (p := isBlank) (s := s)
  have := length_dropWhile_le (p := continuesWord) (s := rest)
  simp only [_h, List.length_cons] at *
  omega

inductive Problem where
  /-- There is no word; the column is the one after all blanks. -/
  | noWord (column : Nat)
  /-- There is a newline, at a column counted in code points. -/
  | newline (column : Nat) (rest : Bytes)
  deriving DecidableEq

/-- At most sixteen code points of a text are shown, stray bytes as replacement characters. -/
def excerpt (s : Bytes) : Bytes :=
  let ps := Utf8.decode s
  let shown := (ps.take 16).flatMap fun p => Utf8.encodePoint p.codePoint
  quote (if 16 < ps.length then shown ++ text "..." else shown)

namespace Problem

def column : Problem → Nat
  | noWord c => c
  | newline c _ => c

def reason : Problem → Bytes
  | noWord _ => text "unexpected token \"<EOF>\""
  | newline _ rest => text "lexer: invalid input text " ++ excerpt rest

/-- The message for a line of the file `name`; lines are read one by one, so it is always line 1. -/
def message (name : Bytes) (p : Problem) : Bytes :=
  (if name = [] then [] else name ++ text ":") ++ text "1:" ++ Decimal.ofNat p.column ++ text ": " ++
    p.reason

end Problem
end Line

/-- A line as its words: the mnemonic, the operands and where the first of them starts. -/
structure Line where
  mnemonic : Bytes
  operands : List Bytes
  offset : Nat
  deriving DecidableEq

namespace Line

/-- Before the first word there are only one-byte characters. -/
def column (l : Line) : Nat := l.offset + 1

/-- The file and the line that a text is said to be from, and where in it the first word starts. -/
structure Position where
  file : Bytes
  line : Int
  offset : Nat
  column : Nat
  deriving DecidableEq

def position (l : Line) (file : Bytes) (number : Int) : Position :=
  ⟨file, number, l.offset, l.column⟩

def parse (s : Bytes) : Except Problem Line :=
  match s.span (· ≠ Bytes.newline) with
  | (before, b :: rest) => .error (.newline (Utf8.length before + 1) (b :: rest))
  | (_, []) =>
    match words s with
    | [] => .error (.noWord (s.length + 1))
    | w :: ws => .ok ⟨w, ws, (s.takeWhile isBlank).length⟩

end Line
end LineMachine
