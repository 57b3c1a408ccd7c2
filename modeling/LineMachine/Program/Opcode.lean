import LineMachine.Value.Arithmetic

/-! The operations a line can ask for, with their mnemonics and numbers. -/
namespace LineMachine

inductive Opcode where
  | unknown
  | label
  | print
  | halt
  | color
  | push
  | popPrint
  | memSet
  | memGet
  | random
  | dup
  | swap
  | reverse
  | randomCells
  | sumFirst
  | stackText
  | arith (op : Arith)
  | bitwise (op : Bitwise)
  | complement
  | compare (op : Comparison)
  | branchZero
  | branchNonzero
  | loopOpen
  | loopClose
  | callOpen
  | callClose
  | input
  | declare (kind : Kind)
  deriving DecidableEq

namespace Opcode

/-- Every operation that has a mnemonic. -/
def mnemonics : List (Opcode × String) :=
  [(print, "#"), (halt, "Q"), (color, "COLOR"),
    (push, "P"), (popPrint, "O"), (memSet, "MSET"), (memGet, "MGET"), (random, "~"), (dup, "DU"),
    (swap, "@"), (reverse, "RS"), (randomCells, "RM"), (sumFirst, "XY"), (stackText, "!!"),
    (arith .add, "+"), (arith .sub, "-"), (arith .mul, "*"), (arith .div, "/"), (arith .mod, "%"),
    (bitwise .and, "&"), (bitwise .or, "|"), (complement, "!"), (bitwise .xor, "XX"),
    (compare .greater, ">"), (compare .less, "<"), (compare .equal, "="),
    (branchZero, "?"), (loopOpen, "["), (loopClose, "]"), (branchNonzero, "CJ"),
    (callOpen, "\x7b"), (callClose, "\x7d"),
    (input, "INPUT"), (declare .int, "NU"), (declare .float, "FL"), (declare .str, "ST"),
    (declare .bool, "BO")]

/-- Any word that ends in a colon and is no mnemonic declares a label. -/
def ofMnemonic (word : Bytes) : Opcode :=
  match mnemonics.find? fun (_, m) => text m == word with
  | some (op, _) => op
  | none => if word.getLast? = some 58 then label else unknown

def name (op : Opcode) : Bytes :=
  match op with
  | unknown => text "?unknown"
  | label => text "label"
  | op => ((mnemonics.find? fun (o, _) => o = op).map fun (_, m) => text m).getD []

def code : Opcode → Nat
  | unknown => 0
  | label => 1
  | print => 2
  | halt => 3
  | color => 4
  | push => 0x10
  | popPrint => 0x11
  | memSet => 0x12
  | memGet => 0x13
  | random => 0x14
  | dup => 0x15
  | swap => 0x16
  | reverse => 0x17
  | randomCells => 0x18
  | sumFirst => 0x19
  | stackText => 0x1A
  | arith .add => 0x20
  | arith .sub => 0x21
  | arith .mul => 0x22
  | arith .div => 0x23
  | arith .mod => 0x24
  | bitwise .and => 0x25
  | bitwise .or => 0x26
  | complement => 0x27
  | bitwise .xor => 0x28
  | compare .greater => 0x29
  | compare .less => 0x2A
  | compare .equal => 0x2B
  | branchZero => 0x30
  | loopOpen => 0x31
  | loopClose => 0x32
  | branchNonzero => 0x33
  | callOpen => 0x34
  | callClose => 0x35
  | input => 0x40
  | declare .int => 0x41
  | declare .float => 0x42
  | declare .str => 0x43
  | declare .bool => 0x44

/-- The operation with a given number, if the number is in use. -/
def ofCode? (n : Nat) : Option Opcode :=
  (unknown :: label :: mnemonics.map (·.1)).find? fun op => op.code = n

def isArith : Opcode → Bool
  | arith _ => true
  | _ => false

def isComparison : Opcode → Bool
  | compare _ => true
  | _ => false

end Opcode
end LineMachine
