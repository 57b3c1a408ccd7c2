import LineMachine.Text.Quoted
import LineMachine.Value

/-! Faults: what can go wrong in one step. A fault is reported and the machine goes on. -/
namespace LineMachine

inductive Cause where
  | unknownSymbol (mnemonic : Bytes)
  | outOfMemory (address : Int64)
  | notInteger (token : Bytes)
  | notFloat (token : Bytes)
  | badLimit (limit : Int64)
  | missingOperand (mnemonic : Bytes) (place : Nat)
  | missingName (mnemonic : Bytes)
  | mismatch (left : Kind) (mnemonic : Bytes) (right : Kind)
  | notWord (mnemonic : Bytes) (kind : Kind)
  | notCharacter (kind : Kind)
  | endOfInput
  | inputFailed (reason : Bytes)
  | outOfGas (steps : Int64)
  deriving DecidableEq

namespace Cause

def code : Cause → Int
  | unknownSymbol _ => 1
  | outOfMemory _ => 2
  | notInteger _ | notFloat _ | badLimit _ => 3
  | missingOperand .. | missingName _ => 4
  | mismatch .. | notWord .. | notCharacter _ => 5
  | endOfInput | inputFailed _ => 6
  | outOfGas _ => 7

def detail : Cause → Bytes
  | unknownSymbol m => m
  | outOfMemory a => text "address " ++ Decimal.ofInt64 a
  | notInteger t => quote t ++ text " is not an integer"
  | notFloat t => quote t ++ text " is not a float"
  | badLimit n => text "random limit " ++ Decimal.ofInt64 n ++ text " is not positive"
  | missingOperand m n => m ++ text " needs operand " ++ Decimal.ofNat n
  | missingName m => m ++ text " needs a variable name"
  | mismatch a m b => a.name ++ [Bytes.space] ++ m ++ [Bytes.space] ++ b.name
  | notWord m k => m ++ [Bytes.space] ++ k.name
  | notCharacter k => text "cannot print " ++ k.name ++ text " as a character"
  | endOfInput => text "end of input"
  | inputFailed r => r
  | outOfGas n => text "after " ++ Decimal.ofInt64 n ++ text " steps"

end Cause

structure Fault where
  cause : Cause
  /-- The index of the line that was being executed, and its text. -/
  pc : Int
  line : Bytes
  deriving DecidableEq

namespace Fault

def codeMessage (code : Int) : Bytes :=
  match code with
  | 1 => text "unknown symbol"
  | 2 => text "memory address out of range"
  | 3 => text "malformed operand"
  | 4 => text "missing operand"
  | 5 => text "type mismatch"
  | 6 => text "input error"
  | 7 => text "gas exhausted"
  | n => text "unknown error " ++ Decimal.ofInt n

def report (code pc : Int) (detail : Bytes) : Bytes :=
  text "line " ++ Decimal.ofInt pc ++ text ": " ++ codeMessage code ++
    if detail = [] then [] else text ": " ++ detail

def message (f : Fault) : Bytes := codeMessage f.cause.code

def print (f : Fault) : Bytes := report f.cause.code f.pc f.cause.detail

end Fault
end LineMachine
