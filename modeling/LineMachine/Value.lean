import LineMachine.Number.Decimal
import LineMachine.Number.FloatText

/-! The values a machine computes with. -/
namespace LineMachine

inductive Kind where
  | int
  | float
  | str
  | bool
  deriving DecidableEq

def Kind.name : Kind → Bytes
  | int => text "int"
  | float => text "float"
  | str => text "string"
  | bool => text "bool"

inductive Value where
  | int (n : Int64)
  | float (x : Float)
  | str (s : Bytes)
  | bool (b : Bool)
  deriving DecidableEq

namespace Value

instance : Inhabited Value := ⟨int 0⟩

def kind : Value → Kind
  | int _ => .int
  | float _ => .float
  | str _ => .str
  | bool _ => .bool

def print : Value → Bytes
  | int n => Decimal.ofInt64 n
  | float x => FloatText.ofFloat x
  | str s => s
  | bool true => text "True"
  | bool false => text "False"

/-- The value as a word: truth is one, floats lose their fraction, strings are no numbers. -/
def toInt64? : Value → Option Int64
  | int n => some n
  | float x => some (Binary64.toInt64 x)
  | bool b => some (if b then 1 else 0)
  | str _ => none

/-- Like `toInt64?`, but a string counts as the integer it spells. -/
def reading? : Value → Option Int64
  | str s => Decimal.readInt64? s
  | v => v.toInt64?

/-- What a memory cell holds for a value. -/
def cell (v : Value) : Int64 := v.reading?.getD 0

def isZero : Value → Bool
  | int n => n = 0
  | float x => x == 0
  | bool b => !b
  | str _ => false

/-- Equality of values of one kind; not-a-number equals nothing, and the two zeros are equal. -/
def same : Value → Value → Bool
  | int m, int n => m = n
  | float x, float y => x == y
  | str s, str t => s == t
  | bool a, bool b => a = b
  | _, _ => false

end Value
end LineMachine
