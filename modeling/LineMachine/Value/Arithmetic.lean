import LineMachine.Value
import LineMachine.Number.Floor

/-! The operators on values. No result means that the kinds of the operands do not go together. -/
namespace LineMachine

inductive Arith where
  | add
  | sub
  | mul
  | div
  | mod
  deriving DecidableEq

inductive Bitwise where
  | and
  | or
  | xor
  deriving DecidableEq

inductive Comparison where
  | greater
  | less
  | equal
  deriving DecidableEq

/-- A value in its numeric role. -/
inductive Number where
  | int (n : Int64)
  | float (x : Float)

namespace Number

def toFloat : Number → Float
  | int n => Binary64.ofInt n.toInt
  | float x => x

def word? : Number → Option Int64
  | int n => some n
  | float _ => none

end Number

namespace Value

def number? : Value → Option Number
  | int n => some (.int n)
  | float x => some (.float x)
  | bool b => some (.int (if b then 1 else 0))
  | str _ => none

/-- Integers and truth values. -/
def word? (v : Value) : Option Int64 := v.number?.bind Number.word?

/-- The longest string that repetition builds. -/
def maxRepeated : Nat := 1 <<< 24

/-- `n` copies of `s`; a count below one gives the empty string. -/
def repeated? (s : Bytes) (n : Int64) : Option Value :=
  if n ≤ 0 ∨ s = [] then some (str [])
  else if maxRepeated / s.length < n.toInt.toNat then none
  else some (str (Nat.repeat (s ++ ·) n.toInt.toNat []))

end Value

namespace Arith

/-- Word arithmetic wraps; a zero divisor gives zero. -/
def onWords (op : Arith) (a b : Int64) : Int64 :=
  match op with
  | add => a + b
  | sub => a - b
  | mul => a * b
  | div => if b = 0 then 0 else Floor.div a b
  | mod => if b = 0 then 0 else Floor.mod a b

/-- A zero divisor gives the integer zero. -/
def onFloats (op : Arith) (x y : Float) : Value :=
  match op with
  | add => .float (x + y)
  | sub => .float (x - y)
  | mul => .float (x * y)
  | div => if y == 0 then .int 0 else .float (Floor.floor (x / y))
  | mod => if y == 0 then .int 0 else .float (Floor.modulo x y)

def onNumbers (op : Arith) : Number → Number → Value
  | .int a, .int b => .int (op.onWords a b)
  | a, b => op.onFloats a.toFloat b.toFloat

def result? (op : Arith) (a b : Value) : Option Value :=
  match op, a, b with
  | add, .str s, .str t => some (.str (s ++ t))
  | mul, .str _, .str _ => none
  | mul, .str s, n => n.word?.bind (Value.repeated? s)
  | mul, n, .str s => n.word?.bind (Value.repeated? s)
  | _, _, _ =>
    match a.number?, b.number? with
    | some m, some n => some (op.onNumbers m n)
    | _, _ => none

end Arith

namespace Bitwise

def onWords (op : Bitwise) (a b : Int64) : Int64 :=
  match op with
  | and => a &&& b
  | or => a ||| b
  | xor => a ^^^ b

def result? (op : Bitwise) (a b : Value) : Option Value :=
  match a.word?, b.word? with
  | some m, some n => some (.int (op.onWords m n))
  | _, _ => none

end Bitwise

namespace Comparison

def onWords (op : Comparison) (a b : Int64) : Bool :=
  match op with
  | greater => b < a
  | less => a < b
  | equal => a = b

def onFloats (op : Comparison) (x y : Float) : Bool :=
  match op with
  | greater => y < x
  | less => x < y
  | equal => x == y

def onNumbers (op : Comparison) : Number → Number → Bool
  | .int a, .int b => op.onWords a b
  | a, b => op.onFloats a.toFloat b.toFloat

def onStrings (op : Comparison) (s t : Bytes) : Bool :=
  match op with
  | greater => Bytes.less t s
  | less => Bytes.less s t
  | equal => s == t

/-- Strings and numbers are unequal, but have no order. -/
def holds? (op : Comparison) (a b : Value) : Option Bool :=
  match a, b with
  | .str s, .str t => some (op.onStrings s t)
  | _, _ =>
    match a.number?, b.number? with
    | some m, some n => some (op.onNumbers m n)
    | _, _ => if op = equal then some false else none

def result? (op : Comparison) (a b : Value) : Option Value :=
  (op.holds? a b).map fun r => .int (if r then 1 else 0)

end Comparison
end LineMachine
