import LineMachine.Text.Bytes

/-! Integers in decimal: one writer, and one reader that every integer in a program goes through. -/
namespace LineMachine.Decimal

def isDigit (b : UInt8) : Bool := 48 ≤ b && b ≤ 57

def ofNat (n : Nat) : Bytes := (Nat.toDigits 10 n).map fun c => UInt8.ofNat c.toNat

def ofInt : Int → Bytes
  | .ofNat n => ofNat n
  | .negSucc n => 45 :: ofNat (n + 1)

def ofInt64 (n : Int64) : Bytes := ofInt n.toInt

/-- The number that a row of digits stands for. -/
def value (digits : Bytes) : Nat := digits.foldl (fun n b => 10 * n + (b.toNat - 48)) 0

def readNat? (s : Bytes) : Option Nat :=
  if s ≠ [] ∧ s.all isDigit then some (value s) else none

/-- An optional sign and at least one digit. -/
def readInt? : Bytes → Option Int
  | [] => none
  | b :: s =>
    if b = 45 then (readNat? s).map fun n => -(n : Int)
    else if b = 43 then (readNat? s).map fun n => (n : Int)
    else (readNat? (b :: s)).map fun n => (n : Int)

/-- The word with value `n`, if there is one. -/
def toInt64? (n : Int) : Option Int64 :=
  if Int64.minValue.toInt ≤ n ∧ n ≤ Int64.maxValue.toInt then some (Int64.ofInt n) else none

def readInt64? (s : Bytes) : Option Int64 := (readInt? s).bind toInt64?

end LineMachine.Decimal
