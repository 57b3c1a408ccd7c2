import LineMachine.Number.Decimal

/-! Integer literals with a base marker (`0b`, `0o`, `0x`, or a leading zero for octal) and with
underscores between digits. -/
namespace LineMachine.Literal

def underscore : UInt8 := 95

def lower (b : UInt8) : UInt8 := if 65 ≤ b && b ≤ 90 then b + 32 else b

/-- What an underscore may depend on: the byte just before it. -/
inductive Seen where
  | nothing
  | digit
  | underscore
  | other
  deriving DecidableEq

def dropSign : Bytes → Bytes
  | [] => []
  | b :: s => if b = 45 || b = 43 then s else b :: s

/-- Whether every underscore stands between two digits, a base marker counting as a digit. -/
def underscoresOk (s : Bytes) : Bool :=
  let s := dropSign s
  let marker := (s[1]?.map lower).filter fun b =>
    s[0]? = some 48 && (b = 98 || b = 111 || b = 120)
  let isHex := marker = some 120
  let isDigit b := Decimal.isDigit b || (isHex && 97 ≤ lower b && lower b ≤ 102)
  let step : Option Seen → UInt8 → Option Seen := fun seen b => do
    let seen ← seen
    if isDigit b then some .digit
    else if b = underscore then if seen = .digit then some .underscore else none
    else if seen = .underscore then none
    else some .other
  let last := match marker with
    | some _ => (s.drop 2).foldl step (some .digit)
    | none => s.foldl step (some .nothing)
  match last with
  | some .underscore => false
  | some _ => true
  | none => false

inductive Problem where
  | malformed
  | outOfRange
  deriving DecidableEq

def digitValue? (b : UInt8) : Option Nat :=
  if Decimal.isDigit b then some (b.toNat - 48)
  else if 97 ≤ lower b && lower b ≤ 122 then some ((lower b).toNat - 87)
  else none

/-- Base and digits of an unsigned literal. -/
def splitBase : Bytes → Nat × Bytes
  | 48 :: m :: d :: s =>
    if lower m = 98 then (2, d :: s)
    else if lower m = 111 then (8, d :: s)
    else if lower m = 120 then (16, d :: s)
    else (8, m :: d :: s)
  | 48 :: s => (8, s)
  | s => (10, s)

/-- Reads the digits from the left and gives up at the first problem: a number that leaves the
64-bit range is reported before anything wrong that follows. -/
def readNat (s : Bytes) : Except Problem Nat :=
  if s = [] then .error .malformed
  else
    let (base, digits) := splitBase s
    let step (n : Nat) (b : UInt8) : Except Problem Nat :=
      if b = underscore then .ok n
      else match digitValue? b with
        | none => .error .malformed
        | some d =>
          if base ≤ d then .error .malformed
          else if 1 <<< 64 ≤ n * base + d then .error .outOfRange
          else .ok (n * base + d)
    match digits.foldlM step 0 with
    | .error e => .error e
    | .ok n => if s.contains underscore && !underscoresOk s then .error .malformed else .ok n

def read (s : Bytes) : Except Problem Int64 :=
  let n := match s with
    | 45 :: r => (readNat r).map fun n => -(n : Int)
    | 43 :: r => (readNat r).map fun n => (n : Int)
    | _ => (readNat s).map fun n => (n : Int)
  match n with
  | .error e => .error e
  | .ok n => match Decimal.toInt64? n with
    | some w => .ok w
    | none => .error .outOfRange

end LineMachine.Literal
