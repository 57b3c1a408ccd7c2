import LineMachine.Number.Binary64
import LineMachine.Number.Literal

/-! Reading floats: decimal, hexadecimal with a binary exponent, infinities and not-a-number. -/
namespace LineMachine.FloatReader

def spells (s : Bytes) (name : String) : Bool := s.map Literal.lower = text name

def named? (s : Bytes) : Option Float :=
  let infinite s := spells s "inf" || spells s "infinity"
  if spells s "nan" then some Binary64.nan
  else match s with
    | 45 :: r => if infinite r then some (Binary64.infinity true) else none
    | 43 :: r => if infinite r then some (Binary64.infinity false) else none
    | _ => if infinite s then some (Binary64.infinity false) else none

/-- The digits of a number with their value so far, and how many of them follow the point. -/
structure Mantissa where
  value : Nat := 0
  sawDigit : Bool := false
  point : Option Nat := none

/-- Reads digits, underscores and at most one point, and returns what follows. -/
def mantissa (base : Nat) (m : Mantissa) : Bytes → Mantissa × Bytes
  | [] => (m, [])
  | b :: s =>
    if b = Literal.underscore then mantissa base m s
    else if b = 46 then
      match m.point with
      | none => mantissa base { m with point := some 0 } s
      | some _ => (m, b :: s)
    else match (Literal.digitValue? b).filter (· < base) with
      | some d => mantissa base ⟨m.value * base + d, true, m.point.map (· + 1)⟩ s
      | none => (m, b :: s)

/-- Exponents are not read beyond five digits: what they scale is zero or out of range anyway. -/
def exponentValue (digits : Bytes) : Nat :=
  digits.foldl (fun e b =>
    if b = Literal.underscore then e
    else if e < 10000 then 10 * e + (b.toNat - 48) else e) 0

/-- An optional sign, a digit, then digits and underscores up to the end of the text. -/
def exponent? (s : Bytes) : Option Int := do
  let (negative, digits) := match s with
    | 45 :: r => (true, r)
    | 43 :: r => (false, r)
    | _ => (false, s)
  let first ← digits.head?
  if Decimal.isDigit first && digits.all (fun b => Decimal.isDigit b || b = Literal.underscore) then
    let e := exponentValue digits
    some (if negative then -(e : Int) else e)
  else none

/-- The number written in `s`, or nothing if it is malformed. Overflow gives an infinity. -/
def number? (s : Bytes) : Option Float := do
  let (negative, unsigned) := match s with
    | 45 :: r => (true, r)
    | 43 :: r => (false, r)
    | _ => (false, s)
  let (isHex, body) := match unsigned with
    | 48 :: x :: d :: r => if Literal.lower x = 120 then (true, d :: r) else (false, unsigned)
    | _ => (false, unsigned)
  let (m, rest) := mantissa (if isHex then 16 else 10) {} body
  let e ← match rest with
    | [] => if isHex then none else some 0
    | b :: r => if Literal.lower b = (if isHex then 112 else 101) then exponent? r else none
  let places : Nat := m.point.getD 0
  if !m.sawDigit || (s.contains Literal.underscore && !Literal.underscoresOk s) then none
  else if isHex then some (Binary64.ofBinary negative m.value (e - 4 * places))
  else some (Binary64.ofDecimal negative m.value (e - places))

def read? (s : Bytes) : Option Float :=
  match named? s with
  | some x => some x
  | none => (number? s).filter fun x =>
      match Binary64.parts x with
      | .finite .. => true
      | _ => false

end LineMachine.FloatReader
