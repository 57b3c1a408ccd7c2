/-! Floats as exact numbers: taking one apart, and rounding a fraction to the nearest one. -/
namespace LineMachine.Binary64

/-- A finite float is `significand * 2 ^ exponent`, up to its sign. -/
inductive Parts where
  | nan
  | infinite (negative : Bool)
  | finite (negative : Bool) (significand : Nat) (exponent : Int)
  deriving DecidableEq

/-- The significands of normal floats start here. -/
def hidden : Nat := 1 <<< 52

def parts (x : Float) : Parts :=
  let bits := x.toBits.toNat
  let negative := decide (1 <<< 63 ≤ bits)
  let field := (bits >>> 52) % 2048
  let fraction := bits % hidden
  if field = 2047 then
    if fraction = 0 then .infinite negative else .nan
  else if field = 0 then .finite negative fraction (-1074)
  else .finite negative (hidden + fraction) (field - 1075)

def isNaN (x : Float) : Bool := parts x = .nan

def ofMagnitude (negative : Bool) (bits : Nat) : Float :=
  Float.ofBits (UInt64.ofNat (if negative then (1 <<< 63) + bits else bits))

def infinity (negative : Bool) : Float := ofMagnitude negative (2047 <<< 52)

def nan : Float := Float.ofBits 0x7FF8000000000000

/-- `n / d` to the nearest natural number, a half to the even one. -/
def roundDiv (n d : Nat) : Nat :=
  let q := n / d
  let r := n % d
  if 2 * r < d then q else if d < 2 * r then q + 1 else q + q % 2

/-- The float nearest to `n / d`, or infinity beyond the largest one. The bits of a float are
`(exponent + 1074) * 2 ^ 52 + significand` for normal and subnormal numbers alike, which also
carries a significand that was rounded up to a power of two into the exponent. -/
def ofRatio (negative : Bool) (n d : Nat) : Float :=
  if n = 0 then ofMagnitude negative 0
  else
    let k : Int := (n.log2 : Int) - d.log2
    let k := if d <<< k.toNat ≤ n <<< (-k).toNat then k else k - 1
    let q : Int := if k - 52 < -1074 then -1074 else k - 52
    let m := roundDiv (n <<< (-q).toNat) (d <<< q.toNat)
    let bits := ((q + 1074).toNat <<< 52) + m
    if 2047 <<< 52 ≤ bits then infinity negative else ofMagnitude negative bits

/-- The float nearest to an integer. -/
def ofInt (n : Int) : Float := ofRatio (n < 0) n.natAbs 1

/-- `m * 2 ^ e`, rounded. -/
def ofBinary (negative : Bool) (m : Nat) (e : Int) : Float :=
  ofRatio negative (m <<< e.toNat) (1 <<< (-e).toNat)

/-- `m * 10 ^ e`, rounded. -/
def ofDecimal (negative : Bool) (m : Nat) (e : Int) : Float :=
  ofRatio negative (m * Nat.pow 10 e.toNat) (Nat.pow 10 (-e).toNat)

/-- Truncation toward zero; what does not fit gives the least word. -/
def toInt64 (x : Float) : Int64 :=
  match parts x with
  | .finite negative m e =>
    let n : Nat := (m <<< e.toNat) >>> (-e).toNat
    if n < 1 <<< 63 then Int64.ofInt (if negative then -(n : Int) else n) else Int64.minValue
  | _ => Int64.minValue

end LineMachine.Binary64
