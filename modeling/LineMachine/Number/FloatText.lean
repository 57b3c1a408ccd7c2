import LineMachine.Number.Decimal
import LineMachine.Number.Shortest

/-! How floats are printed: the fewest digits that read back, positional between `1e-4` and `1e16`
and always with a point, in exponent form outside. -/
namespace LineMachine.FloatText

/-- Significant digits without trailing zeros, and the place of the point: the number is
`0.d₁d₂… * 10 ^ point`. -/
structure Digits where
  digits : Bytes
  point : Int

def digitsOf (d : Shortest.Decimal) : Digits :=
  let ds := Decimal.ofNat d.digits
  ⟨Bytes.trimEndWhile (· = 48) ds, ds.length + d.exponent⟩

def zeros (n : Int) : Bytes := List.replicate n.toNat 48

def positional (d : Digits) : Bytes :=
  if d.point ≤ 0 then text "0." ++ zeros (-d.point) ++ d.digits
  else
    let whole := d.digits.take d.point.toNat
    let fraction := d.digits.drop d.point.toNat
    whole ++ zeros (d.point - whole.length) ++ [46] ++ if fraction = [] then [48] else fraction

/-- One digit before the point, and a sign and at least two digits in the exponent. -/
def scientific (d : Digits) : Bytes :=
  let fraction := d.digits.drop 1
  let e := d.point - 1
  d.digits.take 1 ++ (if fraction = [] then [] else 46 :: fraction) ++ [101] ++
    [if e < 0 then 45 else 43] ++ Bytes.padLeft 2 48 (Decimal.ofNat e.natAbs)

def magnitude (m : Nat) (e : Int) : Bytes :=
  if m = 0 then text "0.0"
  else
    let d := digitsOf (Shortest.ofBinary m e)
    if d.point ≤ -4 ∨ 17 ≤ d.point then scientific d else positional d

def sign (negative : Bool) : Bytes := if negative then [45] else []

def ofFloat (x : Float) : Bytes :=
  match Binary64.parts x with
  | .nan => text "nan"
  | .infinite negative => sign negative ++ text "inf"
  | .finite negative m e => sign negative ++ magnitude m e

end LineMachine.FloatText
