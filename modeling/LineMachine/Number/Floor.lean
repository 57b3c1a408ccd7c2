import LineMachine.Number.Binary64

/-! Division that rounds toward negative infinity, and the remainder that goes with it. -/
namespace LineMachine.Floor

/-- Truncating division corrected by one when the signs differ and it is not exact. -/
def div (a b : Int64) : Int64 :=
  if a % b ≠ 0 ∧ decide (a < 0) ≠ decide (b < 0) then a / b - 1 else a / b

/-- The remainder with the sign of the divisor. -/
def mod (a b : Int64) : Int64 :=
  if a % b ≠ 0 ∧ decide (a % b < 0) ≠ decide (b < 0) then a % b + b else a % b

/-- The largest whole number not above `x`. Floats from `2 ^ 52` on are whole; zeros keep their
sign. -/
def floor (x : Float) : Float :=
  match Binary64.parts x with
  | .finite negative m e =>
    if m = 0 ∨ 0 ≤ e then x
    else
      let whole := m >>> (-e).toNat
      let exact := whole <<< (-e).toNat = m
      Binary64.ofBinary negative (if negative ∧ ¬exact then whole + 1 else whole) 0
  | _ => x

/-- The exact remainder of truncating division, with the sign of `x`. -/
def remainder (x y : Float) : Float :=
  match Binary64.parts x, Binary64.parts y with
  | .finite negative m e, .finite _ n f =>
    if n = 0 then Binary64.nan
    else
      let low := if e < f then e else f
      Binary64.ofBinary negative ((m <<< (e - low).toNat) % (n <<< (f - low).toNat)) low
  | .finite .., .infinite _ => x
  | _, _ => Binary64.nan

/-- The remainder with the sign of the divisor; one that is zero keeps its own sign. -/
def modulo (x y : Float) : Float :=
  let r := remainder x y
  if r != 0 && (r < 0) != (y < 0) then r + y else r

end LineMachine.Floor
