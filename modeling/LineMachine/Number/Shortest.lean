import LineMachine.Number.Binary64

/-! The shortest decimal that rounds back to a given float. -/
namespace LineMachine.Shortest

/-- The number `digits * 10 ^ exponent`. -/
structure Decimal where
  digits : Nat
  exponent : Int
  deriving DecidableEq

/-- The numbers that round to `m * 2 ^ e` lie between `low` and `high` quarters of the unit `2 ^ e`,
around the middle `4 * m`; below a power of two the floats are twice as dense. The ends belong to
the interval if `m` is even. -/
structure Interval where
  low : Nat
  middle : Nat
  high : Nat
  closed : Bool

def interval (m : Nat) (e : Int) : Interval where
  low := if m = Binary64.hidden ∧ -1074 < e then 4 * m - 1 else 4 * m - 2
  middle := 4 * m
  high := 4 * m + 2
  closed := m % 2 = 0

/-- The multiple of `10 ^ u` nearest to the middle, if one lies in the interval in units of
`2 ^ q`. A tie goes to the even multiple. -/
def onGrid? (i : Interval) (q u : Int) : Option Decimal :=
  let grid := Nat.pow 10 u.toNat <<< (-q).toNat
  let unit := Nat.pow 10 (-u).toNat <<< q.toNat
  let inside (c : Nat) : Bool :=
    if i.closed then i.low * unit ≤ c * grid && c * grid ≤ i.high * unit
    else i.low * unit < c * grid && c * grid < i.high * unit
  let below := i.middle * unit / grid
  let above := below + 1
  let toBelow := i.middle * unit - below * grid
  let toAbove := above * grid - i.middle * unit
  match inside below, inside above with
  | true, true =>
    if toBelow < toAbove || (toBelow = toAbove && below % 2 = 0) then some ⟨below, u⟩
    else some ⟨above, u⟩
  | true, false => some ⟨below, u⟩
  | false, true => some ⟨above, u⟩
  | false, false => none

/-- The number of digits before the point of `m * 2 ^ e`, negative for leading zeros after it. -/
def magnitude (m : Nat) (e : Int) : Int :=
  let k := ((m.log2 : Int) + e) * 30103 / 100000 + 1
  if Nat.pow 10 k.toNat <<< (-e).toNat ≤ (m * Nat.pow 10 (-k).toNat) <<< e.toNat then k + 1 else k

/-- Seventeen digits always suffice. -/
def ofBinary (m : Nat) (e : Int) : Decimal :=
  let i := interval m e
  let k := magnitude m e
  let grids := (List.range 17).map fun (n : Nat) => k - (n : Int) - 1
  (grids.findSome? (onGrid? i (e - 2))).getD ⟨m, 0⟩

end LineMachine.Shortest
