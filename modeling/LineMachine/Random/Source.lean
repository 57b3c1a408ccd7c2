import LineMachine.Random.LaggedFibonacci

/-! Sources of random numbers. -/
namespace LineMachine

inductive Random where
  /-- The given draws, then zeros. -/
  | scripted (draws : List Nat)
  | seeded (g : Random.LaggedFibonacci)
  deriving DecidableEq

namespace Random

def ofSeed (seed : Int64) : Random := seeded (LaggedFibonacci.ofSeed seed)

/-- A draw below `2 ^ 63`. -/
def next : Random → Nat × Random
  | scripted [] => (0, scripted [])
  | scripted (v :: vs) => (v, scripted vs)
  | seeded g =>
    let (v, g) := g.next
    (v, seeded g)

/-- Draws until one is at most `bound`, but no more than `tries` times over. -/
def nextWithin (bound : Nat) : (tries : Nat) → Random → Nat × Random
  | 0, r => r.next
  | tries + 1, r =>
    let (v, r) := r.next
    if v ≤ bound then (v, r) else nextWithin bound tries r

/-- A script runs into its zeros; a seeded source fails this often with a chance below
`2 ^ (-4096)`. -/
def tries : Random → Nat
  | scripted vs => vs.length
  | seeded _ => 4096

/-- A number below `n`: draws from the last, incomplete block of `n` are thrown away, so that all
numbers are equally likely. -/
def below (n : Nat) (r : Random) : Nat × Random :=
  let bound := (1 <<< 63) - 1 - (1 <<< 63) % n
  let (v, r) := r.nextWithin bound r.tries
  (v % n, r)

end Random
end LineMachine
