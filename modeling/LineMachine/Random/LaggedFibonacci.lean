import LineMachine.Random.Noise

/-! The additive lagged Fibonacci generator with lags 607 and 273 on 64-bit words. -/
namespace LineMachine.Random

structure LaggedFibonacci where
  register : Vector UInt64 607
  tap : Fin 607
  feed : Fin 607
  deriving DecidableEq

namespace LaggedFibonacci

def modulus : Nat := (1 <<< 31) - 1

/-- The multiplicative generator that fills the register. -/
def seedStep (x : Nat) : Nat := 48271 * x % modulus

/-- Seeds count modulo the modulus of the filling generator, which must not start from zero. -/
def start (seed : Int) : Nat :=
  let s := (seed.emod modulus).toNat
  if s = 0 then 89482311 else s

/-- One word from three steps, and where the filling generator then stands. -/
def fillWord (x : Nat) : UInt64 × Nat :=
  let a := seedStep x
  let b := seedStep a
  let c := seedStep b
  ((UInt64.ofNat a <<< 40) ^^^ (UInt64.ofNat b <<< 20) ^^^ UInt64.ofNat c, c)

def fill (c : UInt64) : StateM Nat UInt64 := fun x =>
  let (u, x) := fillWord x
  (u ^^^ c, x)

def ofSeed (seed : Int64) : LaggedFibonacci where
  register := ((noise.mapM fill).run (Nat.repeat seedStep 20 (start seed.toInt))).1
  tap := ⟨0, by decide⟩
  feed := ⟨334, by decide⟩

/-- One place down, from the first to the last. -/
def previous (i : Fin 607) : Fin 607 := ⟨(i.val + 606) % 607, Nat.mod_lt _ (by decide)⟩

/-- A draw is the low 63 bits of the new word. -/
def next (g : LaggedFibonacci) : Nat × LaggedFibonacci :=
  let tap := previous g.tap
  let feed := previous g.feed
  let v := g.register[feed] + g.register[tap]
  ((v &&& 0x7FFFFFFFFFFFFFFF).toNat, ⟨g.register.set feed v, tap, feed⟩)

end LaggedFibonacci
end LineMachine.Random
