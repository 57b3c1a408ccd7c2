import LineMachine.Proofs.Execution

/-! Two machines that run in lockstep. A relation that every step keeps, and that paying and stopping
keep, is kept by runs, which then have the same outcome. -/
namespace LineMachine.Machine

variable {m m' : Machine} {R : Machine → Machine → Prop}

/-- Machines related by `R` have the same budget and the same count of steps, stop together, and go
on to machines related by `R`. -/
structure Lockstep (R : Machine → Machine → Prop) : Prop where
  gas : ∀ m m', R m m' → m'.gas = m.gas
  maxGas : ∀ m m', R m m' → m'.maxGas = m.maxGas
  steps : ∀ m m', R m m' → m'.steps = m.steps
  stopped : ∀ m m', R m m' → (m.pending? = none ↔ m'.pending? = none)
  execute : ∀ m m' i i', R m m' → m.pending? = some i → m'.pending? = some i' →
    R (m.execute i) (m'.execute i')
  pay : ∀ m m' a, R m m' → R { m with gas := a } { m' with gas := a }
  stop : ∀ m m' c, R m m' →
    R { m.fault c with running := false } { m'.fault c with running := false }

/-- The gas that is left of some gas under a limit after a payment, if it covers that. -/
def gasLeft? (gas maxGas amount : Int64) : Option Int64 :=
  if maxGas = 0 then some gas else if gas < amount then none else some (gas - amount)

theorem consumeGas?_eq (m : Machine) (a : Int64) :
    m.consumeGas? a = (gasLeft? m.gas m.maxGas a).map fun g => { m with gas := g } := by
  unfold consumeGas? gasLeft?
  split
  · rfl
  · split <;> rfl

theorem Lockstep.runFor (hR : Lockstep R) (h : R m m') (n : Nat) :
    (m'.runFor n).1 = (m.runFor n).1 ∧ R (m.runFor n).2 (m'.runFor n).2 := by
  induction n using Nat.strongRecOn generalizing m m' with
  | ind n ih =>
    have hleft : gasLeft? m'.gas m'.maxGas 1 = gasLeft? m.gas m.maxGas 1 := by
      rw [hR.gas m m' h, hR.maxGas m m' h]
    have hpaid := consumeGas?_eq m 1
    have hpaid' := consumeGas?_eq m' 1
    rw [hleft] at hpaid'
    cases hp : m.pending? with
    | none =>
      have hp' := (hR.stopped m m' h).mp hp
      rw [runFor_of_stopped hp, runFor_of_stopped hp']
      exact ⟨rfl, h⟩
    | some i =>
      obtain ⟨i', hp'⟩ : ∃ i', m'.pending? = some i' := by
        apply Option.ne_none_iff_exists'.mp
        intro hnone
        rw [(hR.stopped m m' h).mpr hnone] at hp
        cases hp
      cases hg : gasLeft? m.gas m.maxGas 1 with
      | none =>
        rw [hg] at hpaid hpaid'
        rw [runFor_of_unpaid hp hpaid, runFor_of_unpaid hp' hpaid', hR.steps m m' h]
        exact ⟨rfl, hR.stop m m' _ h⟩
      | some g =>
        rw [hg] at hpaid hpaid'
        cases n with
        | zero =>
          rw [runFor_zero_of_paid hp hpaid, runFor_zero_of_paid hp' hpaid']
          exact ⟨rfl, h⟩
        | succ n =>
          rw [runFor_succ_of_paid hp hpaid, runFor_succ_of_paid hp' hpaid']
          have hnext := hR.execute _ _ i i' (hR.pay m m' g h) hp hp'
          exact ih n (Nat.lt_succ_self n) hnext

end LineMachine.Machine
