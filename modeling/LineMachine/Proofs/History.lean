import LineMachine.Proofs.Execution

/-! The history of a run: the instructions it executed, each with the state it was executed in. What
every step updates in one way can be replayed from the history. -/
namespace LineMachine.Machine

/-- The instructions that a run executes within `n` steps, in order, each with the state before it. -/
def executed (n : Nat) (m : Machine) : List (Machine × Instruction) :=
  match m.pending? with
  | none => []
  | some i =>
    match m.consumeGas? 1 with
    | none => []
    | some paid =>
      match n with
      | 0 => []
      | n + 1 => (paid, i) :: executed n (paid.execute i)

variable {m t : Machine} {i : Instruction} {n : Nat}

theorem executed_of_stopped (h : m.pending? = none) : m.executed n = [] := by
  unfold executed
  rw [h]

theorem executed_of_unpaid (hp : m.pending? = some i) (hg : m.consumeGas? 1 = none) :
    m.executed n = [] := by
  unfold executed
  simp [hp, hg]

theorem executed_zero (m : Machine) : m.executed 0 = [] := by
  unfold executed
  split
  · rfl
  · split <;> rfl

theorem executed_succ_of_paid (hp : m.pending? = some i) (hg : m.consumeGas? 1 = some t) :
    m.executed (n + 1) = (t, i) :: (t.execute i).executed n := by
  rw [executed]
  simp [hp, hg]

/-- What steps update in one way, and what paying and stopping leave alone, is after a run what it
becomes along the history. -/
theorem runFor_replay {α : Type} (view : Machine → α) (update : α → Machine × Instruction → α)
    (hstep : ∀ m i, view (m.execute i) = update (view m) (m, i))
    (hpay : ∀ m a, view { m with gas := a } = view m)
    (hstop : ∀ m c, view { m.fault c with running := false } = view m) (m : Machine) (n : Nat) :
    view (m.runFor n).2 = (m.executed n).foldl update (view m) := by
  induction n using Nat.strongRecOn generalizing m with
  | ind n ih =>
    rcases turn_cases m with hp | ⟨i, hp, hg⟩ | ⟨i, g, hp, hg⟩
    · rw [runFor_of_stopped hp, executed_of_stopped hp]
      rfl
    · rw [runFor_of_unpaid hp hg, executed_of_unpaid hp hg]
      exact hstop m _
    · cases n with
      | zero =>
        rw [runFor_zero_of_paid hp hg, executed_zero]
        rfl
      | succ n =>
        rw [runFor_succ_of_paid hp hg, executed_succ_of_paid hp hg, List.foldl_cons,
          ih n (Nat.lt_succ_self n), hstep, hpay]

end LineMachine.Machine
