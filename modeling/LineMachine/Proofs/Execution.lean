import LineMachine.Proofs.Frame

/-! Runs as sequences of steps. A run is bounded by its gas, and it is observed through a bound of its
own; both are separated here from the steps themselves. -/
namespace LineMachine

/-- What a machine is given from outside before it starts. -/
structure Setup where
  input : Input
  random : Random
  prompt : Bytes
  debug : Bool

namespace Machine

/-- A machine that has not done anything yet, without a gas limit. -/
def new (p : Program) (s : Setup) : Machine :=
  { program := p, input := s.input, random := s.random, prompt := s.prompt, debug := s.debug }

/-- The machine after `n` steps, whatever they cost, if it goes on that long. -/
def steps? : Nat → Machine → Option Machine
  | 0, m => some m
  | n + 1, m => m.pending?.bind fun i => steps? n (m.execute i)

/-- The run of a machine ends with an outcome in a state, however long it takes. -/
def Ends (m : Machine) (o : Outcome) (e : Machine) : Prop :=
  o ≠ .unfinished ∧ ∃ n, m.runFor n = (o, e)

/-- What can be reached from a machine that has not done anything yet. Single steps may be taken
even of a machine that was stopped. -/
inductive Reachable (p : Program) : Machine → Prop
  | new (s : Setup) : Reachable p (.new p s)
  | step {m t : Machine} : Reachable p m → m.step? = some t → Reachable p t
  | setGas {m : Machine} (g : Int64) : Reachable p m → Reachable p (m.setGas g)
  | run {m : Machine} (n : Nat) : Reachable p m → Reachable p (m.runFor n).2

def withGas (m : Machine) (gas maxGas : Int64) : Machine :=
  { m with gas := gas, maxGas := maxGas }

variable {m s e : Machine} {i : Instruction} {o : Outcome} {k n : Nat} {a b : Int64}

theorem pending?_eq_some : m.pending? = some i ↔ m.running = true ∧ m.current? = some i := by
  unfold pending?
  split <;> simp_all

theorem current?_eq_some :
    m.current? = some i ↔ 0 ≤ m.pc ∧ m.program.lines[m.pc.toNat]? = some i := by
  unfold current?
  by_cases h : 0 ≤ m.pc <;> simp [h]

theorem pending?_eq_none_iff : m.pending? = none ↔
    ¬ (m.running ∧ 0 ≤ m.pc ∧ m.pc < m.program.size) := by
  have hline : 0 ≤ m.pc → (m.program.lines[m.pc.toNat]? = none ↔ ¬ m.pc < m.program.size) := by
    intro h
    rw [Array.getElem?_eq_none_iff, Program.size]
    omega
  unfold pending? current?
  cases m.running with
  | false => simp
  | true =>
    by_cases h : 0 ≤ m.pc
    · simpa [h] using hline h
    · simp [h]

theorem inside_of_pending (h : m.pending? = some i) :
    m.running ∧ 0 ≤ m.pc ∧ m.pc < m.program.size := by
  apply Decidable.byContradiction
  intro hout
  rw [pending?_eq_none_iff.mpr hout] at h
  cases h

theorem trace_withGas : (m.withGas a b).trace i = (m.trace i).withGas a b := by
  change (if m.debug then _ else _) = _
  unfold trace
  split <;> rfl

theorem control_withGas : (m.withGas a b).control i = (m.control i).withGas a b := by
  unfold control
  split <;> rfl

theorem next_withGas : (m.withGas a b).next i = m.next i := by
  simp only [next, jump?, pop_fst]
  rfl

/-- No instruction looks at the gas. -/
theorem execute_withGas : (m.withGas a b).execute i = (m.execute i).withGas a b := by
  obtain ⟨cs, h⟩ := execute_withData m i
  have hm := h m
  have hg := h (m.withGas a b)
  rw [withData_self, reportAll_eq] at hm
  rw [show (m.withGas a b).withData m = m.withGas a b from rfl, trace_withGas, control_withGas,
    reportAll_eq, next_withGas] at hg
  rw [hm, hg]
  rfl

theorem steps?_withGas : (m.withGas a b).steps? n = (m.steps? n).map (·.withGas a b) := by
  induction n generalizing m with
  | zero => rfl
  | succ n ih =>
    simp only [steps?, show (m.withGas a b).pending? = m.pending? from rfl]
    cases m.pending? with
    | none => rfl
    | some i =>
      change ((m.withGas a b).execute i).steps? n = _
      rw [execute_withGas, ih]
      rfl

theorem steps?_succ (h : m.pending? = some i) : m.steps? (n + 1) = (m.execute i).steps? n := by
  simp [steps?, h]

/-- The steps of a run are one after the other. -/
theorem steps?_add (h : m.steps? k = some s) : m.steps? (k + n) = s.steps? n := by
  induction k generalizing m with
  | zero =>
    cases h
    rw [Nat.zero_add]
  | succ k ih =>
    obtain ⟨i, hi, hk⟩ := Option.bind_eq_some_iff.mp h
    rw [Nat.add_right_comm, steps?_succ hi]
    exact ih hk

theorem steps?_last (h : m.steps? (k + 1) = some s) :
    ∃ r i, m.steps? k = some r ∧ r.pending? = some i ∧ s = r.execute i := by
  induction k generalizing m with
  | zero =>
    obtain ⟨i, hi, h⟩ := Option.bind_eq_some_iff.mp h
    cases h
    exact ⟨m, i, rfl, hi, rfl⟩
  | succ k ih =>
    obtain ⟨i, hi, h⟩ := Option.bind_eq_some_iff.mp h
    obtain ⟨r, j, hr, hj, hs⟩ := ih h
    exact ⟨r, j, by rw [steps?_succ hi, hr], hj, hs⟩

/-- A run either goes on for a given number of steps or stops before. -/
theorem steps?_or_stops (m : Machine) (n : Nat) :
    (∃ s, m.steps? n = some s) ∨ ∃ k < n, ∃ s, m.steps? k = some s ∧ s.pending? = none := by
  induction n generalizing m with
  | zero => exact Or.inl ⟨m, rfl⟩
  | succ n ih =>
    cases hp : m.pending? with
    | none => exact Or.inr ⟨0, Nat.succ_pos n, m, rfl, hp⟩
    | some i =>
      obtain ⟨s, hs⟩ | ⟨k, hk, s, hs, hstop⟩ := ih (m.execute i)
      · exact Or.inl ⟨s, by rw [steps?_succ hp, hs]⟩
      · exact Or.inr ⟨k + 1, Nat.succ_lt_succ hk, s, by rw [steps?_succ hp, hs], hstop⟩

/-- Where a run has stopped it stays. -/
theorem steps?_of_stopped {t : Machine} (h : m.steps? k = some s) (hstop : s.pending? = none)
    (hk : k ≤ n) (ht : m.steps? n = some t) : t = s := by
  obtain ⟨j, rfl⟩ := Nat.exists_eq_add_of_le hk
  rw [steps?_add h] at ht
  cases j with
  | zero =>
    cases ht
    rfl
  | succ j => simp [steps?, hstop] at ht

theorem runFor_of_stopped (h : m.pending? = none) : m.runFor n = (.finished, m) := by
  unfold runFor
  rw [h]

theorem runFor_of_unpaid (hp : m.pending? = some i) (hg : m.consumeGas? 1 = none) :
    m.runFor n = (.exhausted m.steps, { m.fault (.outOfGas m.steps) with running := false }) := by
  unfold runFor
  simp [hp, hg]

theorem runFor_zero_of_paid {t : Machine} (hp : m.pending? = some i)
    (hg : m.consumeGas? 1 = some t) : m.runFor 0 = (.unfinished, m) := by
  unfold runFor
  simp [hp, hg]

theorem runFor_succ_of_paid {t : Machine} (hp : m.pending? = some i)
    (hg : m.consumeGas? 1 = some t) : m.runFor (n + 1) = (t.execute i).runFor n := by
  rw [runFor]
  simp [hp, hg]

/-- The machine has stopped, or cannot pay for the next step, or pays and takes it. -/
theorem turn_cases (m : Machine) : m.pending? = none ∨
    (∃ i, m.pending? = some i ∧ m.consumeGas? 1 = none) ∨
    ∃ i g, m.pending? = some i ∧ m.consumeGas? 1 = some { m with gas := g } := by
  cases hp : m.pending? with
  | none => exact Or.inl rfl
  | some i =>
    right
    unfold consumeGas?
    split
    · exact Or.inr ⟨i, m.gas, rfl, rfl⟩
    · split
      · exact Or.inl ⟨i, rfl, rfl⟩
      · exact Or.inr ⟨i, m.gas - 1, rfl, rfl⟩

/-- What every payment, every step and stopping preserve is preserved by a run. -/
theorem runFor_invariant {P : Machine → Prop}
    (hstep : ∀ m i, P m → m.pending? = some i → P (m.execute i))
    (hpay : ∀ m a, P m → m.consumeGas? 1 = some { m with gas := a } → P { m with gas := a })
    (hstop : ∀ m c, P m → P { m.fault c with running := false })
    (h : P m) : P (m.runFor n).2 := by
  induction n using Nat.strongRecOn generalizing m with
  | ind n ih =>
    rcases turn_cases m with hp | ⟨i, hp, hg⟩ | ⟨i, g, hp, hg⟩
    · rw [runFor_of_stopped hp]
      exact h
    · rw [runFor_of_unpaid hp hg]
      exact hstop m _ h
    · cases n with
      | zero =>
        rw [runFor_zero_of_paid hp hg]
        exact h
      | succ n =>
        rw [runFor_succ_of_paid hp hg]
        exact ih n (Nat.lt_succ_self n) (hstep _ i (hpay m g h hg) hp)

/-- What every step preserves, whatever the gas, and stopping too, is preserved by a run. -/
theorem runFor_preserves {P : Machine → Prop}
    (hstep : ∀ m i, P m → m.pending? = some i → P (m.execute i))
    (hpay : ∀ m a, P m → P { m with gas := a })
    (hstop : ∀ m c, P m → P { m.fault c with running := false })
    (h : P m) : P (m.runFor n).2 :=
  runFor_invariant hstep (fun m a hm _ => hpay m a hm) hstop h

/-- A run that has ended does not go on under a larger bound. -/
theorem runFor_add_of_ended (h : m.runFor n = (o, e)) (ho : o ≠ .unfinished) :
    m.runFor (n + k) = (o, e) := by
  induction n using Nat.strongRecOn generalizing m with
  | ind n ih =>
    rcases turn_cases m with hp | ⟨i, hp, hg⟩ | ⟨i, g, hp, hg⟩
    · rw [runFor_of_stopped hp] at h ⊢
      exact h
    · rw [runFor_of_unpaid hp hg] at h ⊢
      exact h
    · cases n with
      | zero =>
        rw [runFor_zero_of_paid hp hg] at h
        cases h
        exact absurd rfl ho
      | succ n =>
        rw [runFor_succ_of_paid hp hg] at h
        rw [Nat.add_right_comm, runFor_succ_of_paid hp hg]
        exact ih n (Nat.lt_succ_self n) h

theorem Ends.unique {o' : Outcome} {e' : Machine} (h : m.Ends o e) (h' : m.Ends o' e') :
    o = o' ∧ e = e' := by
  obtain ⟨ho, n, hn⟩ := h
  obtain ⟨ho', k, hk⟩ := h'
  have hl := runFor_add_of_ended hn ho (k := k)
  have hr := runFor_add_of_ended hk ho' (k := n)
  rw [Nat.add_comm, hl] at hr
  cases hr
  exact ⟨rfl, rfl⟩

theorem ends_of_stopped (h : m.pending? = none) : m.Ends .finished m :=
  ⟨by decide, 0, runFor_of_stopped h⟩

section Unlimited

variable (hg : m.maxGas = 0)
include hg

theorem consumeGas?_unlimited (a : Int64) : m.consumeGas? a = some m := by
  simp [consumeGas?, hg]

theorem runFor_add_unlimited (h : m.steps? k = some s) : m.runFor (k + n) = s.runFor n := by
  induction k generalizing m with
  | zero =>
    cases h
    rw [Nat.zero_add]
  | succ k ih =>
    obtain ⟨i, hi, hk⟩ := Option.bind_eq_some_iff.mp h
    rw [Nat.add_right_comm, runFor_succ_of_paid hi (consumeGas?_unlimited hg 1)]
    exact ih (by rw [execute_maxGas, hg]) hk

theorem maxGas_steps (h : m.steps? k = some s) : s.maxGas = 0 := by
  induction k generalizing m with
  | zero => cases h; exact hg
  | succ k ih =>
    obtain ⟨i, hi, hk⟩ := Option.bind_eq_some_iff.mp h
    exact ih (by rw [execute_maxGas, hg]) hk

/-- Without a limit a run ends exactly where its steps stop. -/
theorem ends_unlimited_iff :
    m.Ends o e ↔ o = .finished ∧ ∃ k, m.steps? k = some e ∧ e.pending? = none := by
  constructor
  · rintro ⟨ho, n, hn⟩
    obtain ⟨s, hs⟩ | ⟨k, hk, s, hs, hstop⟩ := steps?_or_stops m n
    · have hrun := runFor_add_unlimited hg hs (n := 0)
      rw [Nat.add_zero, hn] at hrun
      cases hp : s.pending? with
      | none =>
        rw [runFor_of_stopped hp] at hrun
        cases hrun
        exact ⟨rfl, n, hs, hp⟩
      | some i =>
        rw [runFor_zero_of_paid hp (consumeGas?_unlimited (maxGas_steps hg hs) 1)] at hrun
        cases hrun
        exact absurd rfl ho
    · have hrun := runFor_add_unlimited hg hs (n := n - k)
      rw [Nat.add_sub_of_le (Nat.le_of_lt hk), hn, runFor_of_stopped hstop] at hrun
      cases hrun
      exact ⟨rfl, k, hs, hstop⟩
  · rintro ⟨rfl, k, hk, hstop⟩
    refine ⟨by decide, k, ?_⟩
    have hrun := runFor_add_unlimited hg hk (n := 0)
    rwa [Nat.add_zero, runFor_of_stopped hstop] at hrun

end Unlimited

end Machine
end LineMachine
