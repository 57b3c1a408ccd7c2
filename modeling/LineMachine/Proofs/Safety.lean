import LineMachine.Proofs.Execution
import LineMachine.Proofs.Loading

/-! The program counter stays in the program or just behind it, and saved indices are indices of the
heads that saved them. -/
namespace LineMachine.Machine

/-- What holds of a machine between two steps. -/
structure Sound (p : Program) (m : Machine) : Prop where
  program : m.program = p
  pc_nonneg : 0 ≤ m.pc
  pc_le : m.pc ≤ p.size
  loops : ∀ j ∈ m.loops, p.opAt? j = some .loopOpen
  calls : ∀ j ∈ m.calls, p.opAt? j = some .callOpen

variable {p : Program} {m : Machine} {i : Instruction}

theorem current?_opAt? (hs : Sound p m) (hi : m.current? = some i) :
    p.opAt? m.pc.toNat = some i.op := by
  obtain ⟨-, hline⟩ := current?_eq_some.mp hi
  rw [hs.program] at hline
  simp [Program.opAt?, hline]

theorem current?_pc_lt (hs : Sound p m) (hi : m.current? = some i) : m.pc < p.size := by
  have hlt := Program.opAt?_lt (current?_opAt? hs hi)
  have := hs.pc_nonneg
  omega

/-- Jumps go to heads and to lines after heads and labels. -/
theorem jump?_le (hp : p.Closed) (hs : Sound p m) {j : Nat} (hj : m.jump? i = some j) :
    j ≤ p.size := by
  have hbranch : m.branchTarget? i = some j → j ≤ p.size := by
    intro h
    obtain ⟨o, -, h⟩ := Option.bind_eq_some_iff.mp h
    obtain ⟨t, ht, h⟩ := Option.bind_eq_some_iff.mp h
    cases h
    rw [hs.program] at ht
    exact hp _ t ht
  unfold jump? at hj
  split at hj
  · split at hj
    · exact hbranch hj
    · cases hj
  · split at hj
    · cases hj
    · exact hbranch hj
  · exact Nat.le_of_lt (Program.opAt?_lt (hs.loops j (List.mem_of_head? hj)))
  · obtain ⟨k, hk, rfl⟩ := Option.map_eq_some_iff.mp hj
    exact Program.opAt?_lt (hs.calls k (List.mem_of_head? hk))
  · cases hj

theorem next_bounds (hp : p.Closed) (hs : Sound p m) (hi : m.current? = some i) :
    0 ≤ m.next i ∧ m.next i ≤ p.size := by
  have hlt := current?_pc_lt hs hi
  have hnonneg := hs.pc_nonneg
  unfold next
  split
  · rename_i j hj
    have := jump?_le hp hs hj
    omega
  · omega

theorem control_loops_mem {j : Nat} (hj : j ∈ (m.control i).loops) :
    j ∈ m.loops ∨ i.op = .loopOpen ∧ j = m.pc.toNat := by
  rw [control_loops] at hj
  split at hj
  · rename_i hop
    rcases List.mem_cons.mp hj with rfl | hj
    · exact Or.inr ⟨hop, rfl⟩
    · exact Or.inl hj
  · exact Or.inl hj

theorem control_calls_mem {j : Nat} (hj : j ∈ (m.control i).calls) :
    j ∈ m.calls ∨ i.op = .callOpen ∧ j = m.pc.toNat := by
  rw [control_calls] at hj
  split at hj
  · rename_i hop
    rcases List.mem_cons.mp hj with rfl | hj
    · exact Or.inr ⟨hop, rfl⟩
    · exact Or.inl hj
  · split at hj
    · exact Or.inl (List.mem_of_mem_tail hj)
    · exact Or.inl hj

theorem sound_new (p : Program) (s : Setup) : Sound p (new p s) where
  program := rfl
  pc_nonneg := Int.le_refl 0
  pc_le := Int.natCast_nonneg p.size
  loops := by intro j hj; cases hj
  calls := by intro j hj; cases hj

theorem sound_execute (hp : p.Closed) (hs : Sound p m) (hi : m.current? = some i) :
    Sound p (m.execute i) where
  program := by rw [execute_program, hs.program]
  pc_nonneg := (next_bounds hp hs hi).1
  pc_le := (next_bounds hp hs hi).2
  loops := by
    intro j hj
    rw [execute_loops] at hj
    rcases control_loops_mem hj with hj | ⟨hop, rfl⟩
    · exact hs.loops j hj
    · rw [current?_opAt? hs hi, hop]
  calls := by
    intro j hj
    rw [execute_calls] at hj
    rcases control_calls_mem hj with hj | ⟨hop, rfl⟩
    · exact hs.calls j hj
    · rw [current?_opAt? hs hi, hop]

theorem sound_steps {k : Nat} {s : Machine} (hp : p.Closed) (hs : Sound p m)
    (h : m.steps? k = some s) : Sound p s := by
  induction k generalizing m with
  | zero =>
    cases h
    exact hs
  | succ k ih =>
    obtain ⟨i, hi, h⟩ := Option.bind_eq_some_iff.mp h
    exact ih (sound_execute hp hs (pending?_eq_some.mp hi).2) h

theorem sound_runFor (hp : p.Closed) (hs : Sound p m) (n : Nat) : Sound p (m.runFor n).2 := by
  refine runFor_preserves (P := Sound p) ?_ ?_ ?_ hs
  · intro m i hs hi
    exact sound_execute hp hs (pending?_eq_some.mp hi).2
  · intro m a hs
    exact ⟨hs.program, hs.pc_nonneg, hs.pc_le, hs.loops, hs.calls⟩
  · intro m c hs
    exact ⟨hs.program, hs.pc_nonneg, hs.pc_le, hs.loops, hs.calls⟩

theorem sound_reachable (hp : p.Closed) (h : Reachable p m) : Sound p m := by
  induction h with
  | new s => exact sound_new p s
  | step _ hstep ih =>
    obtain ⟨i, hi, rfl⟩ := Option.map_eq_some_iff.mp hstep
    exact sound_execute hp ih hi
  | setGas g _ ih => exact ⟨ih.program, ih.pc_nonneg, ih.pc_le, ih.loops, ih.calls⟩
  | run n _ ih => exact sound_runFor hp ih n

/-- A sound machine that does not go on has stopped or is behind the last line. -/
theorem stopped_cases (hs : Sound p m) (h : m.pending? = none) :
    m.running = false ∨ m.pc = p.size := by
  cases hr : m.running with
  | false => exact Or.inl rfl
  | true =>
    have hcur : m.current? = none := by simpa [pending?, hr] using h
    have hnonneg := hs.pc_nonneg
    have hle := hs.pc_le
    rw [current?, if_pos hnonneg, hs.program, Array.getElem?_eq_none_iff] at hcur
    change p.size ≤ _ at hcur
    exact Or.inr (by omega)

end LineMachine.Machine
