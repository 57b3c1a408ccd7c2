import Mathlib.Algebra.GroupWithZero.Nat
import LineMachine.Proofs.Safety

/-! Without loop ends and without branches backwards every run comes to an end, however calls are
nested: what a call end goes back for is paid for when the call head is passed. -/
namespace LineMachine

/-- Nothing but call ends leads backwards: there is no loop end, and no branch to a label before it. -/
def Program.Forward (p : Program) : Prop :=
  ∀ j (h : j < p.lines.size), p.lines[j].op ≠ .loopClose ∧
    (p.lines[j].op = .branchZero ∨ p.lines[j].op = .branchNonzero →
      ∀ o ∈ p.lines[j].operand? 0, ∀ t ∈ p.label? o.token, j ≤ t)

instance (p : Program) : Decidable p.Forward := Nat.decidableBallLT _ _

namespace Machine

/-- What the rest of a run may cost. A line costs three times what comes after it: enough for
itself, for going on, and for coming back once to the line after it. -/
def cost (p : Program) (m : Machine) : Nat :=
  3 ^ (p.size - m.pc.toNat) + (m.calls.map fun j => 3 ^ (p.size - (j + 1))).sum

variable {p : Program} {m : Machine} {i : Instruction}

/-- A jump of a forward program either returns from a call or goes ahead. -/
theorem jump?_forward (hf : p.Forward) (hs : Sound p m) (hi : m.current? = some i) {j : Nat}
    (hj : m.jump? i = some j) :
    m.pc < j ∧ i.op ≠ .callOpen ∧ i.op ≠ .callClose ∨
      i.op = .callClose ∧ ∃ c cs, m.calls = c :: cs ∧ j = c + 1 := by
  obtain ⟨hpc, hline⟩ := current?_eq_some.mp hi
  rw [hs.program] at hline
  obtain ⟨hlt, hget⟩ := Array.getElem?_eq_some_iff.mp hline
  obtain ⟨hloop, htarget⟩ := hf _ hlt
  rw [hget] at hloop htarget
  have hbranch (hop : i.op = .branchZero ∨ i.op = .branchNonzero)
      (h : m.branchTarget? i = some j) : m.pc < j := by
    obtain ⟨o, ho, h⟩ := Option.bind_eq_some_iff.mp h
    obtain ⟨t, ht, h⟩ := Option.bind_eq_some_iff.mp h
    cases h
    rw [hs.program] at ht
    have := htarget hop o ho t ht
    omega
  unfold jump? at hj
  cases hop : i.op with
  | branchZero =>
    simp only [hop] at hj
    split at hj
    · exact Or.inl ⟨hbranch (Or.inl hop) hj, by simp, by simp⟩
    · cases hj
  | branchNonzero =>
    simp only [hop] at hj
    split at hj
    · cases hj
    · exact Or.inl ⟨hbranch (Or.inr hop) hj, by simp, by simp⟩
  | loopClose => exact absurd hop hloop
  | callClose =>
    simp only [hop] at hj
    obtain ⟨c, hc, rfl⟩ := Option.map_eq_some_iff.mp hj
    obtain ⟨cs, hcs⟩ := List.head?_eq_some_iff.mp hc
    exact Or.inr ⟨rfl, c, cs, hcs, rfl⟩
  | _ => simp [hop] at hj

/-- A step goes ahead with the calls as they are, opens a call, or returns from the last one. -/
theorem forward_step_cases (hf : p.Forward) (hs : Sound p m) (hi : m.current? = some i) :
    (m.pc < m.next i ∧ (m.control i).calls = m.calls) ∨
    (m.next i = m.pc + 1 ∧ (m.control i).calls = m.pc.toNat :: m.calls) ∨
    ∃ c cs, m.calls = c :: cs ∧ m.next i = c + 1 ∧ (m.control i).calls = cs := by
  rw [control_calls]
  unfold next
  cases hj : m.jump? i with
  | some j =>
    rcases jump?_forward hf hs hi hj with ⟨hlt, hopen, hclose⟩ | ⟨hop, c, cs, hcs, rfl⟩
    · exact Or.inl ⟨hlt, by rw [if_neg hopen, if_neg hclose]⟩
    · exact Or.inr (Or.inr ⟨c, cs, hcs, by simp, by simp [hop, hcs]⟩)
  | none =>
    by_cases hopen : i.op = .callOpen
    · exact Or.inr (Or.inl ⟨rfl, if_pos hopen⟩)
    · refine Or.inl ⟨Int.lt_succ m.pc, ?_⟩
      rw [if_neg hopen]
      split
      · rename_i hclose
        have hcalls : m.calls = [] := by simpa [jump?, hclose] using hj
        rw [hcalls]
        rfl
      · rfl

theorem cost_execute_lt (hf : p.Forward) (hs : Sound p m) (hi : m.current? = some i) :
    cost p (m.execute i) < cost p m := by
  have hpc := hs.pc_nonneg
  have hlt := current?_pc_lt hs hi
  have hpos : 0 < 3 ^ (p.size - m.pc.toNat) := Nat.pow_pos (by decide)
  unfold cost
  rw [execute_calls, execute_pc]
  rcases forward_step_cases hf hs hi with ⟨hnext, hcalls⟩ | ⟨hnext, hcalls⟩ | ⟨c, cs, hm, hnext, hcalls⟩
  · rw [hcalls]
    have hpow : 3 ^ (p.size - (m.next i).toNat) < 3 ^ (p.size - m.pc.toNat) :=
      Nat.pow_lt_pow_right (by decide) (by omega)
    omega
  · have hexp : p.size - m.pc.toNat = p.size - (m.pc.toNat + 1) + 1 := by omega
    have htarget : (m.next i).toNat = m.pc.toNat + 1 := by omega
    rw [hcalls, htarget, List.map_cons, List.sum_cons, hexp, Nat.pow_succ]
    rw [hexp, Nat.pow_succ] at hpos
    omega
  · have htarget : (m.next i).toNat = c + 1 := by omega
    rw [hcalls, hm, htarget, List.map_cons, List.sum_cons]
    omega

/-- The cost bounds the number of steps. -/
theorem stops_within_cost (hp : p.Closed) (hf : p.Forward) (hs : Sound p m) :
    ∃ k ≤ cost p m, ∃ e, m.steps? k = some e ∧ e.pending? = none ∧ Sound p e := by
  induction hc : cost p m using Nat.strongRecOn generalizing m with
  | ind c ih =>
    cases hi : m.pending? with
    | none => exact ⟨0, Nat.zero_le _, m, rfl, hi, hs⟩
    | some i =>
      have hcur := (pending?_eq_some.mp hi).2
      have hlt := cost_execute_lt hf hs hcur
      rw [hc] at hlt
      obtain ⟨k, hk, e, he, hstop, hsound⟩ := ih _ hlt (sound_execute hp hs hcur) rfl
      exact ⟨k + 1, by omega, e, by rw [steps?_succ hi, he], hstop, hsound⟩

/-- A program without loop ends and without branches backwards ends by itself, within `3 ^ n` steps
for `n` lines, whatever its calls, its input and its random numbers. -/
theorem forward_run_ends {name source : Bytes} (hp : Program.load name source = .ok p)
    (hf : p.Forward) (s : Setup) :
    ∃ k ≤ 3 ^ p.size, ∃ o e, (new p s).steps? k = some e ∧ (e.running = false ∨ e.pc = p.size) ∧
      (new p s).Ends o e ∧ o.error? = none := by
  have hclosed := Program.closed_load hp
  obtain ⟨k, hk, e, he, hstop, hsound⟩ := stops_within_cost hclosed hf (sound_new p s)
  refine ⟨k, hk, .finished, e, he, stopped_cases hsound hstop, ?_, rfl⟩
  exact (ends_unlimited_iff rfl).mpr ⟨rfl, k, he, hstop⟩

/-- Calls inside each other, one call end too many, and a branch out of the inner call. -/
theorem forward_run_ends_nested :
    ∃ p, Program.load (text "calls") (text "\x7b\n\x7b\nP 0\n? out\n\x7d\nout:\n\x7d\n\x7d") = .ok p ∧
      p.Forward ∧ ∀ s : Setup, ∃ k ≤ 3 ^ p.size, ∃ o e, (new p s).steps? k = some e ∧
        (e.running = false ∨ e.pc = p.size) ∧ (new p s).Ends o e ∧ o.error? = none := by
  obtain ⟨p, hp, hf⟩ := Program.exists_of_loads (P := Program.Forward) (text "calls")
    (text "\x7b\n\x7b\nP 0\n? out\n\x7d\nout:\n\x7d\n\x7d") (by decide +kernel)
  exact ⟨p, hp, hf, forward_run_ends hp hf⟩

end Machine
end LineMachine
