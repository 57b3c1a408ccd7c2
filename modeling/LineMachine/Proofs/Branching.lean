import LineMachine.Proofs.Labels
import LineMachine.Proofs.Safety
import LineMachine.Proofs.StackLocality

/-! Where branches lead to, in terms of the source: behind the last line that consists of the word the
branch names and a colon, or to the next line. -/
namespace LineMachine

namespace Opcode

/-- The branch that is taken on zero, or the one that is taken on everything else. -/
def branch (zero : Bool) : Opcode := if zero then .branchZero else .branchNonzero

def branchWord (zero : Bool) : Bytes := if zero then text "?" else text "CJ"

theorem ofMnemonic_branchWord (zero : Bool) : ofMnemonic (branchWord zero) = branch zero := by
  cases zero <;> decide

end Opcode

theorem Line.IsWord.colon {x : Bytes} (h : IsWord x) : IsWord (x ++ [58]) := by
  obtain ⟨b, rest, rfl, hb⟩ := h.starts
  refine ⟨⟨b, rest ++ [58], rfl, hb⟩, ?_⟩
  exact List.forall_mem_append.mpr ⟨h.continues, List.forall_mem_singleton.mpr rfl⟩

namespace Machine

open Program (DeclaredLast lineTexts)

/-- The line at the program counter is a branch to `x`, whatever words come after that. -/
def AtBranch (source : Bytes) (m : Machine) (zero : Bool) (x : Bytes) : Prop :=
  ∃ s ws, (lineTexts source)[m.pc.toNat]? = some s ∧
    Line.words s = Opcode.branchWord zero :: x :: ws

/-- Where a machine goes on after one step. -/
def pcAfter? (m : Machine) : Option Int := m.step?.map Machine.pc

variable {p : Program} {m : Machine} {i : Instruction} {zero : Bool} {name source x : Bytes}
  {o : Operand} {j : Nat}

/-- A branch takes a value from the stack and moves on; apart from that there is the trace of it. -/
theorem execute_branch (hop : i.op = Opcode.branch zero) : m.execute i =
    { m with
      stack := m.stack.tail
      pc := m.next i
      steps := m.steps + 1
      journal := (m.trace i).journal } := by
  rw [execute_change]
  unfold change control
  cases zero <;> simp [hop, Opcode.branch]

theorem next_branch (hop : i.op = Opcode.branch zero) (ho : i.operand? 0 = some o) : m.next i =
    match m.program.label? o.token with
    | some j => if (m.stack.headD (.int 0)).isZero = zero then j + 1 else m.pc + 1
    | none => m.pc + 1 := by
  have htarget : m.branchTarget? i = (m.program.label? o.token).map (· + 1) := by
    simp [branchTarget?, ho]
    cases m.program.label? o.token <;> rfl
  unfold next jump?
  rw [hop, pop_fst, htarget]
  cases zero <;> cases m.program.label? o.token <;>
    cases (m.stack.headD (.int 0)).isZero <;> rfl

/-- The instruction at the program counter of a machine that is at a branch. -/
theorem branch_of_atBranch (hp : Program.load name source = .ok p) (hb : AtBranch source m zero x) :
    Line.IsWord x ∧ ∃ i o, p.lines[m.pc.toNat]? = some i ∧ i.op = Opcode.branch zero ∧
      i.operand? 0 = some o ∧ o.token = x := by
  obtain ⟨s, ws, hline, hwords⟩ := hb
  obtain ⟨i, hi, hop, hoperands, hspaced⟩ := Program.exists_instruction hp hline hwords
  refine ⟨hspaced.isWord x (by simp), i, Operand.ofToken x, hi, ?_, ?_, Operand.token_ofToken x⟩
  · rw [hop, Opcode.ofMnemonic_branchWord]
  · rw [Instruction.operand?, hoperands]
    rfl

/-- No line is a branch and declares the label that the branch names. -/
theorem declaredLast_ne_pc (hp : Program.load name source = .ok p)
    (hb : AtBranch source m zero x) (hj : DeclaredLast (lineTexts source) x j) : (j : Int) ≠ m.pc := by
  obtain ⟨hword, -⟩ := branch_of_atBranch hp hb
  obtain ⟨s, ws, hline, hwords⟩ := hb
  intro heq
  rw [← heq, Int.toNat_natCast, hj.1] at hline
  cases hline
  rw [(Line.Spaced.word hword.colon).words_eq] at hwords
  cases (List.cons.inj hwords).2

/-- A step at a branch, whatever is on the stack. -/
theorem step?_branch (hp : Program.load name source = .ok p) (hs : Sound p m)
    (hb : AtBranch source m zero x) : ∃ i pc, p.lines[m.pc.toNat]? = some i ∧
      m.step? = some { m with
        stack := m.stack.tail
        pc := pc
        steps := m.steps + 1
        journal := (m.trace i).journal } ∧
      (∀ j, DeclaredLast (lineTexts source) x j →
        pc = if (m.stack.headD (.int 0)).isZero = zero then (j : Int) + 1 else m.pc + 1) ∧
      (x ++ [58] ∉ lineTexts source → pc = m.pc + 1) := by
  obtain ⟨-, i, o, hi, hop, ho, hx⟩ := branch_of_atBranch hp hb
  have hcurrent : m.current? = some i := by
    rw [current?_eq_some, hs.program]
    exact ⟨hs.pc_nonneg, hi⟩
  have hnext := next_branch (m := m) hop ho
  rw [hs.program, hx] at hnext
  refine ⟨i, m.next i, hi, ?_, ?_, ?_⟩
  · rw [step?, hcurrent, Option.map_some, execute_branch hop]
  · intro j hj
    rw [hnext, (Program.label?_load hp x j).mpr hj]
  · intro hnone
    cases hlabel : p.label? x with
    | none => rw [hnext, hlabel]
    | some j =>
      have hj := (Program.label?_load hp x j).mp hlabel
      exact absurd (List.mem_of_getElem? hj.1) hnone

theorem pcAfter?_eq_iff (hp : Program.load name source = .ok p) (hs : Sound p m)
    (hb : AtBranch source m zero x) (hj : DeclaredLast (lineTexts source) x j) :
    m.pcAfter? = some ((j : Int) + 1) ↔ (m.stack.headD (.int 0)).isZero = zero := by
  have hne := declaredLast_ne_pc hp hb hj
  obtain ⟨i, pc, -, hstep, hdeclared, -⟩ := step?_branch hp hs hb
  have hpc := hdeclared j hj
  have hafter : m.pcAfter? = some pc := by
    rw [pcAfter?, hstep]
    rfl
  rw [hafter, Option.some_inj, hpc]
  split
  · rename_i htaken
    exact ⟨fun _ => htaken, fun _ => rfl⟩
  · rename_i hstay
    refine ⟨fun heq => ?_, fun htaken => absurd htaken hstay⟩
    omega

/-- A branch to `x` takes a value, or zero if there is none, and goes on behind the last line that declares `x`
or at the next line; nothing else changes but the count of steps and the traces. Of the two branches on the same
stack one jumps and the other does not. -/
theorem branch_leads_to_last_declaration (hp : Program.load name source = .ok p)
    (hm : Reachable p m) (hb : AtBranch source m zero x) (stack : List Value) :
    (∃ i pc, p.lines[m.pc.toNat]? = some i ∧
      (m.withStack stack).step? = some { m with
        stack := stack.tail
        pc := pc
        steps := m.steps + 1
        journal := ((m.withStack stack).trace i).journal } ∧
      (∀ j, DeclaredLast (lineTexts source) x j →
        pc = if (stack.headD (.int 0)).isZero = zero then (j : Int) + 1 else m.pc + 1) ∧
      (x ++ [58] ∉ lineTexts source → pc = m.pc + 1)) ∧
    ∀ j, DeclaredLast (lineTexts source) x j → ∀ m', Reachable p m' →
      AtBranch source m' (!zero) x →
        ((m.withStack stack).pcAfter? = some ((j : Int) + 1) ↔
          ¬(m'.withStack stack).pcAfter? = some ((j : Int) + 1)) := by
  have hclosed := Program.closed_load hp
  have hsound : ∀ {m}, Reachable p m → Sound p (m.withStack stack) := by
    intro m hm
    have hs := sound_reachable hclosed hm
    exact ⟨hs.program, hs.pc_nonneg, hs.pc_le, hs.loops, hs.calls⟩
  refine ⟨step?_branch hp (hsound hm) hb, ?_⟩
  intro j hj m' hm' hb'
  rw [pcAfter?_eq_iff hp (hsound hm) hb hj, pcAfter?_eq_iff hp (hsound hm') hb' hj]
  change (stack.headD (.int 0)).isZero = zero ↔ ¬(stack.headD (.int 0)).isZero = !zero
  cases zero <;> simp

/-- A label that is declared before the branches and behind them. On an empty stack the first branch
jumps to the end, and the second does not jump. -/
theorem branch_leads_to_last_declaration_twice :
    let source := text "again:\nP 1\n? again\nCJ again\nagain:"
    let s : Setup := ⟨⟨[], none⟩, .scripted [], text "> ", false⟩
    ∃ p, Program.load (text "twice") source = .ok p ∧
      let m := ((new p s).runFor 2).2
      let m' := ((new p s).runFor 3).2
      Reachable p m ∧ AtBranch source m true (text "again") ∧
        Reachable p m' ∧ AtBranch source m' false (text "again") ∧
        DeclaredLast (lineTexts source) (text "again") 4 ∧
        (m.withStack []).pcAfter? = some 5 ∧ ¬(m'.withStack []).pcAfter? = some 5 := by
  intro source s
  obtain ⟨p, hp, hpc, hpc'⟩ := Program.exists_of_loads
    (P := fun p => ((new p s).runFor 2).2.pc = 2 ∧ ((new p s).runFor 3).2.pc = 3)
    (text "twice") source (by decide +kernel)
  have hm : Reachable p ((new p s).runFor 2).2 := .run 2 (.new s)
  have hm' : Reachable p ((new p s).runFor 3).2 := .run 3 (.new s)
  have hb : AtBranch source ((new p s).runFor 2).2 true (text "again") := by
    refine ⟨text "? again", [], ?_, by decide +kernel⟩
    rw [hpc]
    decide +kernel
  have hb' : AtBranch source ((new p s).runFor 3).2 false (text "again") := by
    refine ⟨text "CJ again", [], ?_, by decide +kernel⟩
    rw [hpc']
    decide +kernel
  have hlast : DeclaredLast (lineTexts source) (text "again") 4 := by
    refine ⟨by decide +kernel, ?_⟩
    intro k hk
    have hlength : (lineTexts source).length = 5 := by decide +kernel
    have hlt := (List.getElem?_eq_some_iff.mp hk).choose
    omega
  obtain ⟨⟨i, pc, -, hstep, hdeclared, -⟩, hone⟩ := branch_leads_to_last_declaration hp hm hb []
  have hjump : (((new p s).runFor 2).2.withStack []).pcAfter? = some 5 := by
    rw [pcAfter?, hstep, hdeclared 4 hlast]
    rfl
  exact ⟨p, hp, hm, hb, hm', hb', hlast, hjump, (hone 4 hlast _ hm' hb').mp hjump⟩

end Machine
end LineMachine
