import LineMachine.Proofs.Changes
import LineMachine.Proofs.Formatting
import LineMachine.Proofs.Lockstep

/-! Formatting a source does not change what the program does. The texts of lines are only read to
say in a report where something went wrong. -/
namespace LineMachine

/-- A fault without the text of its line. -/
def Fault.unlined (f : Fault) : Fault := { f with line := [] }

/-- A record without the text of a line. -/
def Log.Record.unlined (r : Log.Record) : Log.Record :=
  { r with attrs := r.attrs.filter fun a => a.1 ≠ text "line" }

namespace Machine

/-- The state of `m`, but with another program and the reports of `v`. -/
def reportedAs (m : Machine) (p : Program) (v : Machine) : Machine :=
  { m with program := p, faults := v.faults, journal := v.journal }

/-- Machines that run `p` and `p'` are in the same state and have reported the same, apart from the
texts of lines. -/
structure Matching (p p' : Program) (m m' : Machine) : Prop where
  program : m.program = p
  state : m' = m.reportedAs p' m'
  faults : m'.faults.map Fault.unlined = m.faults.map Fault.unlined
  journal : m'.journal.map Log.Record.unlined = m.journal.map Log.Record.unlined

variable {p p' : Program} {m m' : Machine} {i : Instruction}

theorem execute_bare (m : Machine) (i : Instruction) : m.execute i.bare = m.execute i := rfl

theorem current?_matching (hr : p.Reformatted p') (h : Matching p p' m m') :
    m'.current?.map Instruction.bare = m.current?.map Instruction.bare := by
  have hlines : ∀ j : Nat, p'.lines[j]?.map Instruction.bare = p.lines[j]?.map Instruction.bare := by
    intro j
    rw [← Array.getElem?_map, ← Array.getElem?_map, hr.lines]
  rw [h.state]
  unfold current?
  rw [h.program]
  change (if 0 ≤ m.pc then p'.lines[m.pc.toNat]? else none).map _ = _
  split
  · exact hlines _
  · rfl

theorem pending?_matching (hr : p.Reformatted p') (h : Matching p p' m m') :
    m'.pending?.map Instruction.bare = m.pending?.map Instruction.bare := by
  have hrunning : m'.running = m.running := by
    rw [h.state]
    rfl
  unfold pending?
  rw [hrunning]
  split
  · exact current?_matching hr h
  · rfl

/-- A branch goes to the same line in both programs if its label is bound to the same line. -/
theorem next_reportedAs {v : Machine}
    (hi : ∀ o ∈ i.operands, p'.label? o.token = m.program.label? o.token) :
    (m.reportedAs p' v).next i = m.next i := by
  have hbranch : (m.reportedAs p' v).branchTarget? i = m.branchTarget? i := by
    unfold branchTarget?
    cases ho : i.operand? 0 with
    | none => rfl
    | some o =>
      have hlabel := hi o (List.mem_of_getElem? ho)
      change (p'.label? o.token).bind _ = (m.program.label? o.token).bind _
      rw [hlabel]
  unfold next jump?
  simp only [pop_fst, hbranch]
  rfl

theorem execute_reportedAs {v : Machine}
    (hi : ∀ o ∈ i.operands, p'.label? o.token = m.program.label? o.token) :
    (m.reportedAs p' v).execute i =
      (m.execute i).reportedAs p' ((m.reportedAs p' v).execute i) := by
  have hchange : (m.reportedAs p' v).change i = m.change i := rfl
  rw [execute_change m, execute_change (m.reportedAs p' v), next_reportedAs hi, hchange]
  unfold control
  cases i.op <;> rfl

theorem unlined_faultAt (h : Matching p p' m m') (c : Cause) :
    (m'.faultAt c).unlined = (m.faultAt c).unlined ∧
      (faultRecord (m'.faultAt c)).unlined = (faultRecord (m.faultAt c)).unlined := by
  rw [h.state]
  exact ⟨rfl, rfl⟩

theorem unlined_trace (h : Matching p p' m m') (i : Instruction) :
    (m'.trace i).journal.map Log.Record.unlined = (m.trace i).journal.map Log.Record.unlined := by
  have hjournal := h.journal
  rw [h.state] at hjournal ⊢
  unfold trace
  change (if m.debug then _ else _ : Machine).journal.map _ = _
  split
  · simp only [log, Array.map_push]
    rw [hjournal]
    rfl
  · exact hjournal

theorem matching_execute (h : Matching p p' m m')
    (hi : ∀ o ∈ i.operands, p'.label? o.token = p.label? o.token) :
    Matching p p' (m.execute i) (m'.execute i) := by
  rw [← h.program] at hi
  have hstate := execute_reportedAs (v := m') hi
  rw [← h.state] at hstate
  have hchange : m'.change i = m.change i := by
    rw [h.state]
    rfl
  refine ⟨execute_program.trans h.program, hstate, ?_, ?_⟩
  · rw [execute_change m, execute_change m']
    apply map_append_congr h.faults
    rw [hchange, List.map_map, List.map_map]
    exact List.map_congr_left fun c _ => (unlined_faultAt h c).1
  · rw [execute_change m, execute_change m']
    apply map_append_congr (unlined_trace h i)
    rw [hchange, List.map_map, List.map_map]
    exact List.map_congr_left fun c _ => (unlined_faultAt h c).2

theorem matching_fault (h : Matching p p' m m') (c : Cause) :
    Matching p p' (m.fault c) (m'.fault c) := by
  have hfault := unlined_faultAt h c
  refine ⟨h.program, ?_, ?_, ?_⟩
  · rw [h.state]
    rfl
  · change (m'.faults.push (m'.faultAt c)).map _ = (m.faults.push (m.faultAt c)).map _
    rw [Array.map_push, Array.map_push, h.faults, hfault.1]
  · change (m'.journal.push (faultRecord (m'.faultAt c))).map _ =
      (m.journal.push (faultRecord (m.faultAt c))).map _
    rw [Array.map_push, Array.map_push, h.journal, hfault.2]

/-- Instructions of a loaded program only name labels that formatting keeps. -/
theorem lockstep_matching {name source : Bytes} (hp : Program.load name source = .ok p)
    (hr : p.Reformatted p') : Lockstep (Matching p p') where
  gas m m' h := by rw [h.state]; rfl
  maxGas m m' h := by rw [h.state]; rfl
  steps m m' h := by rw [h.state]; rfl
  stopped m m' h := by
    have hpending := pending?_matching hr h
    rw [← Option.map_eq_none_iff (f := Instruction.bare), ← hpending, Option.map_eq_none_iff]
  execute m m' i i' h hi hi' := by
    have hpending := pending?_matching hr h
    rw [hi, hi'] at hpending
    have hbare : i'.bare = i.bare := Option.some.inj hpending
    rw [← execute_bare m' i', hbare, execute_bare]
    have hmem : i ∈ p.lines := by
      obtain ⟨-, hcurrent⟩ := pending?_eq_some.mp hi
      rw [← h.program]
      exact Array.mem_of_getElem? (current?_eq_some.mp hcurrent).2
    apply matching_execute h
    intro o ho
    exact hr.labels o.token ⟨name, source, p, hp, i, hmem, o, ho, rfl⟩
  pay m m' a h := by
    refine ⟨h.program, ?_, h.faults, h.journal⟩
    rw [h.state]
    rfl
  stop m m' c h := by
    have hfault := matching_fault h c
    refine ⟨h.program, ?_, hfault.faults, hfault.journal⟩
    rw [hfault.state]
    rfl

/-- Every source can be loaded and formatted. What was formatted loads to the same instructions, it is
not changed by formatting it once more, and with the same setup and limit both programs run alike,
except that reports show the lines as they are written. -/
theorem formatting_does_not_matter (name source : Bytes) : ∃ p p',
    Program.load name source = .ok p ∧ Program.load name p.source = .ok p' ∧
      p.Reformatted p' ∧ p'.source = p.source ∧
      ∀ (setup : Setup) (gas : Int64) (n : Nat),
        let m := ((new p setup).setGas gas).runFor n
        let m' := ((new p' setup).setGas gas).runFor n
        m'.1 = m.1 ∧ Matching p p' m.2 m'.2 := by
  obtain ⟨p, hp⟩ := Program.exists_load name source
  obtain ⟨p', hp', hr⟩ := Program.reformatted_load hp
  refine ⟨p, p', hp, hp', hr, hr.source, ?_⟩
  intro setup gas n
  have hstart : Matching p p' ((new p setup).setGas gas) ((new p' setup).setGas gas) :=
    ⟨rfl, rfl, rfl, rfl⟩
  exact (lockstep_matching hp hr).runFor hstart n

end Machine
end LineMachine
