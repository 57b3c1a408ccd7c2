import LineMachine.Proofs.Changes
import LineMachine.Proofs.Loading
import LineMachine.Proofs.Lockstep

/-! Resetting a machine. It forgets everything but what it was given, what was written and recorded, and
its limit, so a run that takes nothing from outside is repeated by the run after a reset. -/
namespace LineMachine

def Program.SelfContained (p : Program) : Prop := ∀ i ∈ p.lines, i.op.isSelfContained = true

instance (p : Program) : Decidable p.SelfContained :=
  inferInstanceAs (Decidable (∀ i ∈ p.lines, _))

namespace Machine

/-- What becomes of a machine that is handled from outside, lets itself be stepped and runs, all in any
order. -/
inductive Handled (p : Program) : Machine → Prop
  | new (s : Setup) : Handled p (.new p s)
  | setGas {m : Machine} (g : Int64) : Handled p m → Handled p (m.setGas g)
  | push {m : Machine} (v : Value) : Handled p m → Handled p (m.push v)
  | pop {m : Machine} : Handled p m → Handled p m.pop.2
  | setVar {m : Machine} (name : Bytes) (v : Value) : Handled p m → Handled p (m.setVar name v)
  | memWrite {m : Machine} (address n : Int64) : Handled p m → Handled p (m.memWrite address n)
  | step {m t : Machine} : Handled p m → m.step? = some t → Handled p t
  | run {m : Machine} (n : Nat) : Handled p m → Handled p (m.runFor n).2

/-- Where there is no limit to refill the gas to, the gas is untouched. -/
structure Refillable (p : Program) (m : Machine) : Prop where
  program : m.program = p
  gas : 0 < m.maxGas ∨ m.gas = m.maxGas

/-- What the machine was given is still as it was given. -/
structure Supplied (p : Program) (s : Setup) (m : Machine) : Prop where
  program : m.program = p
  input : m.input = s.input
  random : m.random = s.random
  prompt : m.prompt = s.prompt
  debug : m.debug = s.debug

/-- The machine with something written and recorded before. -/
def following (m : Machine) (output : Array UInt8) (journal : Array Log.Record) : Machine :=
  { m with output := output ++ m.output, journal := journal ++ m.journal }

variable {p : Program} {s : Setup} {m t e : Machine} {i : Instruction} {o : Outcome} {g : Int64}
  {n : Nat} {output : Array UInt8} {journal : Array Log.Record}

theorem execute_gas (m : Machine) (i : Instruction) : (m.execute i).gas = m.gas := by
  rw [execute_change]

theorem refillable_execute (h : Refillable p m) (i : Instruction) : Refillable p (m.execute i) where
  program := by rw [execute_program, h.program]
  gas := by
    rw [execute_maxGas, execute_gas]
    exact h.gas

/-- Only under a positive limit is there anything to pay with. -/
theorem refillable_pay (h : Refillable p m) (hg : m.consumeGas? 1 = some { m with gas := g }) :
    Refillable p { m with gas := g } where
  program := h.program
  gas := by
    rcases h.gas with hpos | hgas
    · exact Or.inl hpos
    · unfold consumeGas? at hg
      split at hg
      · have hkept := congrArg Machine.gas (Option.some.inj hg)
        exact Or.inr (hkept.symm.trans hgas)
      · split at hg
        · cases hg
        · rename_i hpaid
          rw [hgas, Int64.not_lt] at hpaid
          exact Or.inl (Int64.lt_of_lt_of_le (by decide) hpaid)

theorem refillable_runFor (h : Refillable p m) (n : Nat) : Refillable p (m.runFor n).2 :=
  runFor_invariant (fun _ i hm _ => refillable_execute hm i) (fun _ _ hm hg => refillable_pay hm hg)
    (fun _ _ hm => ⟨hm.program, hm.gas⟩) h

theorem refillable_of_handled (h : Handled p m) : Refillable p m := by
  induction h with
  | new s => exact ⟨rfl, Or.inr rfl⟩
  | setGas g _ ih => exact ⟨ih.program, Or.inr rfl⟩
  | push v _ ih => exact ⟨ih.program, ih.gas⟩
  | pop _ ih =>
    rw [pop_eq]
    exact ⟨ih.program, ih.gas⟩
  | setVar name v _ ih => exact ⟨ih.program, ih.gas⟩
  | memWrite address n _ ih =>
    unfold memWrite
    split <;> exact ⟨ih.program, ih.gas⟩
  | step _ hstep ih =>
    obtain ⟨i, -, rfl⟩ := Option.map_eq_some_iff.mp hstep
    exact refillable_execute ih i
  | run n _ ih => exact refillable_runFor ih n

theorem reset_eq (h : Refillable p m) :
    m.reset = { (new p ⟨m.input, m.random, m.prompt, m.debug⟩).setGas m.maxGas with
      output := m.output
      journal := m.journal } := by
  have hgas : (if 0 < m.maxGas then m.maxGas else m.gas) = m.maxGas := by
    split
    · rfl
    · rename_i hpos
      exact h.gas.resolve_left hpos
  simp only [reset, hgas, h.program, setGas, new]

theorem supplied_execute (h : Supplied p s m) (hi : i.op.isSelfContained = true) :
    Supplied p s (m.execute i) := by
  have hkept := keepsSources_change (m := m) hi
  have hfields := execute_change m i
  rw [hkept.input, hkept.random] at hfields
  rw [hfields]
  exact ⟨h.program, h.input, h.random, h.prompt, h.debug⟩

theorem supplied_runFor (hp : p.SelfContained) (h : Supplied p s m) (n : Nat) :
    Supplied p s (m.runFor n).2 := by
  refine runFor_preserves ?_ ?_ ?_ h
  · intro m i hm hi
    obtain ⟨-, hline⟩ := current?_eq_some.mp (pending?_eq_some.mp hi).2
    rw [hm.program] at hline
    exact supplied_execute hm (hp i (Array.mem_of_getElem? hline))
  · intro m a hm
    exact ⟨hm.program, hm.input, hm.random, hm.prompt, hm.debug⟩
  · intro m c hm
    exact ⟨hm.program, hm.input, hm.random, hm.prompt, hm.debug⟩

theorem journal_trace_following :
    ((m.following output journal).trace i).journal = journal ++ (m.trace i).journal := by
  have hdebug : (m.following output journal).debug = m.debug := rfl
  unfold trace
  rw [hdebug]
  split <;> simp [following, log]

theorem next_following : (m.following output journal).next i = m.next i := by
  simp only [next, jump?, pop_fst]
  rfl

theorem append_append_list {α : Type} (a b : Array α) (l : List α) :
    a ++ b ++ l = a ++ (b ++ l) := by
  apply Array.toList_inj.mp
  simp

/-- No instruction looks at what was written and recorded. -/
theorem execute_following :
    (m.following output journal).execute i = (m.execute i).following output journal := by
  have hchange : (m.following output journal).change i = m.change i := rfl
  have hat : (m.following output journal).faultAt = m.faultAt := rfl
  rw [execute_change, execute_change m, hchange, hat, journal_trace_following, next_following]
  unfold control following
  simp only [append_append_list]
  cases i.op <;> rfl

theorem fault_following (c : Cause) :
    (m.following output journal).fault c = (m.fault c).following output journal := by
  have hcurrent : (m.following output journal).current? = m.current? := rfl
  unfold fault
  rw [hcurrent]
  simp [following]

theorem lockstep_following (output : Array UInt8) (journal : Array Log.Record) :
    Lockstep fun m m' => m' = m.following output journal where
  gas m m' h := by rw [h]; rfl
  maxGas m m' h := by rw [h]; rfl
  steps m m' h := by rw [h]; rfl
  stopped m m' h := by rw [h]; rfl
  execute m m' i i' h hi hi' := by
    subst h
    have heq : (m.following output journal).pending? = m.pending? := rfl
    rw [heq, hi] at hi'
    cases hi'
    exact execute_following
  pay m m' a h := by rw [h]; rfl
  stop m m' c h := by
    rw [h, fault_following]
    rfl

theorem Ends.following (h : m.Ends o e) (output : Array UInt8) (journal : Array Log.Record) :
    (m.following output journal).Ends o (e.following output journal) := by
  obtain ⟨ho, n, hn⟩ := h
  obtain ⟨houtcome, hend⟩ := (lockstep_following output journal).runFor rfl n (m := m)
  rw [hn] at houtcome hend
  exact ⟨ho, n, Prod.ext houtcome hend⟩

/-- Resetting a machine gives a new one with its input, random source, output and journal as they are left. A
run that takes nothing from outside is repeated after it, under any limit: it ends in the same state and writes
and records the same a second time. -/
theorem reset_makes_runs_repeatable (p : Program) :
    (∀ m, Handled p m → m.reset = { new p ⟨m.input, m.random, m.prompt, m.debug⟩ with
      gas := m.maxGas
      maxGas := m.maxGas
      output := m.output
      journal := m.journal }) ∧
    (p.SelfContained → ∀ (s : Setup) (gas : Int64) o e, ((new p s).setGas gas).Ends o e →
      e.reset.Ends o { e with
        output := e.output ++ e.output
        journal := e.journal ++ e.journal }) := by
  constructor
  · intro m hm
    exact reset_eq (refillable_of_handled hm)
  · intro hp s gas o e hend
    obtain ⟨-, n, hn⟩ := id hend
    have hsupplied : Supplied p s e := by
      have hstart : Supplied p s ((new p s).setGas gas) := ⟨rfl, rfl, rfl, rfl, rfl⟩
      have hrun := supplied_runFor hp hstart n
      rwa [hn] at hrun
    have hrefillable : Refillable p e := by
      have hrun := refillable_of_handled (.run n (.setGas gas (.new s)) : Handled p _)
      rwa [hn] at hrun
    have hmax : e.maxGas = gas := by
      have hkept := runFor_preserves (P := fun m => m.maxGas = gas)
        (fun m i hm _ => by rw [execute_maxGas, hm]) (fun _ _ hm => hm) (fun _ _ hm => hm)
        (rfl : ((new p s).setGas gas).maxGas = gas) (n := n)
      rwa [hn] at hkept
    have hreset : e.reset = ((new p s).setGas gas).following e.output e.journal := by
      rw [reset_eq hrefillable, hsupplied.input, hsupplied.random, hsupplied.prompt, hsupplied.debug,
        hmax]
      simp [following, setGas, new]
    rw [hreset]
    exact hend.following e.output e.journal

/-- A loop that its limit ends, with a report, a color and a variable in it. -/
theorem reset_makes_runs_repeatable_loop :
    let s : Setup := ⟨⟨text "unread", none⟩, .scripted [7], text "? ", true⟩
    ∃ p, Program.load (text "loop") (text "COLOR red\n[\nNU x 3\n# $x\nWHAT\n]") = .ok p ∧
      p.SelfContained ∧ ∃ e, ((new p s).setGas 8).Ends (.exhausted 8) e ∧ Handled p e ∧
        e.reset = { new p ⟨e.input, e.random, e.prompt, e.debug⟩ with
          gas := 8
          maxGas := 8
          output := e.output
          journal := e.journal } ∧
        e.reset.Ends (.exhausted 8) { e with
          output := e.output ++ e.output
          journal := e.journal ++ e.journal } := by
  intro s
  obtain ⟨p, hp, hself, houtcome, hmax⟩ := Program.exists_of_loads
    (P := fun p =>
      let r := ((new p s).setGas 8).runFor 8
      p.SelfContained ∧ r.1 = .exhausted 8 ∧ r.2.maxGas = 8)
    (text "loop") (text "COLOR red\n[\nNU x 3\n# $x\nWHAT\n]") (by decide +kernel)
  obtain ⟨hreset, hrepeat⟩ := reset_makes_runs_repeatable p
  have hends : ((new p s).setGas 8).Ends (.exhausted 8) (((new p s).setGas 8).runFor 8).2 :=
    ⟨by simp, 8, Prod.ext houtcome rfl⟩
  have hhandled := Handled.run 8 (.setGas 8 (.new (p := p) s))
  refine ⟨p, hp, hself, _, hends, hhandled, ?_, hrepeat hself s 8 _ _ hends⟩
  have heq := hreset _ hhandled
  rwa [hmax] at heq

end Machine
end LineMachine
