import LineMachine.Proofs.Changes
import LineMachine.Proofs.Loading
import LineMachine.Proofs.Lockstep

/-! How a run is presented does not matter to what it computes. Colors and the prompt only go to the
output, a trace only goes to the journal, and loggers read the journal from outside. -/
namespace LineMachine

/-- Everything about a run that is only there to be looked at. -/
structure Presentation where
  debug : Bool
  logger : Logger
  color : Color
  prompt : Bytes

/-- What is written about a run: the records that the logger lets through, in its format. -/
def Presentation.diagnostics (v : Presentation) (m : Machine) : Bytes :=
  v.logger.print m.journal.toList

namespace Machine

/-- A machine that has not done anything yet, presented in a given way. -/
def presented (p : Program) (input : Input) (random : Random) (v : Presentation) : Machine :=
  { new p ⟨input, random, v.prompt, v.debug⟩ with color := v.color }

/-- The computation of `m` with the looks of `v`. -/
def shownAs (m v : Machine) : Machine :=
  { m with
    debug := v.debug
    color := v.color
    prompt := v.prompt
    output := v.output
    journal := v.journal }

/-- The records that are no traces of steps. -/
def reports (m : Machine) : Array Log.Record :=
  m.journal.filter fun r => Log.Level.debug < r.level

/-- Machines that compute the same and report the same. If `same` holds, they look the same too. -/
structure Alike (same : Prop) (m m' : Machine) : Prop where
  computation : m' = m.shownAs m'
  reports : m'.reports = m.reports
  looks : same → m'.color = m.color ∧ m'.prompt = m.prompt ∧ m'.output = m.output

variable {same : Prop} {m m' : Machine} {i : Instruction}

theorem change_shownAs (m v : Machine) (i : Instruction) : (m.shownAs v).change i =
    { m.change i with output := ((m.shownAs v).change i).output } := by
  unfold change
  cases i.op with
  | bitwise op => cases op <;> rfl
  | _ => rfl

theorem next_shownAs (m v : Machine) (i : Instruction) : (m.shownAs v).next i = m.next i := by
  simp only [next, jump?, pop_fst]
  rfl

theorem execute_shownAs (m v : Machine) (i : Instruction) :
    (m.shownAs v).execute i = (m.execute i).shownAs ((m.shownAs v).execute i) := by
  rw [execute_change m, execute_change (m.shownAs v), next_shownAs, change_shownAs]
  unfold control
  cases i.op <;> rfl

/-- With the same color and prompt even the output of an instruction is the same. -/
theorem change_of_looks {v : Machine} (hcolor : v.color = m.color) (hprompt : v.prompt = m.prompt) :
    (m.shownAs v).change i = m.change i := by
  unfold shownAs
  rw [hcolor, hprompt]
  rfl

theorem reports_trace (m : Machine) (i : Instruction) : (m.trace i).reports = m.reports := by
  unfold trace
  split
  · simp [reports, log]
  · rfl

theorem reports_execute (m : Machine) (i : Instruction) : (m.execute i).reports =
    m.reports ++ (m.change i).causes.map fun c => faultRecord (m.faultAt c) := by
  have hkept : ((m.change i).causes.map fun c => faultRecord (m.faultAt c)).filter
      (fun r => Log.Level.debug < r.level) =
      (m.change i).causes.map fun c => faultRecord (m.faultAt c) := by
    apply List.filter_eq_self.mpr
    intro r hr
    obtain ⟨c, -, rfl⟩ := List.mem_map.mp hr
    rfl
  rw [← reports_trace m i, execute_change]
  apply Array.toList_inj.mp
  simp [reports, hkept]

theorem reports_fault (m : Machine) (c : Cause) :
    (m.fault c).reports = m.reports.push (faultRecord (m.faultAt c)) := by
  have hlevel : decide (Log.Level.debug < (faultRecord (m.faultAt c)).level) = true := rfl
  exact Array.filter_push_of_pos hlevel (Array.size_push _)

/-- A logger that shows no traces only shows reports. -/
theorem print_reports {l : Logger} (h : Log.Level.debug < l.threshold) (m : Machine) :
    l.print m.journal.toList = l.print m.reports.toList := by
  have hsame : m.journal.toList.filter (fun r => l.threshold ≤ r.level) =
      m.reports.toList.filter fun r => l.threshold ≤ r.level := by
    rw [reports, Array.toList_filter, List.filter_filter]
    apply List.filter_congr
    intro r _
    have hlevel : l.threshold ≤ r.level → Log.Level.debug < r.level := Int.lt_of_lt_of_le h
    by_cases hr : l.threshold ≤ r.level
    · simp [hr, hlevel hr]
    · simp [hr]
  unfold Logger.print
  rw [hsame]

theorem alike_execute (h : Alike same m m') : Alike same (m.execute i) (m'.execute i) := by
  have hchange := change_shownAs m m' i
  have hexecute := execute_shownAs m m' i
  rw [← h.computation] at hchange hexecute
  refine ⟨hexecute, ?_, ?_⟩
  · have hfault : m'.faultAt = m.faultAt := by
      rw [h.computation]
      rfl
    rw [reports_execute, reports_execute, h.reports, hfault, hchange]
  · intro hsame
    obtain ⟨hcolor, hprompt, houtput⟩ := h.looks hsame
    have heq := change_of_looks (i := i) hcolor hprompt
    rw [← h.computation] at heq
    rw [execute_change, execute_change]
    simp only [heq, hcolor, hprompt, houtput, and_self]

theorem lockstep_alike (same : Prop) : Lockstep (Alike same) where
  gas m m' h := by rw [h.computation]; rfl
  maxGas m m' h := by rw [h.computation]; rfl
  steps m m' h := by rw [h.computation]; rfl
  stopped m m' h := by rw [h.computation]; rfl
  execute m m' i i' h hi hi' := by
    have heq : m'.pending? = m.pending? := by rw [h.computation]; rfl
    rw [heq, hi] at hi'
    cases hi'
    exact alike_execute h
  pay m m' a h := by
    refine ⟨?_, h.reports, h.looks⟩
    rw [h.computation]
    rfl
  stop m m' c h := by
    refine ⟨?_, ?_, h.looks⟩
    · rw [h.computation]
      rfl
    · have hfault : m'.faultAt = m.faultAt := by
        rw [h.computation]
        rfl
      change (m'.fault c).reports = (m.fault c).reports
      rw [reports_fault, reports_fault, h.reports, hfault]

/-- Two runs that are only presented in different ways, each under the same limit, have the same
outcome and compute the same. With the same color and the same prompt they write the same, and with
the same logger, unless it shows traces, the same is written about them. -/
theorem presentation_does_not_matter (p : Program) (input : Input) (random : Random) (gas : Int64)
    (v w : Presentation) (n : Nat) :
    let m := ((presented p input random v).setGas gas).runFor n
    let m' := ((presented p input random w).setGas gas).runFor n
    m'.1 = m.1 ∧ m'.2 = m.2.shownAs m'.2 ∧
      (w.color = v.color ∧ w.prompt = v.prompt → m'.2.output = m.2.output) ∧
      (w.logger = v.logger ∧ Log.Level.debug < v.logger.threshold →
        w.diagnostics m'.2 = v.diagnostics m.2) := by
  intro m m'
  have hstart : Alike (w.color = v.color ∧ w.prompt = v.prompt)
      ((presented p input random v).setGas gas) ((presented p input random w).setGas gas) :=
    ⟨rfl, rfl, fun h => ⟨h.1, h.2, rfl⟩⟩
  obtain ⟨houtcome, hend⟩ := (lockstep_alike _).runFor hstart n
  refine ⟨houtcome, hend.computation, fun h => (hend.looks h).2.2, ?_⟩
  rintro ⟨hlogger, hthreshold⟩
  unfold Presentation.diagnostics
  rw [hlogger, print_reports hthreshold, print_reports hthreshold, hend.reports]

/-- A traced run and one that is not traced, logged in different ways, write the same. -/
theorem presentation_does_not_matter_traced :
    ∃ p, Program.load (text "echo") (text "# hi\nINPUT\nWHAT\n!!") = .ok p ∧
      ∀ (input : Input) (n : Nat),
        let v : Presentation := ⟨false, ⟨Log.Level.warn, .plain⟩, .red, text "? "⟩
        let w : Presentation := ⟨true, ⟨Log.Level.debug, .json⟩, .red, text "? "⟩
        let m := ((presented p input (.scripted []) v).setGas 9).runFor n
        let m' := ((presented p input (.scripted []) w).setGas 9).runFor n
        m'.1 = m.1 ∧ m'.2 = m.2.shownAs m'.2 ∧ m'.2.output = m.2.output := by
  obtain ⟨p, hp, -⟩ := Program.exists_of_loads (P := fun _ => True) (text "echo")
    (text "# hi\nINPUT\nWHAT\n!!") (by decide +kernel)
  refine ⟨p, hp, ?_⟩
  intro input n v w
  obtain ⟨houtcome, hrest, houtput, -⟩ :=
    presentation_does_not_matter p input (.scripted []) 9 v w n
  exact ⟨houtcome, hrest, houtput ⟨rfl, rfl⟩⟩

end Machine
end LineMachine
