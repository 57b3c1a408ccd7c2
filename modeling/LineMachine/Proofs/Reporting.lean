import LineMachine.Proofs.Changes
import LineMachine.Proofs.History
import LineMachine.Proofs.Loading

/-! The faults of a run are those of its steps, in the order of the steps and each at the line that was
executed, and every fault is logged once. -/
namespace LineMachine.Machine

/-- The faults that a step reports. All are at the line that it executes, wherever it goes on. -/
def reported (e : Machine × Instruction) : List Fault :=
  (e.1.change e.2).causes.map fun c => ⟨c, e.1.pc, e.2.text⟩

/-- The fault of a run that its gas did not last for, at the line that it would have executed next. -/
def shortage (m : Machine) : Outcome → List Fault
  | .exhausted steps => [⟨.outOfGas steps, m.pc, (m.current?.map Instruction.text).getD []⟩]
  | .finished | .unfinished => []

/-- The machine makes no traces, and has made one record of each fault. -/
structure Recorded (m : Machine) : Prop where
  quiet : m.debug = false
  journal : m.journal = m.faults.map faultRecord

variable {m : Machine} {i : Instruction} {k n : Nat}

theorem faultAt_current (h : m.current? = some i) (c : Cause) :
    m.faultAt c = ⟨c, m.pc, i.text⟩ := by
  unfold faultAt
  rw [h]
  rfl

/-- Steps only add faults behind those that are there. -/
theorem faults_execute (h : m.current? = some i) :
    (m.execute i).faults.toList = m.faults.toList ++ reported (m, i) := by
  have hat : m.faultAt = fun c => ⟨c, m.pc, i.text⟩ := funext (faultAt_current h)
  rw [execute_change, hat]
  simp [reported]

theorem faults_runFor (m : Machine) (n : Nat) : (m.runFor n).2.faults.toList =
    m.faults.toList ++
      ((m.executed n).flatMap reported ++ (m.runFor n).2.shortage (m.runFor n).1) := by
  induction n using Nat.strongRecOn generalizing m with
  | ind n ih =>
    rcases turn_cases m with hp | ⟨i, hp, hg⟩ | ⟨i, g, hp, hg⟩
    · rw [runFor_of_stopped hp, executed_of_stopped hp]
      simp [shortage]
    · rw [runFor_of_unpaid hp hg, executed_of_unpaid hp hg]
      exact Array.toList_push
    · cases n with
      | zero =>
        rw [runFor_zero_of_paid hp hg, executed_zero]
        simp [shortage]
      | succ n =>
        have hcurrent : ({ m with gas := g } : Machine).current? = some i := (pending?_eq_some.mp hp).2
        rw [runFor_succ_of_paid hp hg, executed_succ_of_paid hp hg, ih n (Nat.lt_succ_self n),
          faults_execute hcurrent, List.flatMap_cons, List.append_assoc, List.append_assoc]

/-- What a run executes is what stands at the program counter. -/
theorem current?_executed (m : Machine) (n : Nat) :
    ∀ e ∈ m.executed n, e.1.program = m.program ∧ e.1.current? = some e.2 := by
  induction n generalizing m with
  | zero =>
    rw [executed_zero]
    exact List.forall_mem_nil _
  | succ n ih =>
    rcases turn_cases m with hp | ⟨i, hp, hg⟩ | ⟨i, g, hp, hg⟩
    · rw [executed_of_stopped hp]
      exact List.forall_mem_nil _
    · rw [executed_of_unpaid hp hg]
      exact List.forall_mem_nil _
    · rw [executed_succ_of_paid hp hg]
      refine List.forall_mem_cons.mpr ⟨⟨rfl, (pending?_eq_some.mp hp).2⟩, ?_⟩
      intro e he
      obtain ⟨hprogram, hcurrent⟩ := ih _ e he
      exact ⟨hprogram.trans execute_program, hcurrent⟩

/-- A longer run executes more, after the same. -/
theorem executed_prefix (h : k ≤ n) (m : Machine) : m.executed k <+: m.executed n := by
  induction k generalizing m n with
  | zero =>
    rw [executed_zero]
    exact List.nil_prefix
  | succ k ih =>
    obtain ⟨n, rfl⟩ : ∃ j, n = j + 1 := Nat.exists_eq_succ_of_ne_zero (by omega)
    rcases turn_cases m with hp | ⟨i, hp, hg⟩ | ⟨i, g, hp, hg⟩
    · rw [executed_of_stopped hp]
      exact List.nil_prefix
    · rw [executed_of_unpaid hp hg]
      exact List.nil_prefix
    · rw [executed_succ_of_paid hp hg, executed_succ_of_paid hp hg]
      exact (List.prefix_cons_inj _).mpr (ih (Nat.le_of_succ_le_succ h) _)

theorem faults_prefix (h : k ≤ n) (m : Machine) :
    (m.runFor k).2.faults.toList <+: (m.runFor n).2.faults.toList := by
  by_cases hended : (m.runFor k).1 = .unfinished
  · have hshorter := faults_runFor m k
    rw [hended, shortage, List.append_nil] at hshorter
    obtain ⟨later, hlater⟩ := executed_prefix h m
    rw [hshorter, faults_runFor m n, ← hlater, List.flatMap_append, List.append_assoc]
    exact (List.prefix_append_right_inj _).mpr (List.prefix_append _ _)
  · obtain ⟨j, rfl⟩ := Nat.exists_eq_add_of_le h
    have hsame : m.runFor (k + j) = m.runFor k := runFor_add_of_ended rfl hended
    simp only [hsame, List.prefix_refl]

theorem Recorded.fault (h : Recorded m) (c : Cause) : Recorded (m.fault c) where
  quiet := h.quiet
  journal := by
    change m.journal.push (faultRecord (m.faultAt c)) = (m.faults.push (m.faultAt c)).map faultRecord
    rw [h.journal, Array.map_push]

theorem Recorded.execute (h : Recorded m) (i : Instruction) : Recorded (m.execute i) where
  quiet := by
    rw [execute_change]
    exact h.quiet
  journal := by
    have htrace : m.trace i = m := by
      unfold trace
      rw [h.quiet]
      rfl
    rw [execute_change, htrace, h.journal]
    apply Array.toList_inj.mp
    simp

theorem recorded_runFor (h : Recorded m) (n : Nat) : Recorded (m.runFor n).2 := by
  apply runFor_preserves ?_ ?_ ?_ h
  · intro m i hm _
    exact hm.execute i
  · intro m a hm
    exact ⟨hm.quiet, hm.journal⟩
  · intro m c hm
    exact ⟨(hm.fault c).quiet, (hm.fault c).journal⟩

/-- A logger that shows warnings shows all faults. -/
theorem Recorded.print_journal (h : Recorded m) {l : Logger} (hl : l.threshold ≤ Log.Level.warn) :
    l.print m.journal.toList = m.faults.toList.flatMap fun f => (faultRecord f).print l.format := by
  have hshown : (m.faults.toList.map faultRecord).filter (fun r => l.threshold ≤ r.level) =
      m.faults.toList.map faultRecord := by
    apply List.filter_eq_self.mpr
    intro r hr
    obtain ⟨f, -, rfl⟩ := List.mem_map.mp hr
    exact decide_eq_true hl
  unfold Logger.print
  rw [h.journal, Array.toList_map, hshown, List.flatMap_map]

/-- In a run of a new machine faults are only added at the end, by the steps in the order of execution, each at
the line of its step, and by a shortage of gas. Without traces the journal has one warning for each fault,
and a logger that shows warnings writes just these. -/
theorem faults_reported_once (p : Program) (s : Setup) (gas : Int64) (n : Nat) (l : Logger) :
    let m := (new p s).setGas gas
    let r := m.runFor n
    (∀ k ≤ n, (m.runFor k).2.faults.toList <+: r.2.faults.toList) ∧
      (∀ e ∈ m.executed n, 0 ≤ e.1.pc ∧ p.lines[e.1.pc.toNat]? = some e.2 ∧
        (e.1.execute e.2).faults.toList = e.1.faults.toList ++ reported e) ∧
      r.2.faults.toList = (m.executed n).flatMap reported ++ r.2.shortage r.1 ∧
      (s.debug = false → r.2.journal.toList = r.2.faults.toList.map fun f =>
        ⟨Log.Level.warn, Fault.codeMessage f.cause.code,
          [(text "pc", .int f.pc), (text "line", .str f.line),
            (text "detail", .str f.cause.detail)]⟩) ∧
      (s.debug = false → l.threshold ≤ Log.Level.warn →
        l.print r.2.journal.toList = r.2.faults.toList.flatMap fun f =>
          Log.Record.print ⟨Log.Level.warn, Fault.codeMessage f.cause.code,
            [(text "pc", .int f.pc), (text "line", .str f.line),
              (text "detail", .str f.cause.detail)]⟩ l.format) := by
  intro m r
  have hrecorded (hquiet : s.debug = false) : Recorded r.2 :=
    recorded_runFor ⟨hquiet, Array.map_empty.symm⟩ n
  refine ⟨fun k hk => faults_prefix hk m, ?_, faults_runFor m n, ?_, ?_⟩
  · intro e he
    obtain ⟨hprogram, hcurrent⟩ := current?_executed m n e he
    obtain ⟨hnonneg, hline⟩ := current?_eq_some.mp hcurrent
    rw [hprogram] at hline
    exact ⟨hnonneg, hline, faults_execute hcurrent⟩
  · intro hquiet
    rw [(hrecorded hquiet).journal, Array.toList_map]
    rfl
  · intro hquiet hl
    exact (hrecorded hquiet).print_journal hl

/-- Two faults of one step, one inside a loop, and one at the line that the gas did not last for. -/
theorem faults_reported_once_jump :
    let s : Setup := ⟨⟨[], none⟩, .scripted [], text "> ", false⟩
    let l : Logger := ⟨Log.Level.info, .plain⟩
    ∃ p, Program.load (text "faulty") (text "MSET a b\n[\nWHAT\n]") = .ok p ∧
      let r := ((new p s).setGas 5).runFor 9
      s.debug = false ∧ l.threshold ≤ Log.Level.warn ∧
        r.2.faults.toList.map Fault.pc = [0, 0, 2, 2] ∧
        r.2.journal.toList = (r.2.faults.toList.map fun f =>
          ⟨Log.Level.warn, Fault.codeMessage f.cause.code,
            [(text "pc", .int f.pc), (text "line", .str f.line),
              (text "detail", .str f.cause.detail)]⟩) ∧
        l.print r.2.journal.toList = r.2.faults.toList.flatMap fun f =>
          Log.Record.print ⟨Log.Level.warn, Fault.codeMessage f.cause.code,
            [(text "pc", .int f.pc), (text "line", .str f.line),
              (text "detail", .str f.cause.detail)]⟩ l.format := by
  intro s l
  obtain ⟨p, hp, hpcs⟩ := Program.exists_of_loads
    (P := fun p => (((new p s).setGas 5).runFor 9).2.faults.toList.map Fault.pc = [0, 0, 2, 2])
    (text "faulty") (text "MSET a b\n[\nWHAT\n]") (by decide +kernel)
  have hl : l.threshold ≤ Log.Level.warn := by decide
  obtain ⟨-, -, -, hrecords, hprinted⟩ := faults_reported_once p s 5 9 l
  exact ⟨p, hp, rfl, hl, hpcs, hrecords rfl, hprinted rfl hl⟩

end LineMachine.Machine
