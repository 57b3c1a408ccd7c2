import LineMachine.Proofs.Reporting

/-! The machine's memory of brackets. Loop heads are never forgotten, so the list of them is their whole
history; calls are forgotten when they end, so the list of them is what pushing and popping along the
history leaves. Where loop ends and call ends lead to follows from the history alone. -/
namespace LineMachine.Machine

/-- What a run executes within `n` steps, in order: the index of each instruction and what it does. -/
def trail (n : Nat) (m : Machine) : List (Nat × Opcode) :=
  (m.executed n).map fun e => (e.1.pc.toNat, e.2.op)

/-- The indices of the loop heads in a trail, in order. -/
def loopHeads (t : List (Nat × Opcode)) : List Nat :=
  (t.filter fun e => e.2 = .loopOpen).map Prod.fst

/-- A call head is pushed, and a call end pops what was pushed last, if there is anything. -/
def replayCall (calls : List Nat) (e : Nat × Opcode) : List Nat :=
  match e.2 with
  | .callOpen => e.1 :: calls
  | .callClose => calls.tail
  | _ => calls

/-- The indices of the call heads in a trail that no call end has consumed, the last one first. -/
def openCalls (t : List (Nat × Opcode)) : List Nat := t.foldl replayCall []

variable {m : Machine} {e : Machine × Instruction} {op : Opcode} {j k n : Nat}

theorem loops_execute (m : Machine) (i : Instruction) :
    (m.execute i).loops = if i.op = .loopOpen then m.pc.toNat :: m.loops else m.loops := by
  rw [execute_loops, control_loops]

theorem calls_execute (m : Machine) (i : Instruction) :
    (m.execute i).calls = replayCall m.calls (m.pc.toNat, i.op) := by
  rw [execute_calls, control_calls, replayCall]
  cases i.op <;> rfl

theorem foldl_loopHeads (t : List (Nat × Opcode)) (loops : List Nat) :
    t.foldl (fun loops e => if e.2 = .loopOpen then e.1 :: loops else loops) loops =
      (loopHeads t).reverse ++ loops := by
  induction t generalizing loops with
  | nil => rfl
  | cons e t ih =>
    rw [List.foldl_cons, ih]
    by_cases h : e.2 = .loopOpen <;> simp [loopHeads, h]

theorem loops_runFor (m : Machine) (n : Nat) :
    (m.runFor n).2.loops = (loopHeads (m.trail n)).reverse ++ m.loops := by
  rw [← foldl_loopHeads, trail, List.foldl_map]
  exact runFor_replay Machine.loops _ loops_execute (fun _ _ => rfl) (fun _ _ => rfl) m n

theorem calls_runFor (m : Machine) (n : Nat) :
    (m.runFor n).2.calls = (m.trail n).foldl replayCall m.calls := by
  rw [trail, List.foldl_map]
  exact runFor_replay Machine.calls _ calls_execute (fun _ _ => rfl) (fun _ _ => rfl) m n

/-- Every step is counted, and nothing else is. -/
theorem steps_runFor (m : Machine) (n : Nat) :
    (m.runFor n).2.steps = m.steps + Int64.ofNat (m.trail n).length := by
  have hreplay := runFor_replay Machine.steps (fun steps _ => steps + 1)
    (fun _ _ => rfl) (fun _ _ => rfl) (fun _ _ => rfl) m n
  rw [hreplay, trail, List.length_map]
  generalize m.steps = steps
  induction m.executed n generalizing steps with
  | nil => simp
  | cons e es ih =>
    rw [List.foldl_cons, ih, List.length_cons, Int64.ofNat_add]
    grind

theorem pc_runFor_zero (m : Machine) : (m.runFor 0).2.pc = m.pc := by
  rcases turn_cases m with hp | ⟨i, hp, hg⟩ | ⟨i, g, hp, hg⟩
  · rw [runFor_of_stopped hp]
  · rw [runFor_of_unpaid hp hg]
    rfl
  · rw [runFor_zero_of_paid hp hg]

/-- A machine that executes something pays for it. -/
theorem paid_of_executed (h : m.executed n ≠ []) : ∃ i g l, n = l + 1 ∧ m.pending? = some i ∧
    m.consumeGas? 1 = some { m with gas := g } := by
  rcases turn_cases m with hp | ⟨i, hp, hg⟩ | ⟨i, g, hp, hg⟩
  · exact absurd (executed_of_stopped hp) h
  · exact absurd (executed_of_unpaid hp hg) h
  · cases n with
    | zero => exact absurd (executed_zero m) h
    | succ l => exact ⟨i, g, l, rfl, hp, hg⟩

/-- The history up to an instruction is that of the run that ends before it, the instruction is
executed where that run ends, and a run of one more step ends where the instruction leads to. -/
theorem executed_at (h : (m.executed n)[k]? = some e) :
    (m.executed n).take k = m.executed k ∧ (∃ g, e.1 = { (m.runFor k).2 with gas := g }) ∧
      (m.runFor (k + 1)).2.pc = e.1.next e.2 := by
  have hne : ∀ {m : Machine} {n k : Nat}, (m.executed n)[k]? = some e → m.executed n ≠ [] := by
    intro m n k h hnil
    rw [hnil] at h
    cases h
  induction k generalizing m n with
  | zero =>
    obtain ⟨i, g, n, rfl, hp, hg⟩ := paid_of_executed (hne h)
    rw [executed_succ_of_paid hp hg] at h
    cases h
    refine ⟨(executed_zero m).symm, ⟨g, ?_⟩, ?_⟩
    · rw [runFor_zero_of_paid hp hg]
    · rw [runFor_succ_of_paid hp hg, pc_runFor_zero]
      rfl
  | succ k ih =>
    obtain ⟨i, g, n, rfl, hp, hg⟩ := paid_of_executed (hne h)
    rw [executed_succ_of_paid hp hg] at h ⊢
    obtain ⟨htake, hstate, hpc⟩ := ih h
    rw [runFor_succ_of_paid hp hg, runFor_succ_of_paid hp hg, executed_succ_of_paid hp hg,
      List.take_succ_cons, htake]
    exact ⟨rfl, hstate, hpc⟩

theorem take_trail (h : (m.trail n)[k]? = some (j, op)) : (m.trail n).take k = m.trail k := by
  rw [trail, List.getElem?_map] at h
  obtain ⟨e, he, -⟩ := Option.map_eq_some_iff.mp h
  rw [trail, ← List.map_take, (executed_at he).1, trail]

/-- The next instruction of a trail is executed where the run has got to, and what is there. -/
theorem trail_at (h : (m.trail n)[k]? = some (j, op)) :
    m.program.opAt? j = some op ∧ ∃ g i, i.op = op ∧ (m.runFor k).2.pc = j ∧
      (m.runFor (k + 1)).2.pc = { (m.runFor k).2 with gas := g }.next i := by
  rw [trail, List.getElem?_map] at h
  obtain ⟨⟨s, i⟩, he, heq⟩ := Option.map_eq_some_iff.mp h
  obtain ⟨-, ⟨g, rfl⟩, hpc⟩ := executed_at he
  obtain ⟨hprogram, hcurrent⟩ := current?_executed m n _ (List.mem_of_getElem? he)
  obtain ⟨hnonneg, hline⟩ := current?_eq_some.mp hcurrent
  cases heq
  rw [hprogram] at hline
  refine ⟨?_, g, i, rfl, (Int.toNat_of_nonneg hnonneg).symm, hpc⟩
  exact congrArg (Option.map Instruction.op) hline

/-- A loop end leads to the loop head that was passed last. -/
theorem pc_after_loopClose (h : (m.trail n)[k]? = some (j, .loopClose)) :
    (m.runFor (k + 1)).2.pc = (m.runFor k).2.loops.headD (j + 1) := by
  obtain ⟨-, g, i, hop, hj, hpc⟩ := trail_at h
  rw [hpc, next, jump?, hop]
  simp only
  cases (m.runFor k).2.loops with
  | nil => simp [hj]
  | cons c cs => rfl

/-- A call end leads behind the call head that was pushed last. -/
theorem pc_after_callClose (h : (m.trail n)[k]? = some (j, .callClose)) :
    (m.runFor (k + 1)).2.pc = (m.runFor k).2.calls.headD j + 1 := by
  obtain ⟨-, g, i, hop, hj, hpc⟩ := trail_at h
  rw [hpc, next, jump?, hop]
  simp only
  cases (m.runFor k).2.calls with
  | nil => simp [hj]
  | cons c cs => simp

/-- In a run of a new machine the loop heads and the open calls are what the trail of its steps leaves of them.
A loop end goes on at the last loop head, a call end behind the call head that it pops, and either one at the
next line if there is none. -/
theorem brackets_replay_the_trail (p : Program) (s : Setup) (gas : Int64) (n : Nat) :
    let m := (new p s).setGas gas
    let t := m.trail n
    (m.runFor n).2.steps = Int64.ofNat t.length ∧
      (∀ (k j : Nat) op, t[k]? = some (j, op) → (m.runFor k).2.pc = j ∧ p.opAt? j = some op) ∧
      (m.runFor n).2.loops.reverse = loopHeads t ∧
      (m.runFor n).2.calls = openCalls t ∧
      (∀ k j, t[k]? = some (j, .loopClose) →
        (m.runFor (k + 1)).2.pc = ((loopHeads (t.take k)).getLast?.getD (j + 1) : Nat)) ∧
      ∀ k j, t[k]? = some (j, .callClose) →
        (m.runFor (k + 1)).2.pc = (((openCalls (t.take k)).head?.map (· + 1)).getD (j + 1) : Nat) := by
  intro m t
  have hloops : ∀ k, (m.runFor k).2.loops = (loopHeads (m.trail k)).reverse := by
    intro k
    rw [loops_runFor]
    exact List.append_nil _
  have hcalls : ∀ k, (m.runFor k).2.calls = openCalls (m.trail k) := calls_runFor m
  refine ⟨?_, ?_, ?_, hcalls n, ?_, ?_⟩
  · rw [steps_runFor]
    exact Int64.zero_add _
  · intro k j op hk
    obtain ⟨hop, -, -, -, hpc, -⟩ := trail_at hk
    exact ⟨hpc, hop⟩
  · rw [hloops, List.reverse_reverse]
  · intro k j hk
    rw [pc_after_loopClose hk, hloops, take_trail hk, List.headD_eq_head?_getD, List.head?_reverse]
  · intro k j hk
    rw [pc_after_callClose hk, hcalls, take_trail hk]
    cases openCalls (m.trail k) <;> simp

/-- A loop and a call that are not nested in each other: the call end is passed once with a call to
return to and once without, and the loop end goes back to a loop head that was passed twice. -/
theorem brackets_replay_the_trail_crossed :
    let s : Setup := ⟨⟨[], none⟩, .scripted [], text "> ", false⟩
    ∃ p, Program.load (text "crossed") (text "\x7b\n[\n\x7d\n]") = .ok p ∧
      let m := (new p s).setGas 6
      m.trail 6 = [(0, .callOpen), (1, .loopOpen), (2, .callClose), (1, .loopOpen), (2, .callClose),
          (3, .loopClose)] ∧
        (m.runFor 3).2.pc = 1 ∧ (m.runFor 5).2.pc = 3 ∧ (m.runFor 6).2.pc = 1 := by
  intro s
  obtain ⟨p, hp, ht⟩ := Program.exists_of_loads
    (P := fun p => ((new p s).setGas 6).trail 6 = [(0, .callOpen), (1, .loopOpen), (2, .callClose),
      (1, .loopOpen), (2, .callClose), (3, .loopClose)])
    (text "crossed") (text "\x7b\n[\n\x7d\n]") (by decide +kernel)
  obtain ⟨-, -, -, -, hloop, hcall⟩ := brackets_replay_the_trail p s 6 6
  rw [ht] at hloop hcall
  exact ⟨p, hp, ht, hcall 2 2 rfl, hcall 4 2 rfl, hloop 5 3 rfl⟩

end LineMachine.Machine
