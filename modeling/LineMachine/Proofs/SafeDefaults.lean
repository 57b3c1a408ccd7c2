import LineMachine.Proofs.Reporting

/-! What is left of an instruction that faults. It changes the stack to a default that is known from the
instruction alone, stores nothing but the zero of a number that could not be read, and goes on at the
next line. -/
namespace LineMachine.Machine

/-- A declaration of a number that cannot be read, with the name and the value that it stores. -/
inductive Misread : Instruction → Bytes → Value → Prop
  | int {i : Instruction} {name o : Operand} : i.op = .declare .int → i.operand? 0 = some name →
      i.operand? 1 = some o → (∀ t n, o ≠ .literal t n) → Misread i name.token (.int 0)
  | float {i : Instruction} {name o : Operand} : i.op = .declare .float → i.operand? 0 = some name →
      i.operand? 1 = some o → FloatReader.read? o.token = none → Misread i name.token (.float 0)

/-- The stack after a fault of an instruction. Input is not in this list, and the other instructions that
are not in it never fault. -/
def fallback? (op : Opcode) (s : List Value) : Option (List Value) :=
  match op with
  | .unknown | .memSet | .declare _ | .stackText => some s
  | .memGet | .random => some (.int 0 :: s)
  | .arith _ | .bitwise _ | .compare _ => some (.int 0 :: s.drop 2)
  | .complement => some (.int 0 :: s.drop 1)
  | _ => none

/-- A change that does no more than an instruction that faults may do. -/
structure Degraded (m : Machine) (i : Instruction) (c : Change) : Prop where
  stack : fallback? i.op m.stack = some (c.pushes ++ m.stack.drop c.takes)
  stores : (c.stores = [] ∧ ∀ name v, ¬Misread i name v) ∨
    ∃ name v, Misread i name v ∧ c.stores = [.var name v]
  color : c.color? = none
  printed : c.printed = []
  input : c.input? = none
  random : c.random? = none
  output : i.op ≠ .stackText → c.output = []

variable {m t : Machine} {i : Instruction} {c : Change} {name : Bytes} {v : Value}

theorem not_misread (hop : ∀ k, i.op ≠ .declare k) (name : Bytes) (v : Value) :
    ¬Misread i name v := by
  intro h
  cases h with
  | int hi => exact hop _ hi
  | float hi => exact hop _ hi

/-- Of causes that stand alone nothing but the report is left. -/
theorem degraded_report (hop : ∀ k, i.op ≠ .declare k) (hs : fallback? i.op m.stack = some m.stack)
    (causes : List Cause) : Degraded m i { causes := causes } where
  stack := hs
  stores := Or.inl ⟨rfl, not_misread hop⟩
  color := rfl
  printed := rfl
  input := rfl
  random := rfl
  output := fun _ => rfl

/-- Where there is no result, zero takes its place. -/
theorem degraded_result {n : Nat} {cause : Cause} {r : Option Value}
    (h : (Change.result n cause r).causes ≠ []) (hop : ∀ k, i.op ≠ .declare k)
    (hs : fallback? i.op m.stack = some (.int 0 :: m.stack.drop n)) :
    Degraded m i (.result n cause r) := by
  cases r with
  | some v => exact absurd rfl h
  | none => exact ⟨hs, Or.inl ⟨rfl, not_misread hop⟩, rfl, rfl, rfl, rfl, fun _ => rfl⟩

theorem degraded_memSet (hi : i.op = .memSet) (h : (m.memSetChange i).causes ≠ []) :
    Degraded m i (m.memSetChange i) := by
  have hop : ∀ k, i.op ≠ .declare k := by simp [hi]
  have hs : fallback? i.op m.stack = some m.stack := by rw [hi]; rfl
  revert h
  unfold memSetChange
  rcases m.intOperand i 0 with d | address
  · exact fun _ => degraded_report hop hs _
  · rcases m.intOperand i 1 with d | n
    · exact fun _ => degraded_report hop hs _
    · simp only
      cases Address.ofInt? address.toInt with
      | none => exact fun _ => degraded_report hop hs _
      | some a => exact fun h => absurd rfl h

theorem degraded_memGet (hi : i.op = .memGet) (h : (m.memGetChange i).causes ≠ []) :
    Degraded m i (m.memGetChange i) := by
  have hop : ∀ k, i.op ≠ .declare k := by simp [hi]
  have hs : fallback? i.op m.stack = some (.int 0 :: m.stack.drop 0) := by rw [hi]; rfl
  revert h
  unfold memGetChange
  rcases m.intOperand i 0 with d | address
  · exact fun h => degraded_result h hop hs
  · exact fun h => degraded_result h hop hs

theorem degraded_random (hi : i.op = .random) (h : (m.randomChange i).causes ≠ []) :
    Degraded m i (m.randomChange i) := by
  have hop : ∀ k, i.op ≠ .declare k := by simp [hi]
  have hs : fallback? i.op m.stack = some (.int 0 :: m.stack.drop 0) := by rw [hi]; rfl
  revert h
  unfold randomChange
  rcases m.limit i with d | n
  · exact fun h => degraded_result h hop hs
  · exact fun h => absurd rfl h

/-- The value that is declared in place of one that cannot be read is zero. -/
theorem misread_of_declared {k : Kind} {name : Operand} {cause : Cause} (hi : i.op = .declare k)
    (hname : i.operand? 0 = some name) (h : (declared i k).2 = some cause) :
    Misread i name.token (declared i k).1 := by
  cases k with
  | int =>
    revert h
    unfold declared
    cases ho : i.operand? 1 with
    | none => exact fun h => nomatch h
    | some o =>
      cases o with
      | literal t n => exact fun h => nomatch h
      | ref x => exact fun _ => .int hi hname ho (fun _ _ => Operand.noConfusion)
      | word t => exact fun _ => .int hi hname ho (fun _ _ => Operand.noConfusion)
  | float =>
    revert h
    unfold declared
    cases ho : i.operand? 1 with
    | none => exact fun h => nomatch h
    | some o =>
      simp only
      cases hread : FloatReader.read? o.token with
      | some x => exact fun h => nomatch h
      | none => exact fun _ => .float hi hname ho hread
  | str => cases h
  | bool =>
    revert h
    unfold declared
    cases i.operand? 1 <;> exact fun h => nomatch h

theorem Misread.unique {name' : Bytes} {v' : Value} (h : Misread i name v)
    (h' : Misread i name' v') : name' = name ∧ v' = v := by
  cases h with
  | int hi hname ho hread =>
    cases h' with
    | int hi' hname' ho' hread' =>
      rw [hname] at hname'
      cases hname'
      exact ⟨rfl, rfl⟩
    | float hi' => cases hi.symm.trans hi'
  | float hi hname ho hread =>
    cases h' with
    | int hi' => cases hi.symm.trans hi'
    | float hi' hname' ho' hread' =>
      rw [hname] at hname'
      cases hname'
      exact ⟨rfl, rfl⟩

theorem Misread.declares (h : Misread i name v) : ∃ k, i.op = .declare k := by
  cases h with
  | int hi => exact ⟨_, hi⟩
  | float hi => exact ⟨_, hi⟩

theorem Misread.exists_name (h : Misread i name v) : ∃ o, i.operand? 0 = some o := by
  cases h with
  | int _ hname => exact ⟨_, hname⟩
  | float _ hname => exact ⟨_, hname⟩

theorem degraded_declare {k : Kind} (hi : i.op = .declare k)
    (h : (declareChange i k).causes ≠ []) : Degraded m i (declareChange i k) := by
  have hs : fallback? i.op m.stack = some m.stack := by rw [hi]; rfl
  revert h
  unfold declareChange
  cases hname : i.operand? 0 with
  | none =>
    have hnone : ∀ name v, ¬Misread i name v := by
      intro name v hread
      obtain ⟨o, ho⟩ := hread.exists_name
      rw [hname] at ho
      cases ho
    exact fun _ => ⟨hs, Or.inl ⟨rfl, hnone⟩, rfl, rfl, rfl, rfl, fun _ => rfl⟩
  | some name =>
    cases hcause : (declared i k).2 with
    | none => exact fun h => absurd rfl h
    | some cause =>
      have hread := misread_of_declared hi hname hcause
      exact fun _ => ⟨hs, Or.inr ⟨_, _, hread, rfl⟩, rfl, rfl, rfl, rfl, fun _ => rfl⟩

/-- Every instruction but input degrades when it faults. -/
theorem degraded_change (h : (m.change i).causes ≠ []) (hinput : i.op ≠ .input) :
    Degraded m i (m.change i) := by
  revert h
  unfold change
  cases hi : i.op with
  | unknown => exact fun _ => degraded_report (by simp [hi]) (by rw [hi]; rfl) _
  | memSet => exact degraded_memSet hi
  | memGet => exact degraded_memGet hi
  | random => exact degraded_random hi
  | stackText =>
    intro _
    exact ⟨by rw [hi]; rfl, Or.inl ⟨rfl, not_misread (by simp [hi])⟩, rfl, rfl, rfl, rfl,
      fun hop => absurd hi hop⟩
  | arith op | compare op =>
    exact fun h => degraded_result h (by simp [hi]) (by rw [hi]; rfl)
  | bitwise op =>
    have hs : fallback? i.op m.stack = some (.int 0 :: m.stack.drop 2) := by rw [hi]; rfl
    cases op <;> exact fun h => degraded_result h (by simp [hi]) hs
  | complement => exact fun h => degraded_result h (by simp [hi]) (by rw [hi]; rfl)
  | declare k => exact degraded_declare hi
  | input => exact absurd hi hinput
  | push =>
    unfold pushChange
    cases i.operand? 0 <;> exact fun h => absurd rfl h
  | _ => exact fun h => absurd rfl h

/-- Instructions that fault have no part in control. -/
theorem straight_of_causes (h : (m.change i).causes ≠ []) :
    m.control i = m ∧ m.next i = m.pc + 1 ∧ (m.change i).color? = none ∧ (m.change i).printed = [] := by
  by_cases hinput : i.op = .input
  · simp [control, next, jump?, change, hinput, inputChange]
  · have hdegraded := degraded_change h hinput
    have hs := hdegraded.stack
    refine ⟨?_, ?_, hdegraded.color, hdegraded.printed⟩
    · unfold control
      cases hi : i.op <;> first | rfl | (rw [hi] at hs; cases hs)
    · unfold next jump?
      cases hi : i.op <;> first | rfl | (rw [hi] at hs; cases hs)

theorem causes_of_faults (h : (m.execute i).faults ≠ m.faults) : (m.change i).causes ≠ [] := by
  intro hnone
  apply h
  rw [execute_change, hnone]
  simp

/-- Storing zero is all that is done about a number that cannot be read. -/
theorem execute_misread (h : (m.change i).causes ≠ []) (hread : Misread i name v) :
    m.execute i = { m.setVar name v with
      pc := m.pc + 1
      steps := m.steps + 1
      faults := (m.execute i).faults
      journal := (m.execute i).journal } := by
  obtain ⟨k, hop⟩ := hread.declares
  obtain ⟨hcontrol, hnext, hcolor, hprinted⟩ := straight_of_causes h
  have hdegraded := degraded_change (m := m) h (by simp [hop])
  have hstack : (m.change i).pushes ++ m.stack.drop (m.change i).takes = m.stack := by
    have hs := hdegraded.stack
    rw [hop] at hs
    exact (Option.some.inj hs).symm
  have hstores : (m.change i).stores = [.var name v] := by
    rcases hdegraded.stores with ⟨-, hnone⟩ | ⟨name', v', hread', heq⟩
    · exact absurd hread (hnone name v)
    · obtain ⟨rfl, rfl⟩ := hread.unique hread'
      exact heq
  rw [execute_change, hcontrol, hnext, hcolor, hprinted, hstack, hstores, hdegraded.input,
    hdegraded.random, hdegraded.output (by simp [hop])]
  simp [setVar, Store.setVar, Store.setCell]

/-- A step that faults goes on at the next line and keeps what controls the machine. Unless it reads input it
takes nothing from outside, writes at most the stack, and leaves the default stack of its kind. It stores only
the zero of a number that could not be read, and no cell by hand. -/
theorem faulting_step_degrades (hi : m.current? = some i) (hstep : m.step? = some t)
    (hfault : t.faults ≠ m.faults) :
    (t.running = m.running ∧ t.color = m.color ∧ t.printed = m.printed ∧ t.loops = m.loops ∧
      t.calls = m.calls ∧ t.pc = m.pc + 1 ∧ t.steps = m.steps + 1) ∧
    (i.op ≠ .input →
      fallback? i.op m.stack = some t.stack ∧ t.input = m.input ∧ t.random = m.random ∧
      (i.op ≠ .stackText → t.output = m.output) ∧
      ((∀ name v, ¬Misread i name v) → t.vars = m.vars ∧ t.memory = m.memory) ∧
      ∀ name v, Misread i name v → t = { m.setVar name v with
        pc := m.pc + 1
        steps := m.steps + 1
        faults := t.faults
        journal := t.journal }) ∧
    (i.op = .memSet → t.vars = m.vars ∧ t.memory = m.memory) := by
  have ht : t = m.execute i := by
    rw [step?, hi] at hstep
    exact (Option.some.inj hstep).symm
  subst ht
  have hcauses := causes_of_faults hfault
  obtain ⟨hcontrol, hnext, hcolor, hprinted⟩ := straight_of_causes hcauses
  have hstores : i.op ≠ .input → (∀ name v, ¬Misread i name v) →
      (m.execute i).vars = m.vars ∧ (m.execute i).memory = m.memory := by
    intro hinput hread
    rcases (degraded_change hcauses hinput).stores with ⟨hnone, -⟩ | ⟨name, v, h, -⟩
    · rw [execute_change, hnone]
      exact ⟨rfl, rfl⟩
    · exact absurd h (hread name v)
  refine ⟨?_, ?_, ?_⟩
  · rw [execute_change, hcontrol, hnext, hcolor, hprinted]
    simp
  · intro hinput
    have hdegraded := degraded_change hcauses hinput
    refine ⟨?_, ?_, ?_, ?_, hstores hinput, ?_⟩
    · rw [execute_change]
      exact hdegraded.stack
    · rw [execute_change, hdegraded.input]
      rfl
    · rw [execute_change, hdegraded.random]
      rfl
    · intro hop
      rw [execute_change, hdegraded.output hop]
      simp
    · intro name v hread
      exact execute_misread hcauses hread
  · intro hop
    exact hstores (by simp [hop]) (not_misread (by simp [hop]))

/-- A variable that was set is set to zero, and a cell outside the memory is not written. -/
theorem faulting_step_degrades_misread :
    let s : Setup := ⟨⟨[], none⟩, .scripted [], text "> ", false⟩
    ∃ p, Program.load (text "misread") (text "NU x 7\nNU x y\nMSET -1 2") = .ok p ∧
      let m := ((new p s).runFor 1).2
      let m' := ((new p s).runFor 2).2
      (∃ i t, m.current? = some i ∧ m.step? = some t ∧ t.faults ≠ m.faults ∧ i.op ≠ .input ∧
        Misread i (text "x") (.int 0) ∧ t = { m.setVar (text "x") (.int 0) with
          pc := m.pc + 1
          steps := m.steps + 1
          faults := t.faults
          journal := t.journal }) ∧
      ∃ i t, m'.current? = some i ∧ m'.step? = some t ∧ t.faults ≠ m'.faults ∧ i.op = .memSet ∧
        t.memory = m'.memory := by
  intro s
  obtain ⟨p, hp, hread, hfirst, hwrite, hsecond⟩ := Program.exists_of_loads
    (P := fun p =>
      let m := ((new p s).runFor 1).2
      let m' := ((new p s).runFor 2).2
      m.current?.map (fun i => (i.op, i.operands)) =
          some (.declare .int, [.word (text "x"), .word (text "y")]) ∧
        m.step?.map (·.faults.size) = some (m.faults.size + 1) ∧
        m'.current?.map Instruction.op = some .memSet ∧
        m'.step?.map (·.faults.size) = some (m'.faults.size + 1))
    (text "misread") (text "NU x 7\nNU x y\nMSET -1 2") (by decide +kernel)
  obtain ⟨i, hi, heq⟩ := Option.map_eq_some_iff.mp hread
  obtain ⟨t, ht, hsize⟩ := Option.map_eq_some_iff.mp hfirst
  obtain ⟨j, hj, hop⟩ := Option.map_eq_some_iff.mp hwrite
  obtain ⟨u, hu, hsize'⟩ := Option.map_eq_some_iff.mp hsecond
  obtain ⟨hdeclare, hoperands⟩ := Prod.mk.inj heq
  have hmisread : Misread i (text "x") (.int 0) := by
    have hname : i.operand? 0 = some (.word (text "x")) := by rw [Instruction.operand?, hoperands]; rfl
    have hvalue : i.operand? 1 = some (.word (text "y")) := by rw [Instruction.operand?, hoperands]; rfl
    exact .int hdeclare hname hvalue fun _ _ => Operand.noConfusion
  have hfault : t.faults ≠ (((new p s).runFor 1).2).faults := fun h => by rw [h] at hsize; omega
  have hfault' : u.faults ≠ (((new p s).runFor 2).2).faults := fun h => by rw [h] at hsize'; omega
  have hinput : i.op ≠ .input := by simp [hdeclare]
  obtain ⟨-, hrest, -⟩ := faulting_step_degrades hi ht hfault
  obtain ⟨-, -, hcell⟩ := faulting_step_degrades hj hu hfault'
  exact ⟨p, hp, ⟨i, t, hi, ht, hfault, hinput, hmisread, (hrest hinput).2.2.2.2.2 _ _ hmisread⟩,
    j, u, hj, hu, hfault', hop, (hcell hop).2⟩

end LineMachine.Machine
