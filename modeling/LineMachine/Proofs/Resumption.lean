import LineMachine.Proofs.Gas

/-! A run that its limit cut short and that is taken up again is one run under both limits together:
no instruction looks at the gas, at the reports made so far or at the number of steps. -/
namespace LineMachine.Machine

/-- The machine with other reports before its own, under another limit. -/
def rebased (m : Machine) (faults : Array Fault) (journal : Array Log.Record) (limit : Int64) :
    Machine :=
  { m with
    faults := faults ++ m.faults
    journal := journal ++ m.journal
    maxGas := limit }

variable {m s e : Machine} {i : Instruction} {o : Outcome} {g h limit : Int64} {k n : Nat}
  {fs : Array Fault} {rs : Array Log.Record}

theorem fault_rebased (c : Cause) :
    (m.rebased fs rs limit).fault c = (m.fault c).rebased fs rs limit := by
  have hat : (m.rebased fs rs limit).current? = m.current? := rfl
  unfold fault
  rw [hat]
  simp [rebased]

theorem reportAll_rebased (cs : List Cause) :
    (m.rebased fs rs limit).reportAll cs = (m.reportAll cs).rebased fs rs limit := by
  induction cs generalizing m with
  | nil => rfl
  | cons c cs ih =>
    change ((m.rebased fs rs limit).fault c).reportAll cs = _
    rw [fault_rebased, ih]
    rfl

theorem trace_rebased : (m.rebased fs rs limit).trace i = (m.trace i).rebased fs rs limit := by
  have hdebug : (m.rebased fs rs limit).debug = m.debug := rfl
  unfold trace
  rw [hdebug]
  split
  · simp [rebased, log]
  · rfl

theorem control_rebased :
    (m.rebased fs rs limit).control i = (m.control i).rebased fs rs limit := by
  unfold control
  split <;> rfl

theorem next_rebased : (m.rebased fs rs limit).next i = m.next i := by
  simp only [next, jump?, pop_fst]
  rfl

theorem execute_rebased :
    (m.rebased fs rs limit).execute i = (m.execute i).rebased fs rs limit := by
  obtain ⟨cs, hall⟩ := execute_withData m i
  have hm := hall m
  have hr := hall (m.rebased fs rs limit)
  rw [withData_self] at hm
  rw [show (m.rebased fs rs limit).withData m = m.rebased fs rs limit from rfl, trace_rebased,
    control_rebased, reportAll_rebased, next_rebased] at hr
  rw [hm, hr]
  rfl

section Rebased

variable (hlimit : limit = 0 ↔ m.maxGas = 0)
include hlimit

theorem consumeGas?_rebased (a : Int64) : (m.rebased fs rs limit).consumeGas? a =
    (m.consumeGas? a).map (·.rebased fs rs limit) := by
  have hgas : (m.rebased fs rs limit).gas = m.gas := rfl
  have hmax : (m.rebased fs rs limit).maxGas = limit := rfl
  unfold consumeGas?
  rw [hgas, hmax]
  simp only [hlimit]
  split
  · rfl
  · split <;> rfl

/-- Runs only depend on whether there is a limit, and reports pile up on those made before. -/
theorem runFor_rebased : (m.rebased fs rs limit).runFor n =
    ((m.runFor n).1, (m.runFor n).2.rebased fs rs limit) := by
  induction n using Nat.strongRecOn generalizing m with
  | ind n ih =>
    have hpaid : (m.rebased fs rs limit).consumeGas? 1 = _ := consumeGas?_rebased hlimit 1
    rcases turn_cases m with hp | ⟨i, hp, hg⟩ | ⟨i, g, hp, hg⟩
    · have hp' : (m.rebased fs rs limit).pending? = none := hp
      rw [runFor_of_stopped hp, runFor_of_stopped hp']
    · have hp' : (m.rebased fs rs limit).pending? = some i := hp
      rw [hg] at hpaid
      rw [runFor_of_unpaid hp hg, runFor_of_unpaid hp' hpaid, fault_rebased]
      rfl
    · have hp' : (m.rebased fs rs limit).pending? = some i := hp
      rw [hg] at hpaid
      cases n with
      | zero => rw [runFor_zero_of_paid hp hg, runFor_zero_of_paid hp' hpaid]
      | succ n =>
        have hkeep : limit = 0 ↔ (execute { m with gas := g } i).maxGas = 0 := by
          rw [execute_maxGas]
          exact hlimit
        rw [runFor_succ_of_paid hp hg, runFor_succ_of_paid hp' hpaid, execute_rebased]
        exact ih n (Nat.lt_succ_self n) hkeep

theorem Ends.rebased (hm : m.Ends o e) :
    (m.rebased fs rs limit).Ends o (e.rebased fs rs limit) := by
  obtain ⟨ho, n, hn⟩ := hm
  refine ⟨ho, n, ?_⟩
  rw [runFor_rebased hlimit, hn]

end Rebased

/-- A run whose limit is not reached ends by itself; any other takes as many steps as it has gas. -/
theorem limit_cases (m : Machine) (n : Nat) :
    (∃ k s, k ≤ n ∧ m.steps? k = some s ∧ s.pending? = none) ∨
      ∃ s i, m.steps? n = some s ∧ s.pending? = some i := by
  obtain ⟨s, hs⟩ | ⟨k, hk, s, hs, hstop⟩ := steps?_or_stops m n
  · cases hi : s.pending? with
    | none => exact Or.inl ⟨n, s, Nat.le_refl n, hs, hi⟩
    | some i => exact Or.inr ⟨s, i, hs, hi⟩
  · exact Or.inl ⟨k, s, Nat.le_of_lt hk, hs, hstop⟩

theorem exists_ends_limit (hg : 1 ≤ g) (m : Machine) : ∃ o e, (m.setGas g).Ends o e := by
  rcases limit_cases m g.toInt.toNat with ⟨k, s, hk, hs, hstop⟩ | ⟨s, i, hs, hi⟩
  · exact ⟨_, _, ends_within_limit hg hs hk hstop⟩
  · exact ⟨_, _, ends_at_limit hg hs hi⟩

/-- What a run of `m` under the limit `g` has to do with one under `g + h`. If it ends, it is the same with more
gas left; if it is exhausted in `e`, it goes on from there with `h` more to the same end, but for the limit and
the fault that was reported at `e`. -/
def Composes (m : Machine) (g h : Int64) : Prop :=
  ∃ o e, (m.setGas g).Ends o e ∧
    (o.error? = none → (m.setGas (g + h)).Ends o (e.withGas (e.gas + h) (g + h))) ∧
    (o.error? ≠ none → ∃ (faults : Array Fault) (journal : Array Log.Record) (f : Fault)
        (o' : Outcome) (t : Machine),
      e.faults = faults.push f ∧ e.journal = journal.push (faultRecord f) ∧
        f.cause = .outOfGas e.steps ∧
      ({ e with running := true }.setGas h).Ends o'
        (t.rebased (faults.push f) (journal.push (faultRecord f)) h) ∧
      (m.setGas (g + h)).Ends o' (t.rebased faults journal (g + h)))

theorem sub_add_limit (k : Nat) : g - Int64.ofNat k + h = g + h - Int64.ofNat k := by
  rw [Int64.sub_eq_add_neg, Int64.sub_eq_add_neg, Int64.add_assoc, Int64.add_comm _ h,
    Int64.add_assoc]

section Sum

variable (hg : 1 ≤ g) (hh : 1 ≤ h) (hsum : g.toInt + h.toInt ≤ Int64.maxValue.toInt)
include hg hh hsum

theorem toInt_limit_add : (g + h).toInt = g.toInt + h.toInt := by
  have hg0 := toNat_limit hg
  have hh0 := toNat_limit hh
  have hmax : Int64.maxValue.toInt = 2 ^ 63 - 1 := by decide
  rw [Int64.toInt_add, Int.bmod_eq_of_le] <;> omega

theorem le_limit_add : g.toInt ≤ (g + h).toInt := by
  have hadd := toInt_limit_add hg hh hsum
  have hh0 := toNat_limit hh
  omega

theorem one_le_limit_add : 1 ≤ g + h := by
  have hadd := toInt_limit_add hg hh hsum
  rw [Int64.le_iff_toInt_le, Int64.toInt_one] at hg hh ⊢
  omega

theorem composes_of_stopped (hs : m.steps? k = some s) (hk : k ≤ g.toInt.toNat)
    (hstop : s.pending? = none) : Composes m g h := by
  have hle := le_limit_add hg hh hsum
  have hlong := ends_within_limit (one_le_limit_add hg hh hsum) hs (by omega) hstop
  rw [← sub_add_limit] at hlong
  exact ⟨_, _, ends_within_limit hg hs hk hstop, fun _ => hlong, fun hne => absurd rfl hne⟩

/-- The rest of both runs is that of `s` with no reports of its own yet. -/
theorem composes_of_exhausted (hs : m.steps? g.toInt.toNat = some s) (hi : s.pending? = some i) :
    Composes m g h := by
  have hrun := (pending?_eq_some.mp hi).1
  have hle := le_limit_add hg hh hsum
  have hmax : h ≠ 0 := maxGas_limit (m := m) hh
  have hmax' : g + h ≠ 0 := maxGas_limit (m := m) (one_le_limit_add hg hh hsum)
  let base : Machine := { s with faults := #[], journal := #[] }
  obtain ⟨o, t, ht⟩ := exists_ends_limit hh base
  have hbase : (base.setGas h).maxGas = h := rfl
  let f : Fault := s.faultAt (.outOfGas s.steps)
  refine ⟨_, _, ends_at_limit hg hs hi, fun hne => by simp [Outcome.error?] at hne,
    fun _ => ⟨s.faults, s.journal, f, o, t, rfl, rfl, rfl, ?_, ?_⟩⟩
  · have hend : ((base.setGas h).rebased (s.faults.push f) (s.journal.push (faultRecord f)) h).Ends
        o (t.rebased (s.faults.push f) (s.journal.push (faultRecord f)) h) :=
      ht.rebased (by rw [hbase])
    have hstart : { { (s.withGas 0 g).fault (.outOfGas s.steps) with running := false } with
        running := true }.setGas h =
        (base.setGas h).rebased (s.faults.push f) (s.journal.push (faultRecord f)) h := by
      simp only [rebased, base, setGas, Array.append_empty, hrun]
      rfl
    rwa [hstart]
  · have hend : ((base.setGas h).rebased s.faults s.journal (g + h)).Ends o
        (t.rebased s.faults s.journal (g + h)) :=
      ht.rebased (by simp [hbase, hmax, hmax'])
    have hleft : g + h - Int64.ofNat g.toInt.toNat = h := by
      rw [← sub_add_limit, sub_limit hg, Int64.zero_add]
    have hstart : s.withGas h (g + h) = (base.setGas h).rebased s.faults s.journal (g + h) := by
      simp [rebased, base, setGas, withGas]
    obtain ⟨ho, n, hn⟩ := hend
    refine ⟨ho, g.toInt.toNat + n, ?_⟩
    rw [runFor_limit (one_le_limit_add hg hh hsum) hs (by omega), hleft, hstart, hn]

/-- Runs compose across limits, from every state of every machine. -/
theorem limited_runs_compose (m : Machine) : Composes m g h := by
  rcases limit_cases m g.toInt.toNat with ⟨k, s, hk, hs, hstop⟩ | ⟨s, i, hs, hi⟩
  · exact composes_of_stopped hg hh hsum hs hk hstop
  · exact composes_of_exhausted hg hh hsum hs hi

end Sum

/-- A loop cut in the middle of its body, with reports of its own in every round. -/
theorem limited_runs_compose_loop :
    ∃ p, Program.load (text "loop") (text "[\nP 1\nWHAT\n]") = .ok p ∧ (1 : Int64) ≤ 6 ∧
      (1 : Int64) ≤ 7 ∧ (6 : Int64).toInt + (7 : Int64).toInt ≤ Int64.maxValue.toInt ∧
      ∀ s : Setup, Reachable p (new p s) ∧ Composes (new p s) 6 7 := by
  obtain ⟨p, hp, -⟩ := Program.exists_of_loads (P := fun _ => True) (text "loop")
    (text "[\nP 1\nWHAT\n]") (by decide +kernel)
  refine ⟨p, hp, by decide, by decide, by decide, fun s => ⟨.new s, ?_⟩⟩
  exact limited_runs_compose (by decide) (by decide) (by decide) (new p s)

end LineMachine.Machine
