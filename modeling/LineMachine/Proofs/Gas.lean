import LineMachine.Proofs.Safety

/-! What a run costs: one unit of gas a step, and an end with a fault where the gas does not cover a
step that would still be taken. -/
namespace LineMachine.Machine

variable {p : Program} {m s : Machine} {i : Instruction} {a b g : Int64} {k n : Nat}

theorem toInt_ofNat_of_le (h : (k : Int) ≤ g.toInt) : (Int64.ofNat k).toInt = k := by
  have := Int64.toInt_lt g
  exact Int64.toInt_ofNat_of_lt (by omega)

theorem toInt_sub_ofNat (h : (k : Int) ≤ g.toInt) : (g - Int64.ofNat k).toInt = g.toInt - k := by
  have hk := toInt_ofNat_of_le h
  rw [Int64.toInt_sub_of_le, hk]
  · rw [Int64.le_iff_toInt_le, hk, Int64.toInt_zero]
    exact Int.natCast_nonneg k
  · rw [Int64.le_iff_toInt_le, hk]
    exact h

/-- As long as the gas lasts, every step takes one unit of it. -/
theorem runFor_add_limited (hg : m.maxGas ≠ 0) (h : m.steps? k = some s)
    (hk : (k : Int) ≤ m.gas.toInt) :
    m.runFor (k + n) = (s.withGas (m.gas - Int64.ofNat k) m.maxGas).runFor n := by
  induction k generalizing m s with
  | zero =>
    cases h
    simp [withGas]
  | succ k ih =>
    obtain ⟨i, hi, hs⟩ := Option.bind_eq_some_iff.mp h
    have hone : (m.gas - 1).toInt = m.gas.toInt - 1 := toInt_sub_ofNat (k := 1) (by omega)
    have hpaid : m.consumeGas? 1 = some (m.withGas (m.gas - 1) m.maxGas) := by
      have hlt : ¬ m.gas < 1 := by
        rw [Int64.lt_iff_toInt_lt, Int64.toInt_one]
        omega
      rw [consumeGas?, if_neg hg, if_neg hlt]
      rfl
    have hrest : ((m.execute i).withGas (m.gas - 1) m.maxGas).steps? k =
        some (s.withGas (m.gas - 1) m.maxGas) := by
      rw [steps?_withGas, hs]
      rfl
    have hcover : (k : Int) ≤ (m.gas - 1).toInt := by omega
    have htotal : m.gas - 1 - Int64.ofNat k = m.gas - Int64.ofNat (k + 1) := by
      rw [Int64.sub_sub, Int64.add_comm, Int64.ofNat_add]
      rfl
    rw [Nat.add_right_comm, runFor_succ_of_paid hi hpaid, execute_withGas,
      ih (m := (m.execute i).withGas (m.gas - 1) m.maxGas) hg hrest hcover, ← htotal]
    rfl

theorem steps?_steps (h : m.steps? k = some s) : s.steps = m.steps + Int64.ofNat k := by
  induction k generalizing m with
  | zero =>
    cases h
    exact (Int64.add_zero _).symm
  | succ k ih =>
    obtain ⟨i, -, hs⟩ := Option.bind_eq_some_iff.mp h
    rw [ih hs, execute_steps, Int64.add_assoc, Int64.add_comm 1, Int64.ofNat_add]
    rfl

/-- A machine that is not running was not running before, or executed a halt just before. -/
theorem steps?_not_running (h : m.steps? k = some s) (hr : s.running = false) :
    k = 0 ∧ m.running = false ∨
      ∃ j r i, k = j + 1 ∧ m.steps? j = some r ∧ r.pending? = some i ∧ i.op = .halt := by
  cases k with
  | zero =>
    cases h
    exact Or.inl ⟨rfl, hr⟩
  | succ j =>
    obtain ⟨r, i, hj, hi, rfl⟩ := steps?_last h
    rw [execute_running, control_running, (pending?_eq_some.mp hi).1] at hr
    exact Or.inr ⟨j, r, i, rfl, hj, hi, by simpa using hr⟩

section Limit

variable (hg : 1 ≤ g)
include hg

theorem toNat_limit : (g.toInt.toNat : Int) = g.toInt := by
  rw [Int64.le_iff_toInt_le, Int64.toInt_one] at hg
  omega

theorem sub_limit : g - Int64.ofNat g.toInt.toNat = 0 := by
  have hn := toNat_limit hg
  have hcover : (g.toInt.toNat : Int) ≤ g.toInt := by omega
  apply Int64.toInt_inj.mp
  rw [toInt_sub_ofNat hcover, Int64.toInt_zero]
  omega

theorem maxGas_limit : (m.setGas g).maxGas ≠ 0 := by
  intro h
  have hzero : g = 0 := h
  subst hzero
  exact absurd hg (by decide)

theorem runFor_limit (h : m.steps? k = some s) (hk : k ≤ g.toInt.toNat) :
    (m.setGas g).runFor (k + n) = (s.withGas (g - Int64.ofNat k) g).runFor n := by
  have hn := toNat_limit hg
  have hsteps : (m.setGas g).steps? k = some (s.withGas g g) := by
    change (m.withGas g g).steps? k = _
    rw [steps?_withGas, h]
    rfl
  have hcover : (k : Int) ≤ g.toInt := by omega
  have hrun := runFor_add_limited (maxGas_limit hg) hsteps hcover (n := n)
  exact hrun

/-- A run that stops by itself while the gas lasts. -/
theorem ends_within_limit (h : m.steps? k = some s) (hk : k ≤ g.toInt.toNat)
    (hstop : s.pending? = none) :
    (m.setGas g).Ends .finished (s.withGas (g - Int64.ofNat k) g) :=
  ⟨by decide, k + 0, (runFor_limit hg h hk).trans (runFor_of_stopped hstop)⟩

/-- A run that would go on after its last unit of gas. -/
theorem ends_at_limit (h : m.steps? g.toInt.toNat = some s) (hi : s.pending? = some i) :
    (m.setGas g).Ends (.exhausted s.steps)
      { (s.withGas 0 g).fault (.outOfGas s.steps) with running := false } := by
  have hrun := runFor_limit hg h (Nat.le_refl _) (n := 0)
  rw [sub_limit hg] at hrun
  have hunpaid : (s.withGas 0 g).consumeGas? 1 = none := by
    have hmax : (s.withGas 0 g).maxGas ≠ 0 := maxGas_limit (m := s) hg
    have hlt : (s.withGas 0 g).gas < 1 := by change (0 : Int64) < 1; decide
    rw [consumeGas?, if_neg hmax, if_pos hlt]
  exact ⟨by simp, _, hrun.trans (runFor_of_unpaid hi hunpaid)⟩

end Limit

/-- What a run of `m` under the limit `g` amounts to, if it takes `k` steps to `s` and ends with the
outcome `o` in `e`. -/
structure Accounted (p : Program) (m : Machine) (g : Int64) (k : Nat) (s : Machine) (o : Outcome)
    (e : Machine) : Prop where
  within_limit : k ≤ g.toInt.toNat
  takes : m.steps? k = some s
  ends : (m.setGas g).Ends o e
  gas_left : e.gas = g - Int64.ofNat k
  steps_counted : e.steps = m.steps + Int64.ofNat k
  /-- It fails exactly if after as many steps as there was gas there is a line to execute. -/
  fails_iff : o.error? ≠ none ↔ ∃ t, m.steps? g.toInt.toNat = some t ∧
    t.running = true ∧ 0 ≤ t.pc ∧ t.pc < p.size
  /-- Then all gas is used, and the machine is stopped with a fault at the line not executed. -/
  failed : o.error? ≠ none → k = g.toInt.toNat ∧ ∃ i, p.lines[s.pc.toNat]? = some i ∧
    let f : Fault := ⟨.outOfGas s.steps, s.pc, i.text⟩
    e = { s with
      gas := 0
      maxGas := g
      running := false
      faults := s.faults.push f
      journal := s.journal.push (faultRecord f) }
  /-- Otherwise nothing happened but the steps, and the last one led behind the program or was a
  halt, unless the machine was not running at all. -/
  succeeded : o.error? = none → e = { s with gas := g - Int64.ofNat k, maxGas := g } ∧
    (e.pc = p.size ∨ e.running = false ∧ (k = 0 ∧ m.running = false ∨
      ∃ j r i, k = j + 1 ∧ m.steps? j = some r ∧ r.pending? = some i ∧ i.op = .halt))
  ends_again : e.Ends .finished e

theorem pending?_eq_none_iff_of_sound (hs : Sound p s) :
    s.pending? = none ↔ ¬ (s.running ∧ 0 ≤ s.pc ∧ s.pc < p.size) := by
  rw [pending?_eq_none_iff, hs.program]

theorem accounted_of_stopped (hs : Sound p s) (hg : 1 ≤ g) (h : m.steps? k = some s)
    (hk : k ≤ g.toInt.toNat) (hstop : s.pending? = none) :
    Accounted p m g k s .finished (s.withGas (g - Int64.ofNat k) g) where
  within_limit := hk
  takes := h
  ends := ends_within_limit hg h hk hstop
  gas_left := rfl
  steps_counted := (steps?_steps h : s.steps = _)
  fails_iff := by
    constructor
    · intro hne
      exact absurd rfl hne
    · rintro ⟨t, ht, hin⟩
      rw [steps?_of_stopped h hstop hk ht] at hin
      exact absurd hin ((pending?_eq_none_iff_of_sound hs).mp hstop)
  failed := fun hne => absurd rfl hne
  succeeded := by
    intro _
    refine ⟨rfl, ?_⟩
    rcases stopped_cases hs hstop with hr | hpc
    · exact Or.inr ⟨hr, steps?_not_running h hr⟩
    · exact Or.inl hpc
  ends_again := ends_of_stopped hstop

theorem accounted_of_exhausted (hs : Sound p s) (hg : 1 ≤ g) (h : m.steps? g.toInt.toNat = some s)
    (hi : s.pending? = some i) :
    Accounted p m g g.toInt.toNat s (.exhausted s.steps)
      { (s.withGas 0 g).fault (.outOfGas s.steps) with running := false } where
  within_limit := Nat.le_refl _
  takes := h
  ends := ends_at_limit hg h hi
  gas_left := (sub_limit hg).symm
  steps_counted := (steps?_steps h : s.steps = _)
  fails_iff := by
    have hin := inside_of_pending hi
    rw [hs.program] at hin
    exact ⟨fun _ => ⟨s, h, hin⟩, fun _ => by simp [Outcome.error?]⟩
  failed := by
    intro _
    obtain ⟨-, hline⟩ := current?_eq_some.mp (pending?_eq_some.mp hi).2
    have hcur : (s.withGas 0 g).current? = some i := (pending?_eq_some.mp hi).2
    rw [hs.program] at hline
    refine ⟨rfl, i, hline, ?_⟩
    rw [fault, hcur]
    rfl
  succeeded := by
    intro hnone
    simp [Outcome.error?] at hnone
  ends_again := ends_of_stopped rfl

/-- Every run under a limit is accounted for. -/
theorem run_accounted {name source : Bytes} (hp : Program.load name source = .ok p)
    (hm : Reachable p m) (hg : 1 ≤ g) : ∃ k s o e, Accounted p m g k s o e := by
  have hclosed := Program.closed_load hp
  have hsound := sound_reachable hclosed hm
  obtain ⟨s, hs⟩ | ⟨k, hk, s, hs, hstop⟩ := steps?_or_stops m g.toInt.toNat
  · have hsound' := sound_steps hclosed hsound hs
    cases hi : s.pending? with
    | none => exact ⟨_, s, _, _, accounted_of_stopped hsound' hg hs (Nat.le_refl _) hi⟩
    | some i => exact ⟨_, s, _, _, accounted_of_exhausted hsound' hg hs hi⟩
  · have hsound' := sound_steps hclosed hsound hs
    exact ⟨k, s, _, _, accounted_of_stopped hsound' hg hs (Nat.le_of_lt hk) hstop⟩

/-- A loop that only a limit ends, with a halt that is never reached. -/
theorem run_accounted_loop :
    ∃ p, Program.load (text "loop") (text "[\nP 1\n]\nQ") = .ok p ∧ (1 : Int64) ≤ 5 ∧
      ∀ s : Setup, Reachable p (new p s) ∧ ∃ k t o e, Accounted p (new p s) 5 k t o e := by
  obtain ⟨p, hp, -⟩ := Program.exists_of_loads (P := fun _ => True) (text "loop")
    (text "[\nP 1\n]\nQ") (by decide +kernel)
  exact ⟨p, hp, by decide, fun s => ⟨.new s, run_accounted hp (.new s) (by decide)⟩⟩

end LineMachine.Machine
