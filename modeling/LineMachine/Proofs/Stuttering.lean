import LineMachine.Proofs.Execution
import LineMachine.Proofs.Insertion

/-! Label lines do nothing: with a label line put in, a program runs as it does without, except for
the steps over the new line. -/
namespace LineMachine

/-- Some branch has `name` as its first operand. -/
def Program.Targets (p : Program) (name : Bytes) : Prop :=
  ∃ i ∈ p.lines, (i.op = .branchZero ∨ i.op = .branchNonzero) ∧
    (i.operand? 0).map Operand.token = some name

instance (p : Program) (name : Bytes) : Decidable (p.Targets name) :=
  inferInstanceAs (Decidable (∃ i ∈ p.lines, _))

namespace Machine

/-- Where a program counter goes when a line is put in at `k`. -/
def shiftPc (k : Nat) (pc : Int) : Int := if pc < k then pc else pc + 1

def shiftFault (k : Nat) (f : Fault) : Fault := { f with pc := shiftPc k f.pc }

/-- The place `b` after the line is put in stands for the place `a` before. The new line stands for
the line that it was put before. -/
def Aligned (k : Nat) (a b : Int) : Prop := b = shiftPc k a ∨ a = k ∧ b = k

/-- Two machines that are at the same point of a run, one on `p` and the other on `p'`, which has one
more line at `k`: they have the same data, and their indices are those of the same lines. -/
structure Shifted (p p' : Program) (k : Nat) (m m' : Machine) : Prop where
  program : m.program = p
  program' : m'.program = p'
  data : m' = m'.withData m
  running : m'.running = m.running
  loops : m'.loops = m.loops.map (Program.shift k)
  calls : m'.calls = m.calls.map (Program.shift k)
  faults : m'.faults = m.faults.map (shiftFault k)
  pc : Aligned k m.pc m'.pc

variable {p p' : Program} {k n : Nat} {name : Bytes} {m m' s s' : Machine} {i i' : Instruction}

theorem shiftPc_nonneg {pc : Int} : 0 ≤ shiftPc k pc ↔ 0 ≤ pc := by
  unfold shiftPc
  split <;> omega

theorem toNat_shiftPc {pc : Int} (h : 0 ≤ pc) :
    (shiftPc k pc).toNat = Program.shift k pc.toNat := by
  unfold shiftPc Program.shift
  split <;> split <;> omega

theorem shiftPc_natCast (j : Nat) : shiftPc k j = Program.shift k j := by
  unfold shiftPc Program.shift
  split <;> split <;> omega

/-- The line after the one at a place; it can be the new line. -/
theorem aligned_succ (k : Nat) (a : Int) : Aligned k (a + 1) (shiftPc k a + 1) := by
  unfold Aligned shiftPc
  split <;> split <;> omega

/-- A branch and the end of a call go on after a line, which is never the new line's own place. -/
theorem aligned_after (k j : Nat) : Aligned k (j + 1 : Nat) (Program.shift k j + 1 : Nat) := by
  have := aligned_succ k j
  rwa [shiftPc_natCast] at this

theorem next_eq (m : Machine) (i : Instruction) : m.next i = (m.jump? i).elim (m.pc + 1) Nat.cast := by
  unfold next
  cases m.jump? i <;> rfl

theorem execute_atLine (m : Machine) (i : Instruction) (n : Nat) :
    m.execute (i.atLine n) = m.execute i := rfl

theorem execute_congr (h : i'.atLine 0 = i.atLine 0) : m.execute i' = m.execute i := by
  rw [← execute_atLine m i' 0, h, execute_atLine]

/-- A label line only moves the program counter. -/
theorem execute_label (h : i.op = .label) : ∃ records, m.execute i =
    { m with pc := m.pc + 1, steps := m.steps + 1, journal := records } := by
  obtain ⟨records, htrace⟩ := trace_eq m i
  have hnext : m.next i = m.pc + 1 := by simp [next, jump?, h]
  have heffect : (m.trace i).effect i = m.trace i := by simp [effect, h]
  refine ⟨records, ?_⟩
  unfold execute
  rw [hnext, heffect, htrace]

theorem control_shifted (h : Shifted p p' k m m') (hpc : m'.pc = shiftPc k m.pc) (hn : 0 ≤ m.pc) :
    (m'.control i).loops = (m.control i).loops.map (Program.shift k) ∧
      (m'.control i).calls = (m.control i).calls.map (Program.shift k) := by
  have hhead : m'.pc.toNat = Program.shift k m.pc.toNat := by
    rw [hpc, toNat_shiftPc hn]
  rw [control_loops, control_loops, control_calls, control_calls, hhead, h.loops, h.calls]
  constructor
  · split <;> rfl
  · split
    · rfl
    · split
      · exact List.map_tail.symm
      · rfl

section Simulation

variable (hp : Program.Inserted k name p p')
include hp

theorem current?_shifted (h : Shifted p p' k m m') (hpc : m'.pc = shiftPc k m.pc) :
    m'.current?.map (·.atLine 0) = m.current?.map (·.atLine 0) := by
  unfold current?
  rw [h.program, h.program', hpc]
  by_cases hn : 0 ≤ m.pc
  · rw [if_pos hn, if_pos (shiftPc_nonneg.mpr hn), toNat_shiftPc hn]
    exact hp.lines _
  · rw [if_neg hn, if_neg (mt shiftPc_nonneg.mp hn)]

theorem branchTarget?_shifted (h : Shifted p p' k m m')
    (hi : ∀ o, i.operand? 0 = some o → o.token ≠ name) :
    m.branchTarget? i = none ∧ m'.branchTarget? i = none ∨
      ∃ j, m.branchTarget? i = some (j + 1) ∧ m'.branchTarget? i = some (Program.shift k j + 1) := by
  unfold branchTarget?
  rw [h.program, h.program']
  cases ho : i.operand? 0 with
  | none => exact Or.inl ⟨rfl, rfl⟩
  | some o =>
    have hlabel := hp.labels o.token (hi o ho)
    cases hj : p.label? o.token with
    | none => simp [hlabel, hj]
    | some j => simp [hlabel, hj]

theorem branch_shifted (h : Shifted p p' k m m') (hpc : m'.pc = shiftPc k m.pc)
    (hi : ∀ o, i.operand? 0 = some o → o.token ≠ name) :
    Aligned k ((m.branchTarget? i).elim (m.pc + 1) Nat.cast)
      ((m'.branchTarget? i).elim (m'.pc + 1) Nat.cast) := by
  rcases branchTarget?_shifted hp h hi with ⟨hj, hj'⟩ | ⟨j, hj, hj'⟩
  · rw [hj, hj', hpc]
    exact aligned_succ k m.pc
  · rw [hj, hj']
    exact aligned_after k j

/-- Whichever way a line is left, its two copies are left for the same line. A loop end is left for the head
itself and not the line behind it, so that an inserted line before the head is skipped. -/
theorem next_shifted (h : Shifted p p' k m m') (hpc : m'.pc = shiftPc k m.pc)
    (hi : i.op = .branchZero ∨ i.op = .branchNonzero →
      ∀ o, i.operand? 0 = some o → o.token ≠ name) :
    Aligned k (m.next i) (m'.next i) := by
  have hsucc : Aligned k (m.pc + 1) (m'.pc + 1) := hpc ▸ aligned_succ k m.pc
  have hpop : m'.pop.1 = m.pop.1 := by
    rw [h.data, pop_withData]
  rw [next_eq, next_eq]
  unfold jump?
  cases hop : i.op with
  | branchZero =>
    rw [hpop]
    cases m.pop.1.isZero with
    | false => exact hsucc
    | true => exact branch_shifted hp h hpc (hi (Or.inl hop))
  | branchNonzero =>
    rw [hpop]
    cases m.pop.1.isZero with
    | false => exact branch_shifted hp h hpc (hi (Or.inr hop))
    | true => exact hsucc
  | loopClose =>
    rw [h.loops]
    cases m.loops with
    | nil => exact hsucc
    | cons j _ => exact Or.inl (shiftPc_natCast j).symm
  | callClose =>
    rw [h.calls]
    cases m.calls with
    | nil => exact hsucc
    | cons j _ => exact aligned_after k j
  | _ => exact hsucc

theorem faultAt_shifted (h : Shifted p p' k m m') (hpc : m'.pc = shiftPc k m.pc) (c : Cause) :
    m'.faultAt c = shiftFault k (m.faultAt c) := by
  have htext : m'.current?.map Instruction.text = m.current?.map Instruction.text := by
    have hcur := congrArg (Option.map Instruction.text) (current?_shifted hp h hpc)
    rw [Option.map_map, Option.map_map] at hcur
    exact hcur
  simp only [faultAt, shiftFault, htext, hpc]

theorem faults_shifted (h : Shifted p p' k m m') (hpc : m'.pc = shiftPc k m.pc)
    (cs : List Cause) : m'.faults ++ cs.map m'.faultAt =
      (m.faults ++ cs.map m.faultAt).map (shiftFault k) := by
  have hcauses : cs.map m'.faultAt = (cs.map m.faultAt).map (shiftFault k) := by
    rw [List.map_map]
    exact List.map_congr_left fun c _ => faultAt_shifted hp h hpc c
  apply Array.toList_inj.mp
  rw [h.faults, hcauses]
  simp

theorem stopped_shifted (h : Shifted p p' k m m') (hpc : m'.pc = shiftPc k m.pc)
    (hstop : m.pending? = none) : m'.pending? = none := by
  have hcur := current?_shifted hp h hpc
  unfold pending? at hstop ⊢
  rw [h.running]
  split at hstop
  · rw [hstop, Option.map_none, Option.map_eq_none_iff] at hcur
    rw [hcur, ite_self]
  · rw [if_neg ‹_›]

/-- Machines at copies of the same line stay together over one step. -/
theorem shifted_execute (hname : ¬ p.Targets name) (h : Shifted p p' k m m')
    (hpc : m'.pc = shiftPc k m.pc) (hi : m.pending? = some i) :
    ∃ i', m'.pending? = some i' ∧ Shifted p p' k (m.execute i) (m'.execute i') := by
  obtain ⟨hrun, hcur⟩ := pending?_eq_some.mp hi
  obtain ⟨hn, hline⟩ := current?_eq_some.mp hcur
  have hcur' := current?_shifted hp h hpc
  rw [hcur] at hcur'
  obtain ⟨i', hi', heq⟩ := Option.map_eq_some_iff.mp hcur'
  have htarget : i.op = .branchZero ∨ i.op = .branchNonzero →
      ∀ o, i.operand? 0 = some o → o.token ≠ name := by
    intro hop o ho hto
    rw [h.program] at hline
    exact hname ⟨i, Array.mem_of_getElem? hline, hop, by rw [ho, Option.map_some, hto]⟩
  obtain ⟨cs, hframe⟩ := execute_frame m i
  obtain ⟨records, hm⟩ := hframe m
  obtain ⟨records', hm'⟩ := hframe m'
  rw [withData_self] at hm
  rw [← h.data] at hm'
  refine ⟨i', pending?_eq_some.mpr ⟨h.running.trans hrun, hi'⟩, ?_⟩
  rw [execute_congr heq]
  refine ⟨?_, ?_, ?_, ?_, ?_, ?_, ?_, next_shifted hp h hpc htarget⟩
  · rw [execute_program, h.program]
  · rw [execute_program, h.program']
  · rw [hm, hm']
    rfl
  · rw [execute_running, execute_running, control_running, control_running, h.running]
  · rw [execute_loops, execute_loops, (control_shifted h hpc hn).1]
  · rw [execute_calls, execute_calls, (control_shifted h hpc hn).2]
  · rw [hm, hm']
    exact faults_shifted hp h hpc cs

/-- A machine at the new line goes over it to the copy of the next line. -/
theorem shifted_label (h : Shifted p p' k m m') (hrun : m.running = true)
    (hk : m.pc = k) (hk' : m'.pc = k) : ∃ i', m'.pending? = some i' ∧
      Shifted p p' k m (m'.execute i') ∧ (m'.execute i').pc = shiftPc k m.pc := by
  obtain ⟨i', hi', hop⟩ := Option.map_eq_some_iff.mp hp.opAt
  have hcur : m'.current? = some i' := by
    rw [current?_eq_some, hk', h.program']
    exact ⟨Int.natCast_nonneg k, hi'⟩
  have hpc : m'.pc + 1 = shiftPc k m.pc := by
    rw [hk, hk', shiftPc, if_neg (Int.lt_irrefl _)]
  obtain ⟨records, hm'⟩ := execute_label (m := m') hop
  refine ⟨i', pending?_eq_some.mpr ⟨h.running.trans hrun, hcur⟩, ?_⟩
  rw [hm']
  refine ⟨⟨h.program, h.program', ?_, h.running, h.loops, h.calls, h.faults, Or.inl hpc⟩, hpc⟩
  have hdata := h.data
  unfold withData at hdata ⊢
  rw [hdata]

/-- The machine on the longer program catches up with at most one step. -/
theorem shifted_align (h : Shifted p p' k m m') (hrun : m.running = true) :
    ∃ c ≤ 1, ∃ s', m'.steps? c = some s' ∧ Shifted p p' k m s' ∧ s'.pc = shiftPc k m.pc := by
  rcases h.pc with hpc | ⟨hk, hk'⟩
  · exact ⟨0, Nat.zero_le 1, m', rfl, h, hpc⟩
  · obtain ⟨i', hi', hs, hpc⟩ := shifted_label hp h hrun hk hk'
    exact ⟨1, Nat.le_refl 1, m'.execute i', steps?_succ hi', hs, hpc⟩

theorem shifted_step (hname : ¬ p.Targets name) (h : Shifted p p' k m m')
    (hi : m.pending? = some i) :
    ∃ c, 1 ≤ c ∧ c ≤ 2 ∧ ∃ s', m'.steps? c = some s' ∧ Shifted p p' k (m.execute i) s' := by
  obtain ⟨c, hc, r', hr', hr, hpc⟩ := shifted_align hp h (pending?_eq_some.mp hi).1
  obtain ⟨i', hi', hs⟩ := shifted_execute hp hname hr hpc hi
  refine ⟨c + 1, by omega, by omega, r'.execute i', ?_, hs⟩
  rw [steps?_add hr', steps?_succ hi']
  rfl

theorem shifted_stop (h : Shifted p p' k m m') (hstop : m.pending? = none) :
    ∃ c s', m'.steps? c = some s' ∧ Shifted p p' k m s' ∧ s'.pending? = none := by
  cases hrun : m.running with
  | false => exact ⟨0, m', rfl, h, by simp [pending?, h.running, hrun]⟩
  | true =>
    obtain ⟨c, -, s', hs', hs, hpc⟩ := shifted_align hp h hrun
    exact ⟨c, s', hs', hs, stopped_shifted hp hs hpc hstop⟩

/-- Whatever the shorter program comes to, the longer one does, with up to twice as many steps. -/
theorem shifted_steps (hname : ¬ p.Targets name) (h : Shifted p p' k m m')
    (hs : m.steps? n = some s) : ∃ n', n ≤ n' ∧ n' ≤ 2 * n ∧
      ∃ s', m'.steps? n' = some s' ∧ Shifted p p' k s s' := by
  induction n generalizing m m' with
  | zero =>
    cases hs
    exact ⟨0, Nat.le_refl 0, Nat.le_refl 0, m', rfl, h⟩
  | succ n ih =>
    obtain ⟨i, hi, hs⟩ := Option.bind_eq_some_iff.mp hs
    obtain ⟨c, hc, hc', r', hr', hr⟩ := shifted_step hp hname h hi
    obtain ⟨n', hn, hn', s', hs', hss⟩ := ih hr hs
    refine ⟨c + n', by omega, by omega, s', ?_, hss⟩
    rw [steps?_add hr', hs']

/-- Whatever the longer program comes to, the shorter one does, without the steps over the label. -/
theorem shifted_steps_back (hname : ¬ p.Targets name) (h : Shifted p p' k m m')
    (hs' : m'.steps? n = some s') : ∃ l ≤ n, ∃ s, m.steps? l = some s ∧ Shifted p p' k s s' := by
  induction n generalizing m m' with
  | zero =>
    cases hs'
    exact ⟨0, Nat.le_refl 0, m, rfl, h⟩
  | succ n ih =>
    obtain ⟨i', hi', hs'⟩ := Option.bind_eq_some_iff.mp hs'
    have hrun : m.running = true := h.running.symm.trans (pending?_eq_some.mp hi').1
    rcases h.pc with hpc | ⟨hk, hk'⟩
    · cases hi : m.pending? with
      | none =>
        rw [stopped_shifted hp h hpc hi] at hi'
        cases hi'
      | some i =>
        obtain ⟨j', hj', hr⟩ := shifted_execute hp hname h hpc hi
        rw [hi'] at hj'
        cases hj'
        obtain ⟨l, hl, s, hs, hss⟩ := ih hr hs'
        exact ⟨l + 1, Nat.succ_le_succ hl, s, by rw [steps?_succ hi, hs], hss⟩
    · obtain ⟨j', hj', hr, -⟩ := shifted_label hp h hrun hk hk'
      rw [hi'] at hj'
      cases hj'
      obtain ⟨l, hl, s, hs, hss⟩ := ih hr hs'
      exact ⟨l, Nat.le_succ_of_le hl, s, hs, hss⟩

theorem stopped_of_shifted (hname : ¬ p.Targets name) (h : Shifted p p' k m m')
    (hstop : m'.pending? = none) : m.pending? = none := by
  cases hi : m.pending? with
  | none => rfl
  | some i =>
    obtain ⟨c, hc, -, s', hs', -⟩ := shifted_step hp hname h hi
    obtain ⟨c, rfl⟩ := Nat.exists_eq_add_of_le' hc
    simp [steps?, hstop] at hs'

end Simulation

/-- The runs of `m` on `p` and of `m'` on `p'` go together: each comes to whatever the other comes to,
so they end alike or not at all. -/
structure Together (p p' : Program) (k : Nat) (m m' : Machine) : Prop where
  forth : ∀ n s, m.steps? n = some s → ∃ n', n ≤ n' ∧ n' ≤ 2 * n ∧
    ∃ s', m'.steps? n' = some s' ∧ Shifted p p' k s s'
  back : ∀ n' s', m'.steps? n' = some s' → ∃ n ≤ n',
    ∃ s, m.steps? n = some s ∧ Shifted p p' k s s'
  ends_iff : (∃ o e, m.Ends o e) ↔ ∃ o' e', m'.Ends o' e'
  ends : ∀ o e o' e', m.Ends o e → m'.Ends o' e' → o' = o ∧ Shifted p p' k e e'

theorem shifted_new (p p' : Program) (k : Nat) (s : Setup) :
    Shifted p p' k (new p s) (new p' s) where
  program := rfl
  program' := rfl
  data := rfl
  running := rfl
  loops := rfl
  calls := rfl
  faults := Array.map_empty.symm
  pc := by
    change Aligned k 0 0
    unfold Aligned shiftPc
    split <;> omega

theorem together_of_shifted (hp : Program.Inserted k name p p') (hname : ¬ p.Targets name)
    (h : Shifted p p' k m m') (hg : m.maxGas = 0) (hg' : m'.maxGas = 0) :
    Together p p' k m m' := by
  have hends : ∀ o e, m.Ends o e → ∃ e', m'.Ends o e' ∧ Shifted p p' k e e' := by
    intro o e he
    obtain ⟨rfl, n, hn, hstop⟩ := (ends_unlimited_iff hg).mp he
    obtain ⟨n', -, -, s', hs', hss⟩ := shifted_steps hp hname h hn
    obtain ⟨c, e', he', hee, hstop'⟩ := shifted_stop hp hss hstop
    exact ⟨e', (ends_unlimited_iff hg').mpr ⟨rfl, n' + c, by rw [steps?_add hs', he'], hstop'⟩, hee⟩
  refine ⟨fun n s => shifted_steps hp hname h, fun n' s' => shifted_steps_back hp hname h, ?_, ?_⟩
  · constructor
    · rintro ⟨o, e, he⟩
      obtain ⟨e', he', -⟩ := hends o e he
      exact ⟨o, e', he'⟩
    · rintro ⟨o', e', he'⟩
      obtain ⟨rfl, n', hn', hstop'⟩ := (ends_unlimited_iff hg').mp he'
      obtain ⟨n, -, e, hn, hee⟩ := shifted_steps_back hp hname h hn'
      have hstop := stopped_of_shifted hp hname hee hstop'
      exact ⟨.finished, e, (ends_unlimited_iff hg).mpr ⟨rfl, n, hn, hstop⟩⟩
  · intro o e o' e' he he'
    obtain ⟨e'', he'', hee⟩ := hends o e he
    obtain ⟨rfl, rfl⟩ := he'.unique he''
    exact ⟨rfl, hee⟩

/-- A label line that no branch asks for can be put in anywhere, and changes nothing but indices. -/
theorem label_insertion {title source source' : Bytes} {ks ls : List Bytes}
    (hsource : Bytes.splitOn Bytes.newline source = ks ++ ls)
    (hsource' : Bytes.splitOn Bytes.newline source' = ks ++ (name ++ [58]) :: ls)
    (hword : Line.words (name ++ [58]) = [name ++ [58]])
    (htrim : Utf8.trim (name ++ [58]) = name ++ [58])
    (hcomment : (text "//").isPrefixOf (name ++ [58]) = false)
    (hload : Program.load title source = .ok p) (hname : ¬ p.Targets name) :
    ∃ p', Program.load title source' = .ok p' ∧ ∀ s : Setup,
      Together p p' (ks.countP fun line => Program.hasContent (Utf8.trim line))
        (new p s) (new p' s) := by
  obtain ⟨p', hp', hi⟩ := Program.inserted_load hsource hsource' hword htrim hcomment hload
  exact ⟨p', hp', fun s => together_of_shifted hi hname (shifted_new p p' _ s) rfl rfl⟩

/-- A label right after a call head, to which the call returns. -/
theorem label_insertion_call :
    ∃ p p', Program.load (text "call") (text "// twice\n\x7b\nP 1\n\x7d\n? out\nout:") = .ok p ∧
      Program.load (text "call") (text "// twice\n\x7b\nbody:\nP 1\n\x7d\n? out\nout:") = .ok p' ∧
      ¬ p.Targets (text "body") ∧ ∀ s : Setup, Together p p' 1 (new p s) (new p' s) := by
  obtain ⟨p, hp, hname⟩ := Program.exists_of_loads (P := fun p => ¬ p.Targets (text "body"))
    (text "call") (text "// twice\n\x7b\nP 1\n\x7d\n? out\nout:") (by decide +kernel)
  have hsource : Bytes.splitOn Bytes.newline
      (text "// twice\n\x7b\nP 1\n\x7d\n? out\nout:") =
      [text "// twice", text "\x7b"] ++ [text "P 1", text "\x7d", text "? out", text "out:"] := by
    decide +kernel
  have hsource' : Bytes.splitOn Bytes.newline
      (text "// twice\n\x7b\nbody:\nP 1\n\x7d\n? out\nout:") =
      [text "// twice", text "\x7b"] ++
        (text "body" ++ [58]) :: [text "P 1", text "\x7d", text "? out", text "out:"] := by
    decide +kernel
  obtain ⟨p', hp', h⟩ := label_insertion hsource hsource' (by decide +kernel) (by decide +kernel)
    (by decide +kernel) hp hname
  have hk : [text "// twice", text "\x7b"].countP
      (fun line => Program.hasContent (Utf8.trim line)) = 1 := by decide +kernel
  rw [hk] at h
  exact ⟨p, p', hp, hp', hname, h⟩

end Machine
end LineMachine
