import Mathlib.Logic.Function.Iterate
import LineMachine.Proofs.Changes
import LineMachine.Proofs.Gas
import LineMachine.Proofs.StackLocality

/-! Brackets around straight code. A call block goes through its lines twice, since the second call end
finds no call to return to, and a loop without a way out goes through them for ever. -/
namespace LineMachine

namespace Program

/-- Brackets at two indices, and straight code between them. -/
structure IsBlock (p : Program) (opening closing : Opcode) (a b : Nat) : Prop where
  lt : a < b
  opens : p.opAt? a = some opening
  closes : p.opAt? b = some closing
  straight : ∀ j < b, a < j → (p.opAt? j).all Opcode.isStraight = true

instance (p : Program) (opening closing : Opcode) (a b : Nat) :
    Decidable (p.IsBlock opening closing a b) :=
  decidable_of_iff (a < b ∧ p.opAt? a = some opening ∧ p.opAt? b = some closing ∧
      ∀ j < b, a < j → (p.opAt? j).all Opcode.isStraight = true)
    ⟨fun ⟨h, k, l, r⟩ => ⟨h, k, l, r⟩, fun ⟨h, k, l, r⟩ => ⟨h, k, l, r⟩⟩

/-- The `n` instructions from an index on, each with its index. -/
def segment (p : Program) (a n : Nat) : List (Instruction × Nat) :=
  (p.lines.toList.zipIdx.drop a).take n

/-- The instructions between two indices. -/
def between (p : Program) (a b : Nat) : List (Instruction × Nat) := p.segment (a + 1) (b - a - 1)

variable {p : Program} {i : Instruction} {opening closing : Opcode} {a b n : Nat}

theorem segment_succ (h : p.lines[a]? = some i) :
    p.segment a (n + 1) = (i, a) :: p.segment (a + 1) n := by
  have hget : p.lines.toList.zipIdx[a]? = some (i, a) := by
    rw [List.getElem?_zipIdx, Array.getElem?_toList, h, Option.map_some, Nat.zero_add]
  obtain ⟨hlt, hget⟩ := List.getElem?_eq_some_iff.mp hget
  rw [segment, List.drop_eq_getElem_cons hlt, hget, List.take_succ_cons, segment]

theorem exists_of_opAt? {op : Opcode} (h : p.opAt? a = some op) :
    ∃ i, p.lines[a]? = some i ∧ i.op = op :=
  Option.map_eq_some_iff.mp h

theorem IsBlock.exists_straight (h : p.IsBlock opening closing a b) {j : Nat} (hj : a < j)
    (hb : j < b) : ∃ i, p.lines[j]? = some i ∧ i.op.isStraight = true := by
  have hlt : j < p.lines.size := Nat.lt_trans hb (opAt?_lt h.closes)
  have hline : p.lines[j]? = some p.lines[j] := Array.getElem?_eq_getElem hlt
  have hall := h.straight j hb hj
  rw [opAt?, hline] at hall
  exact ⟨_, hline, hall⟩

end Program

namespace Machine

/-- The effects of instructions one after the other, each at its own index. -/
def perform (m : Machine) (is : List (Instruction × Nat)) : Machine :=
  is.foldl (fun m e => { m with pc := e.2 }.effect e.1) m

/-- The machine `t` has done the work that `w` has done, and goes on at a place of its own in the
program, with loops and calls of its own. The number of its steps is its own, too, and so are its records
if steps are traced. -/
structure Placed (p : Program) (w : Machine) (pc : Nat) (loops calls : List Nat) (t : Machine) :
    Prop where
  program : w.program = p
  running : w.running = true
  work : t = { w with
    pc := pc
    loops := loops
    calls := calls
    steps := t.steps
    journal := t.journal }
  records : w.debug = false → t.journal = w.journal

variable {p : Program} {m w t : Machine} {i : Instruction} {opening closing : Opcode} {a b c n : Nat}
  {loops calls loops' calls' : List Nat}

/-- Brackets move the machine and remember where it was, and that is all they do. -/
theorem execute_bracket (h : i.op ∈ [.loopOpen, .loopClose, .callOpen, .callClose]) (m : Machine) :
    m.execute i = { m with
      loops := (m.control i).loops
      calls := (m.control i).calls
      pc := m.next i
      steps := m.steps + 1
      journal := (m.trace i).journal } := by
  have hchange : m.change i = {} := by
    unfold change
    cases hop : i.op <;> simp [hop] at h ⊢
  have hrunning : (m.control i).running = m.running := by
    unfold control
    cases hop : i.op <;> simp [hop] at h ⊢
  rw [execute_change, hchange, hrunning]
  simp

namespace Placed

theorem pc_eq (h : Placed p w a loops calls t) : t.pc = a := by rw [h.work]

theorem pending (h : Placed p w a loops calls t) (hi : p.lines[a]? = some i) :
    t.pending? = some i := by
  have hi' : w.program.lines[a]? = some i := by rw [h.program, hi]
  rw [pending?_eq_some, current?_eq_some, h.work]
  exact ⟨h.running, Int.natCast_nonneg a, hi'⟩

theorem trace_eq_self (h : Placed p w a loops calls t) (hquiet : w.debug = false) :
    t.trace i = t := by
  apply trace_of_quiet
  rw [h.work]
  exact hquiet

/-- What changes depends on the work only, but a fault names the line it comes from. -/
theorem straight (h : Placed p w a loops calls t) (hi : i.op.isStraight = true) :
    Placed p ({ w with pc := a }.effect i) (a + 1) loops calls (t.execute i) := by
  have hchange : t.change i = w.change i := by
    rw [h.work]
    rfl
  have hat : t.faultAt = { w with pc := (a : Int) }.faultAt := by
    rw [h.work]
    rfl
  rw [effect_eq_apply, control_straight hi, apply, reportAll_eq]
  refine ⟨h.program, h.running, ?_, ?_⟩
  · rw [execute_straight hi, hchange, apply, reportAll_eq, hat, h.work]
    rfl
  · intro hquiet
    rw [execute_change, h.trace_eq_self hquiet, h.records hquiet, hchange, hat]
    rfl

/-- Of a bracket, only where it leads and what it remembers is left to find out. -/
theorem bracket (h : Placed p w a loops calls t)
    (hop : i.op ∈ [.loopOpen, .loopClose, .callOpen, .callClose]) (hnext : t.next i = (c : Nat))
    (hloops : (t.control i).loops = loops') (hcalls : (t.control i).calls = calls') :
    Placed p w c loops' calls' (t.execute i) := by
  refine ⟨h.program, h.running, ?_, ?_⟩
  · rw [execute_bracket hop, hnext, hloops, hcalls, h.work]
  · intro hquiet
    rw [execute_bracket hop, h.trace_eq_self hquiet]
    exact h.records hquiet

theorem callOpen (h : Placed p w a loops calls t) (hop : i.op = .callOpen) :
    Placed p w (a + 1) loops (a :: calls) (t.execute i) := by
  apply h.bracket (by simp [hop])
  · rw [next, jump?, hop, h.work]
    rfl
  · rw [control, hop, h.work]
  · rw [control, hop, h.work]
    rfl

theorem callClose (h : Placed p w b loops (a :: calls) t) (hop : i.op = .callClose) :
    Placed p w (a + 1) loops calls (t.execute i) := by
  apply h.bracket (by simp [hop])
  · rw [next, jump?, hop, h.work]
    rfl
  · rw [control, hop, h.work]
  · rw [control, hop, h.work]
    rfl

theorem callClose_nil (h : Placed p w b loops [] t) (hop : i.op = .callClose) :
    Placed p w (b + 1) loops [] (t.execute i) := by
  apply h.bracket (by simp [hop])
  · rw [next, jump?, hop, h.work]
    rfl
  · rw [control, hop, h.work]
  · rw [control, hop, h.work]
    rfl

theorem loopOpen (h : Placed p w a loops calls t) (hop : i.op = .loopOpen) :
    Placed p w (a + 1) (a :: loops) calls (t.execute i) := by
  apply h.bracket (by simp [hop])
  · rw [next, jump?, hop, h.work]
    rfl
  · rw [control, hop, h.work]
    rfl
  · rw [control, hop, h.work]

theorem loopClose (h : Placed p w b (a :: loops) calls t) (hop : i.op = .loopClose) :
    Placed p w a (a :: loops) calls (t.execute i) := by
  apply h.bracket (by simp [hop])
  · rw [next, jump?, hop, h.work]
    rfl
  · rw [control, hop, h.work]
  · rw [control, hop, h.work]

/-- A machine goes through straight code line by line. -/
theorem segment (h : Placed p w a loops calls t)
    (hcode : ∀ j, a ≤ j → j < a + n → ∃ i, p.lines[j]? = some i ∧ i.op.isStraight = true) :
    ∃ u, t.steps? n = some u ∧ Placed p (w.perform (p.segment a n)) (a + n) loops calls u := by
  induction n generalizing w t a with
  | zero => exact ⟨t, rfl, h⟩
  | succ n ih =>
    obtain ⟨i, hline, hi⟩ := hcode a (Nat.le_refl a) (by omega)
    obtain ⟨u, hu, hplaced⟩ := ih (h.straight hi) fun j hj hlt => hcode j (by omega) (by omega)
    refine ⟨u, ?_, ?_⟩
    · rw [steps?_succ (h.pending hline), hu]
    · rw [Program.segment_succ hline, ← Nat.add_assoc, Nat.add_right_comm]
      exact hplaced

section Block

variable (hb : p.IsBlock opening closing a b)
include hb

/-- On the way through a block, the machine is as far behind the opening bracket as it went. -/
theorem within (h : Placed p w (a + 1) loops calls t) (hn : n ≤ b - a - 1) :
    ∃ u, t.steps? n = some u ∧
      Placed p (w.perform (p.segment (a + 1) n)) (a + 1 + n) loops calls u := by
  apply h.segment
  intro j hj hlt
  exact hb.exists_straight (by omega) (by omega)

/-- What is between the brackets takes the machine from one to the other. -/
theorem through (h : Placed p w (a + 1) loops calls t) :
    ∃ u, t.steps? (b - a - 1) = some u ∧
      Placed p (w.perform (p.between a b)) b loops calls u := by
  have hlt := hb.lt
  obtain ⟨u, hu, hplaced⟩ := h.within hb (Nat.le_refl _)
  rw [show a + 1 + (b - a - 1) = b by omega] at hplaced
  exact ⟨u, hu, hplaced⟩

end Block

end Placed

theorem steps?_one (h : m.pending? = some i) : m.steps? 1 = some (m.execute i) := by
  rw [steps?_succ h]
  rfl

/-- A call block up to the first call end, which leads back, and then up to the second one. -/
theorem call_block (hb : p.IsBlock .callOpen .callClose a b) (h : Placed p w a loops calls m) :
    ∃ s t u, Placed p w (a + 1) loops (a :: calls) s ∧ m.steps? 1 = some s ∧
      Placed p (w.perform (p.between a b)) (a + 1) loops calls t ∧ m.steps? (b - a + 1) = some t ∧
      Placed p ((w.perform (p.between a b)).perform (p.between a b)) b loops calls u ∧
        m.steps? (2 * (b - a)) = some u := by
  have hlt := hb.lt
  obtain ⟨i, hi, hopen⟩ := Program.exists_of_opAt? hb.opens
  obtain ⟨j, hj, hclose⟩ := Program.exists_of_opAt? hb.closes
  have hone := steps?_one (h.pending hi)
  have hentered := h.callOpen hopen
  obtain ⟨r, hr, hfirst⟩ := hentered.through hb
  have hleft : m.steps? (b - a) = some r := by
    rw [show b - a = 1 + (b - a - 1) by omega, steps?_add hone, hr]
  have hback := hfirst.callClose hclose
  have hagain : m.steps? (b - a + 1) = some (r.execute j) := by
    rw [steps?_add hleft, steps?_one (hfirst.pending hj)]
  obtain ⟨u, hu, hsecond⟩ := hback.through hb
  refine ⟨_, _, u, hentered, hone, hback, hagain, hsecond, ?_⟩
  rw [show 2 * (b - a) = b - a + 1 + (b - a - 1) by omega, steps?_add hagain, hu]

/-- A machine that runs stands where it stands, before any work. -/
theorem placed_self (hpc : m.pc = a) (hrun : m.running = true) :
    Placed m.program m a m.loops m.calls m := by
  refine ⟨rfl, hrun, ?_, fun _ => rfl⟩
  rw [← hpc]

/-- A machine that comes to a call block of straight code. If no call is open, it goes through the block
twice and on behind it, and there is no open call again. If there are open calls, then it comes to the
call end once and for a second time, having gone through the block twice, with the same open calls. -/
theorem call_block_runs_twice (hb : m.program.IsBlock .callOpen .callClose a b) (hpc : m.pc = a)
    (hrun : m.running = true) :
    let body := m.program.between a b
    let twice := (m.perform body).perform body
    (m.calls = [] → ∃ t, m.steps? (2 * (b - a - 1) + 3) = some t ∧
      Placed m.program twice (b + 1) m.loops [] t) ∧
    ∃ t, m.steps? (2 * (b - a - 1) + 2) = some t ∧ Placed m.program twice b m.loops m.calls t ∧
      ∀ k < 2 * (b - a - 1) + 2, ∀ s, m.steps? k = some s → (s.pc = b ↔ k = b - a) := by
  have hlt := hb.lt
  obtain ⟨s, t, u, hs, hone, ht, hagain, hu, hend⟩ := call_block hb (placed_self hpc hrun)
  rw [show 2 * (b - a) = 2 * (b - a - 1) + 2 by omega] at hend
  refine ⟨?_, u, hend, hu, ?_⟩
  · intro hcalls
    obtain ⟨i, hi, hclose⟩ := Program.exists_of_opAt? hb.closes
    rw [hcalls] at hu
    refine ⟨u.execute i, ?_, hu.callClose_nil hclose⟩
    rw [steps?_add hend (n := 1), steps?_one (hu.pending hi)]
  · intro k hk r hr
    rcases Nat.eq_zero_or_pos k with rfl | hpos
    · cases hr
      omega
    · by_cases hfirst : k ≤ b - a
      · obtain ⟨v, hv, hplaced⟩ := hs.within hb (n := k - 1) (by omega)
        have hplace := hplaced.pc_eq
        rw [show k = 1 + (k - 1) by omega, steps?_add hone, hv] at hr
        cases hr
        omega
      · obtain ⟨v, hv, hplaced⟩ := ht.within hb (n := k - (b - a + 1)) (by omega)
        have hplace := hplaced.pc_eq
        rw [show k = b - a + 1 + (k - (b - a + 1)) by omega, steps?_add hagain, hv] at hr
        cases hr
        omega

/-- The block inside another one. It is entered with an open call first, and when both ends have led back
it is entered again with none. Every time it reads input and faults. -/
theorem call_block_runs_twice_nested :
    let s : Setup := ⟨⟨text "x\n7\ny", none⟩, .scripted [], text "> ", false⟩
    ∃ p, Program.load (text "nested") (text "\x7b\n\x7b\nINPUT\nWHAT\n\x7d") = .ok p ∧
      let m := ((new p s).runFor 8).2
      let m' := ((new p s).runFor 1).2
      let body := m.program.between 1 4
      let body' := m'.program.between 1 4
      (m.program.IsBlock .callOpen .callClose 1 4 ∧ m.pc = 1 ∧ m.running = true ∧ m.calls = [] ∧
        ∃ t, m.steps? 7 = some t ∧
          Placed m.program ((m.perform body).perform body) 5 m.loops [] t) ∧
      m'.program.IsBlock .callOpen .callClose 1 4 ∧ m'.pc = 1 ∧ m'.running = true ∧
        m'.calls = [0] ∧ ∃ t, m'.steps? 6 = some t ∧
          Placed m'.program ((m'.perform body').perform body') 4 m'.loops m'.calls t := by
  intro s
  obtain ⟨p, hp, ⟨hb, hpc, hrun, hcalls⟩, hb', hpc', hrun', hcalls'⟩ := Program.exists_of_loads
    (P := fun p =>
      let m := ((new p s).runFor 8).2
      let m' := ((new p s).runFor 1).2
      (m.program.IsBlock .callOpen .callClose 1 4 ∧ m.pc = 1 ∧ m.running = true ∧ m.calls = []) ∧
        m'.program.IsBlock .callOpen .callClose 1 4 ∧ m'.pc = 1 ∧ m'.running = true ∧
          m'.calls = [0])
    (text "nested") (text "\x7b\n\x7b\nINPUT\nWHAT\n\x7d") (by decide +kernel)
  obtain ⟨hclosed, -⟩ := call_block_runs_twice hb hpc hrun
  obtain ⟨-, t, ht, hplaced, -⟩ := call_block_runs_twice hb' hpc' hrun'
  exact ⟨p, hp, ⟨hb, hpc, hrun, hcalls, hclosed hcalls⟩, hb', hpc', hrun', hcalls', t, ht, hplaced⟩

/-- One round of a loop. -/
theorem loop_block (hb : p.IsBlock .loopOpen .loopClose a b) (h : Placed p w a loops calls m) :
    ∃ t, m.steps? (b - a + 1) = some t ∧
      Placed p (w.perform (p.between a b)) a (a :: loops) calls t := by
  have hlt := hb.lt
  obtain ⟨i, hi, hopen⟩ := Program.exists_of_opAt? hb.opens
  obtain ⟨j, hj, hclose⟩ := Program.exists_of_opAt? hb.closes
  obtain ⟨r, hr, hround⟩ := (h.loopOpen hopen).through hb
  have hleft : m.steps? (b - a) = some r := by
    rw [show b - a = 1 + (b - a - 1) by omega, steps?_add (steps?_one (h.pending hi)), hr]
  refine ⟨r.execute j, ?_, hround.loopClose hclose⟩
  rw [steps?_add hleft, steps?_one (hround.pending hj)]

theorem loop_rounds (hb : p.IsBlock .loopOpen .loopClose a b) (h : Placed p w a loops calls m)
    (n : Nat) : ∃ t, m.steps? (n * (b - a + 1)) = some t ∧
      Placed p ((·.perform (p.between a b))^[n] w) a (List.replicate n a ++ loops) calls t := by
  induction n with
  | zero => exact ⟨m, by rw [Nat.zero_mul]; rfl, h⟩
  | succ n ih =>
    obtain ⟨s, hs, hbefore⟩ := ih
    obtain ⟨t, ht, hafter⟩ := loop_block hb hbefore
    refine ⟨t, ?_, ?_⟩
    · rw [Nat.succ_mul, steps?_add hs, ht]
    · rw [Function.iterate_succ_apply', List.replicate_succ]
      exact hafter

/-- What goes on for some steps goes on for fewer. -/
theorem steps?_of_lt {k : Nat} (h : m.steps? n = some t) (hk : k < n) :
    ∃ s i, m.steps? k = some s ∧ s.pending? = some i := by
  obtain ⟨s, hs⟩ | ⟨j, hj, s, hs, hstop⟩ := steps?_or_stops m k
  · obtain ⟨l, rfl⟩ : ∃ l, n = k + (l + 1) := ⟨n - k - 1, by omega⟩
    rw [steps?_add hs] at h
    obtain ⟨i, hi, -⟩ := Option.bind_eq_some_iff.mp h
    exact ⟨s, i, hs, hi⟩
  · obtain ⟨l, rfl⟩ : ∃ l, n = j + (l + 1) := ⟨n - j - 1, by omega⟩
    rw [steps?_add hs, steps?, hstop] at h
    cases h

/-- A machine that comes to a loop of straight code is at the loop head again after every round. It has
done the work of the round then, and remembers the loop head once more for it. So without a limit its run
has no end, and under a limit it takes as many steps as there is gas and fails. -/
theorem loop_never_ends (hb : m.program.IsBlock .loopOpen .loopClose a b) (hpc : m.pc = a)
    (hrun : m.running = true) :
    let body := m.program.between a b
    (∀ n, ∃ t, m.steps? (n * (b - a + 1)) = some t ∧
      Placed m.program ((·.perform body)^[n] m) a (List.replicate n a ++ m.loops) m.calls t) ∧
    (∀ g : Int64, 1 ≤ g → ∃ s, m.steps? g.toInt.toNat = some s ∧
      (m.setGas g).Ends (.exhausted s.steps)
        { (s.withGas 0 g).fault (.outOfGas s.steps) with running := false }) ∧
    ¬∃ o e, (m.setGas 0).Ends o e := by
  have hrounds := loop_rounds hb (placed_self hpc hrun)
  have hgoes : ∀ k, ∃ s i, m.steps? k = some s ∧ s.pending? = some i := by
    intro k
    obtain ⟨t, ht, -⟩ := hrounds (k + 1)
    have hlt : k < (k + 1) * (b - a + 1) :=
      Nat.lt_of_lt_of_le (Nat.lt_succ_self k) (Nat.le_mul_of_pos_right _ (by omega))
    exact steps?_of_lt ht hlt
  refine ⟨hrounds, ?_, ?_⟩
  · intro g hg
    obtain ⟨s, i, hs, hi⟩ := hgoes g.toInt.toNat
    exact ⟨s, hs, ends_at_limit hg hs hi⟩
  · rintro ⟨o, e, hends⟩
    obtain ⟨-, k, hk, hstop⟩ := (ends_unlimited_iff rfl).mp hends
    obtain ⟨s, i, hs, hi⟩ := hgoes k
    have hk' : (m.setGas 0).steps? k = some (s.withGas 0 0) := by
      change (m.withGas 0 0).steps? k = _
      rw [steps?_withGas, hs]
      rfl
    rw [hk'] at hk
    cases hk
    have hi' : (s.withGas 0 0).pending? = some i := hi
    rw [hi'] at hstop
    cases hstop

/-- A loop behind a line of its own, cut in its second round. -/
theorem loop_never_ends_input :
    let s : Setup := ⟨⟨text "x\n7", none⟩, .scripted [], text "> ", false⟩
    ∃ p, Program.load (text "reading") (text "P 1\n[\nINPUT\nWHAT\n]\nQ") = .ok p ∧
      let m := ((new p s).runFor 1).2
      let body := m.program.between 1 4
      m.program.IsBlock .loopOpen .loopClose 1 4 ∧ m.pc = 1 ∧ m.running = true ∧
        (∃ t, m.steps? 12 = some t ∧
          Placed m.program ((·.perform body)^[3] m) 1 (1 :: 1 :: 1 :: m.loops) m.calls t) ∧
        (∃ s, m.steps? 6 = some s ∧ (m.setGas 6).Ends (.exhausted s.steps)
          { (s.withGas 0 6).fault (.outOfGas s.steps) with running := false }) ∧
        ¬∃ o e, (m.setGas 0).Ends o e := by
  intro s
  obtain ⟨p, hp, hb, hpc, hrun⟩ := Program.exists_of_loads
    (P := fun p =>
      let m := ((new p s).runFor 1).2
      m.program.IsBlock .loopOpen .loopClose 1 4 ∧ m.pc = 1 ∧ m.running = true)
    (text "reading") (text "P 1\n[\nINPUT\nWHAT\n]\nQ") (by decide +kernel)
  obtain ⟨hrounds, hlimit, hends⟩ := loop_never_ends hb hpc hrun
  exact ⟨p, hp, hb, hpc, hrun, hrounds 3, hlimit 6 (by decide), hends⟩

end Machine
end LineMachine
