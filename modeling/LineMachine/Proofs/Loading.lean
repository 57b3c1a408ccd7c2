import LineMachine.Program.Basic

/-! What loading a source guarantees of a program. -/
namespace LineMachine.Program

/-- The operation at an index. -/
def opAt? (p : Program) (j : Nat) : Option Opcode := p.lines[j]?.map Instruction.op

/-- Every label is bound to a line of the program. -/
def Closed (p : Program) : Prop := ∀ name j, p.label? name = some j → j < p.size

/-- Adds lines with their numbers, one after the other. -/
def addLines (p : Program) (ls : List (Nat × Bytes)) : Except Problem Program :=
  ls.foldlM (fun p (n, s) => p.addLine n s) p

variable {p q r : Program} {n : Nat} {s : Bytes} {ls : List (Nat × Bytes)}

theorem opAt?_lt {op : Opcode} {j : Nat} (h : p.opAt? j = some op) : j < p.size := by
  obtain ⟨i, hi, -⟩ := Option.map_eq_some_iff.mp h
  exact (Array.getElem?_eq_some_iff.mp hi).choose

theorem addLine_eq_ok (h : p.addLine n s = .ok q) : ∃ l, Line.parse s = .ok l ∧
    q = { p with
      lines := p.lines.push (Instruction.ofLine n s l)
      labels := match Bytes.dropFinal? 58 s with
        | some name => p.labels.insert name p.size
        | none => p.labels } := by
  unfold addLine at h
  split at h
  · cases h
  · cases h
    exact ⟨_, ‹_›, rfl⟩

theorem exists_addLine {l : Line} (h : Line.parse s = .ok l) (p : Program) (n : Nat) :
    ∃ q, p.addLine n s = .ok q := by
  unfold addLine
  rw [h]
  exact ⟨_, rfl⟩

theorem addLines_cons (p : Program) (n : Nat) (s : Bytes) (ls : List (Nat × Bytes)) :
    p.addLines ((n, s) :: ls) = (p.addLine n s).bind fun q => q.addLines ls := rfl

theorem addLines_cons_ok (h : p.addLines ((n, s) :: ls) = .ok r) :
    ∃ q, p.addLine n s = .ok q ∧ q.addLines ls = .ok r := by
  rw [addLines_cons] at h
  cases hq : p.addLine n s with
  | error e => rw [hq] at h; cases h
  | ok q => rw [hq] at h; exact ⟨q, rfl, h⟩

theorem addLines_append (p : Program) (ks ls : List (Nat × Bytes)) :
    p.addLines (ks ++ ls) = (p.addLines ks).bind fun q => q.addLines ls := by
  unfold addLines
  rw [List.foldlM_append]
  rfl

/-- What every line keeps is kept by all of them. -/
theorem addLines_preserves {P : Program → Prop}
    (hstep : ∀ p q, ∀ l ∈ ls, P p → p.addLine l.1 l.2 = .ok q → P q) (hp : P p)
    (h : p.addLines ls = .ok q) : P q := by
  induction ls generalizing p with
  | nil =>
    cases h
    exact hp
  | cons l ls ih =>
    obtain ⟨r, hr, hq⟩ := addLines_cons_ok h
    have hr' := hstep p r l List.mem_cons_self hp hr
    exact ih (fun p q k hk => hstep p q k (List.mem_cons_of_mem l hk)) hr' hq

theorem closed_addLine (hp : p.Closed) (h : p.addLine n s = .ok q) : q.Closed := by
  obtain ⟨l, -, rfl⟩ := addLine_eq_ok h
  intro name j hj
  have hsize : ∀ j, j < p.size → j < (p.lines.push (Instruction.ofLine n s l)).size := by
    intro j hj
    rw [Array.size_push]
    exact Nat.lt_succ_of_lt hj
  simp only [label?] at hj
  split at hj
  · rw [Std.ExtTreeMap.getElem?_insert] at hj
    split at hj
    · cases hj
      simp [size]
    · exact hsize j (hp name j hj)
  · exact hsize j (hp name j hj)

theorem closed_addLines (hp : p.Closed) (h : p.addLines ls = .ok q) : q.Closed :=
  addLines_preserves (fun _ _ _ _ hp h => closed_addLine hp h) hp h

theorem closed_empty (name : Bytes) : Closed ⟨name, #[], ∅⟩ := by
  intro x j hj
  simp [label?] at hj

theorem closed_load {name source : Bytes} (h : load name source = .ok p) : p.Closed :=
  closed_addLines (closed_empty name) h

/-- A check of what a concrete source loads to. -/
theorem exists_of_loads (name source : Bytes) {P : Program → Prop} [DecidablePred P]
    (h : (load name source).toOption.any (decide <| P ·) = true) :
    ∃ p, load name source = .ok p ∧ P p := by
  cases hl : load name source with
  | error e => rw [hl] at h; cases h
  | ok p =>
    rw [hl] at h
    exact ⟨p, rfl, of_decide_eq_true h⟩

end LineMachine.Program
