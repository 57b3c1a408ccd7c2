import Mathlib.Data.List.DropRight
import Mathlib.Data.List.GetD
import LineMachine.Proofs.Changes
import LineMachine.Proofs.Execution
import LineMachine.Proofs.Loading

/-! Instructions only see the values that they take from the stack, unless they reverse or print all of
it. What lies deeper does not matter, and below its bottom a stack is as good as full of zeros. -/
namespace LineMachine.Machine

def withStack (m : Machine) (s : List Value) : Machine := { m with stack := s }

/-- The machine after `n` single steps, which may be taken whether it is running or not. -/
def after? : Nat → Machine → Option Machine
  | 0, m => some m
  | n + 1, m => m.step?.bind (after? n)

/-- No instruction looks at the whole stack. -/
def Shallow (p : Program) : Prop := ∀ i ∈ p.lines, i.op ≠ .reverse ∧ i.op ≠ .stackText

instance (p : Program) : Decidable (Shallow p) :=
  inferInstanceAs (Decidable (∀ i ∈ p.lines, _))

/-- What holds of each of the next `n` steps: of the state that it starts in and its instruction. -/
def Along (m : Machine) (n : Nat) (P : Machine → Instruction → Prop) : Prop :=
  ∀ k < n, ∀ s i, m.after? k = some s → s.current? = some i → P s i

/-- None of the next `n` steps pops a value from an empty stack. -/
def Covered (m : Machine) (n : Nat) : Prop :=
  m.Along n fun s i => (s.change i).takes ≤ s.stack.length

/-- Popping up to `n` values gives the same on both stacks. -/
def AgreeTo (n : Nat) (s t : List Value) : Prop := ∀ k < n, t.getD k (.int 0) = s.getD k (.int 0)

/-- Stacks that are the same above any number of zeros. -/
def AgreeAboveZeros (s t : List Value) : Prop :=
  ∃ above j k, s = above ++ List.replicate j (.int 0) ∧ t = above ++ List.replicate k (.int 0)

/-- A relation of other stacks to `s` that is kept when an instruction takes `n` values from both, and
that makes it find the same values. -/
def Kept (R : List Value → List Value → Prop) (s : List Value) (n : Nat) : Prop :=
  ∀ t, R s t → AgreeTo n s t ∧ ∀ pushes, R (pushes ++ s.drop n) (pushes ++ t.drop n)

/-- The stack without the zeros at its bottom. -/
def withoutZeros (s : List Value) : List Value := s.rdropWhile (· = .int 0)

variable {m : Machine} {i : Instruction} {s t b : List Value} {n : Nat}

theorem takes_result (takes : Nat) (c : Cause) (v : Option Value) :
    (Change.result takes c v).takes = takes := by
  cases v <;> rfl

theorem valueAt_withStack {k : Nat} (h : AgreeTo n m.stack t) (hk : k < n) :
    (m.withStack t).valueAt k = m.valueAt k := h k hk

theorem binaryChange_withStack (f : Value → Value → Option Value)
    (h : AgreeTo (m.binaryChange i f).takes m.stack t) :
    (m.withStack t).binaryChange i f = m.binaryChange i f := by
  unfold binaryChange at h ⊢
  rw [takes_result] at h
  rw [valueAt_withStack h Nat.zero_lt_two, valueAt_withStack h Nat.one_lt_two]

theorem flippedChange_withStack (f : Value → Value → Option Value)
    (h : AgreeTo (m.flippedChange i f).takes m.stack t) :
    (m.withStack t).flippedChange i f = m.flippedChange i f := by
  unfold flippedChange at h ⊢
  rw [takes_result] at h
  rw [valueAt_withStack h Nat.zero_lt_two, valueAt_withStack h Nat.one_lt_two]

/-- An instruction does the same on stacks that agree on what it takes. -/
theorem change_withStack (hop : i.op ≠ .reverse ∧ i.op ≠ .stackText)
    (h : AgreeTo (m.change i).takes m.stack t) : (m.withStack t).change i = m.change i := by
  revert h
  unfold change
  cases hi : i.op with
  | reverse => exact absurd hi hop.1
  | stackText => exact absurd hi hop.2
  | popPrint | dup =>
    intro h
    rw [valueAt_withStack h Nat.zero_lt_one]
  | swap =>
    intro h
    rw [valueAt_withStack h Nat.zero_lt_two, valueAt_withStack h Nat.one_lt_two]
  | arith op => exact binaryChange_withStack _
  | compare op => exact binaryChange_withStack _
  | bitwise op =>
    cases op with
    | xor => exact flippedChange_withStack _
    | and | or => exact binaryChange_withStack _
  | complement =>
    intro h
    rw [takes_result] at h
    rw [valueAt_withStack h Nat.zero_lt_one]
  | _ =>
    intro _
    rfl

/-- Branches decide by the one value that they take. -/
theorem next_withStack (h : AgreeTo (m.change i).takes m.stack t) :
    (m.withStack t).next i = m.next i := by
  have hbranch : i.op = .branchZero ∨ i.op = .branchNonzero →
      (m.withStack t).pop.1 = m.pop.1 := by
    intro hop
    have htakes : (m.change i).takes = 1 := by
      rcases hop with hop | hop <;> simp [change, hop]
    rw [htakes] at h
    rw [pop_eq, pop_eq]
    exact valueAt_withStack h Nat.zero_lt_one
  unfold next jump?
  cases hi : i.op with
  | branchZero =>
    rw [hbranch (Or.inl hi)]
    rfl
  | branchNonzero =>
    rw [hbranch (Or.inr hi)]
    rfl
  | _ => rfl

theorem trace_of_quiet (h : m.debug = false) : m.trace i = m := by
  unfold trace
  rw [h]
  rfl

/-- A step replaces the values it takes by those it pushes, and does nothing else to the stack. -/
theorem execute_withStack (hdebug : m.debug = false) (hop : i.op ≠ .reverse ∧ i.op ≠ .stackText)
    (h : AgreeTo (m.change i).takes m.stack t) : (m.withStack t).execute i =
      (m.execute i).withStack ((m.change i).pushes ++ t.drop (m.change i).takes) := by
  have hdebug' : (m.withStack t).debug = false := hdebug
  rw [execute_change, execute_change, change_withStack hop h, next_withStack h,
    trace_of_quiet hdebug, trace_of_quiet hdebug']
  unfold control
  cases i.op <;> rfl

theorem execute_stack (m : Machine) (i : Instruction) :
    (m.execute i).stack = (m.change i).pushes ++ m.stack.drop (m.change i).takes := by
  rw [execute_change]

theorem kept_append (h : n ≤ s.length) : Kept (fun s t => t = s ++ b) s n := by
  rintro t rfl
  constructor
  · intro k hk
    exact List.getD_append _ _ _ _ (Nat.lt_of_lt_of_le hk h)
  · intro pushes
    rw [List.drop_append_of_le_length h, List.append_assoc]

theorem getD_append_zeros (above : List Value) (j k : Nat) :
    (above ++ List.replicate j (Value.int 0)).getD k (.int 0) = above.getD k (.int 0) := by
  by_cases hk : k < above.length
  · exact List.getD_append _ _ _ _ hk
  · rw [List.getD_append_right _ _ _ _ (by omega), List.getD_eq_default above _ (by omega),
      List.getD_eq_getElem?_getD, List.getElem?_replicate]
    split <;> rfl

/-- Popping zeros from the bottom is popping from an empty stack. -/
theorem kept_aboveZeros (s : List Value) (n : Nat) : Kept AgreeAboveZeros s n := by
  rintro t ⟨above, j, k, rfl, rfl⟩
  constructor
  · intro l _
    rw [getD_append_zeros, getD_append_zeros]
  · intro pushes
    refine ⟨pushes ++ above.drop n, j - (n - above.length), k - (n - above.length), ?_, ?_⟩ <;>
      rw [List.drop_append, List.drop_replicate, List.append_assoc]

theorem withoutZeros_append (above : List Value) (j : Nat) :
    withoutZeros (above ++ List.replicate j (.int 0)) = withoutZeros above := by
  induction j with
  | zero => rw [List.replicate_zero, List.append_nil]
  | succ j ih =>
    rw [List.replicate_succ', ← List.append_assoc, withoutZeros, List.rdropWhile_concat_pos]
    · exact ih
    · simp

theorem AgreeAboveZeros.withoutZeros_eq (h : AgreeAboveZeros s t) :
    withoutZeros t = withoutZeros s := by
  obtain ⟨above, j, k, rfl, rfl⟩ := h
  rw [withoutZeros_append, withoutZeros_append]

theorem rel_imp {α : Type} {R S : α → α → Prop} (h : ∀ a b, R a b → S a b) {x y : Option α}
    (hxy : Option.Rel R x y) : Option.Rel S x y := by
  cases hxy with
  | some hab => exact .some (h _ _ hab)
  | none => exact .none

theorem after?_succ (h : m.current? = some i) : m.after? (n + 1) = (m.execute i).after? n := by
  simp [after?, step?, h]

theorem along_of_stopped {P : Machine → Instruction → Prop} (h : m.current? = none) :
    m.Along n P := by
  intro k _ s i hs hi
  cases k with
  | zero =>
    cases hs
    rw [h] at hi
    cases hi
  | succ k => simp [after?, step?, h] at hs

theorem along_succ {P : Machine → Instruction → Prop} (hi : m.current? = some i) :
    m.Along (n + 1) P ↔ P m i ∧ (m.execute i).Along n P := by
  constructor
  · intro h
    refine ⟨h 0 (Nat.succ_pos n) m i rfl hi, ?_⟩
    intro k hk s j hs hj
    exact h (k + 1) (Nat.succ_lt_succ hk) s j ((after?_succ hi).trans hs) hj
  · rintro ⟨hnow, hlater⟩ k hk s j hs hj
    cases k with
    | zero =>
      cases hs
      rw [hi] at hj
      cases hj
      exact hnow
    | succ k =>
      rw [after?_succ hi] at hs
      exact hlater k (Nat.lt_of_succ_lt_succ hk) s j hs hj

instance decidableAlong (P : Machine → Instruction → Prop) [∀ s i, Decidable (P s i)] :
    ∀ (n : Nat) (m : Machine), Decidable (m.Along n P)
  | 0, _ => .isTrue fun _ hk => absurd hk (Nat.not_lt_zero _)
  | n + 1, m =>
    match h : m.current? with
    | none => .isTrue (along_of_stopped h)
    | some i =>
      have := decidableAlong P n (m.execute i)
      decidable_of_iff (P m i ∧ (m.execute i).Along n P) (along_succ h).symm

instance (m : Machine) (n : Nat) : Decidable (m.Covered n) := decidableAlong _ n m

/-- Machines that differ in their stacks go on together as long as the instructions keep the stacks
related. -/
theorem after?_withStack {R : List Value → List Value → Prop} (hp : Shallow m.program)
    (hdebug : m.debug = false) (hkept : m.Along n fun s i => Kept R s.stack (s.change i).takes)
    (h : R m.stack t) :
    Option.Rel (fun s s' => s' = s.withStack s'.stack ∧ R s.stack s'.stack) (m.after? n)
      ((m.withStack t).after? n) := by
  induction n generalizing m t with
  | zero => exact .some ⟨rfl, h⟩
  | succ n ih =>
    cases hi : m.current? with
    | none =>
      have hi' : (m.withStack t).current? = none := hi
      simp only [after?, step?, hi, hi']
      exact .none
    | some i =>
      have hi' : (m.withStack t).current? = some i := hi
      obtain ⟨hnow, hlater⟩ := (along_succ hi).mp hkept
      obtain ⟨hagree, hreplace⟩ := hnow t h
      have hop := hp i (Array.mem_of_getElem? (current?_eq_some.mp hi).2)
      rw [after?_succ hi, after?_succ hi', execute_withStack hdebug hop hagree]
      apply ih
      · rw [execute_program]
        exact hp
      · rw [execute_change]
        exact hdebug
      · exact hlater
      · rw [execute_stack]
        exact hreplace _

/-- Values put below a stack stay there untouched as long as no step pops an empty stack, and zeros
put there never make a difference but to how many zeros there are. -/
theorem stack_locality (hp : Shallow m.program) (hdebug : m.debug = false) (b : List Value)
    (n : Nat) :
    (m.Covered n → Option.Rel (fun s s' => s' = s.withStack (s.stack ++ b)) (m.after? n)
      ((m.withStack (m.stack ++ b)).after? n)) ∧
    ((∀ v ∈ b, v = .int 0) → Option.Rel (fun s s' => s' = s.withStack s'.stack ∧
        withoutZeros s'.stack = withoutZeros s.stack) (m.after? n)
      ((m.withStack (m.stack ++ b)).after? n)) := by
  constructor
  · intro hcovered
    have hkept : m.Along n fun s i => Kept (fun s t => t = s ++ b) s.stack (s.change i).takes := by
      intro k hk s i hs hi
      exact kept_append (hcovered k hk s i hs hi)
    refine rel_imp ?_ (after?_withStack hp hdebug hkept rfl)
    rintro s s' ⟨hrest, hstack⟩
    rw [hrest, hstack]
  · intro hzeros
    have hkept : m.Along n fun s i => Kept AgreeAboveZeros s.stack (s.change i).takes := by
      intro k _ s i _ _
      exact kept_aboveZeros _ _
    have hstart : AgreeAboveZeros m.stack (m.stack ++ b) := by
      refine ⟨m.stack, 0, b.length, by simp, ?_⟩
      rw [List.eq_replicate_of_mem hzeros, List.length_replicate]
    refine rel_imp ?_ (after?_withStack hp hdebug hkept hstart)
    rintro s s' ⟨hrest, hstack⟩
    exact ⟨hrest, hstack.withoutZeros_eq⟩

/-- Two steps that find all they take, and two that go on below the bottom of the stack. -/
theorem stack_locality_underflow :
    ∃ p, Program.load (text "deep") (text "P 1\nO\nDU\n+") = .ok p ∧
      let m := new p ⟨⟨[], none⟩, .scripted [], text "> ", false⟩
      let b : List Value := [.str (text "below"), .bool true]
      Shallow m.program ∧ m.debug = false ∧ m.Covered 2 ∧ ¬ m.Covered 3 ∧
        Option.Rel (fun s s' => s' = s.withStack (s.stack ++ b)) (m.after? 2)
          ((m.withStack (m.stack ++ b)).after? 2) ∧
        Option.Rel (fun s s' => s' = s.withStack s'.stack ∧
            withoutZeros s'.stack = withoutZeros s.stack) (m.after? 4)
          ((m.withStack (m.stack ++ [.int 0, .int 0])).after? 4) := by
  obtain ⟨p, hp, hshallow, hcovered, hempty⟩ := Program.exists_of_loads
    (P := fun p => Shallow p ∧ (new p ⟨⟨[], none⟩, .scripted [], text "> ", false⟩).Covered 2 ∧
      ¬ (new p ⟨⟨[], none⟩, .scripted [], text "> ", false⟩).Covered 3)
    (text "deep") (text "P 1\nO\nDU\n+") (by decide +kernel)
  refine ⟨p, hp, hshallow, rfl, hcovered, hempty, ?_, ?_⟩
  · exact (stack_locality hshallow rfl _ 2).1 hcovered
  · exact (stack_locality hshallow rfl [.int 0, .int 0] 4).2 (by simp)

end LineMachine.Machine
