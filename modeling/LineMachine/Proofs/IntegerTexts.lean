import LineMachine.Proofs.InputLines
import LineMachine.Proofs.Labels
import LineMachine.Proofs.Safety

/-! Texts that spell integers. Wherever a text is taken for an integer, in a program, in a variable, in its
cell or in a line of input, the same texts are taken for the same integers, and integers are printed as
such texts. -/
namespace LineMachine

namespace Decimal

/-- A row of digits, possibly after a sign. -/
inductive Spells : Bytes → Int → Prop
  | plain {s : Bytes} {n : Nat} : Numeral s n → Spells s n
  | plus {s : Bytes} {n : Nat} : Numeral s n → Spells (43 :: s) n
  | minus {s : Bytes} {n : Nat} : Numeral s n → Spells (45 :: s) (-n)

variable {s t : Bytes} {n : Nat} {k : Int} {w : Int64}

theorem Numeral.exists_cons (h : Numeral s n) : ∃ b rest, s = b :: rest ∧ isDigit b = true := by
  obtain ⟨hne, hdigits, -⟩ := h
  obtain ⟨b, rest, rfl⟩ := List.exists_cons_of_ne_nil hne
  exact ⟨b, rest, rfl, isDigit_iff.mpr (hdigits b List.mem_cons_self)⟩

theorem readInt?_minus (s : Bytes) :
    readInt? (45 :: s) = (readNat? s).map fun n : Nat => -(n : Int) := by
  rw [readInt?, if_pos rfl]
  cases readNat? s <;> rfl

theorem readInt?_plus (s : Bytes) :
    readInt? (43 :: s) = (readNat? s).map fun n : Nat => (n : Int) := by
  rw [readInt?, if_neg (by decide), if_pos rfl]
  cases readNat? s <;> rfl

theorem readInt?_eq_some_iff : readInt? t = some k ↔ Spells t k := by
  constructor
  · intro h
    cases t with
    | nil => cases h
    | cons b s =>
      by_cases hminus : b = 45
      · rw [hminus, readInt?_minus] at h
        obtain ⟨n, hn, rfl⟩ := Option.map_eq_some_iff.mp h
        rw [hminus]
        exact .minus (readNat?_eq_some_iff.mp hn)
      by_cases hplus : b = 43
      · rw [hplus, readInt?_plus] at h
        obtain ⟨n, hn, rfl⟩ := Option.map_eq_some_iff.mp h
        rw [hplus]
        exact .plus (readNat?_eq_some_iff.mp hn)
      rw [readInt?_unsigned hminus hplus] at h
      obtain ⟨n, hn, rfl⟩ := Option.map_eq_some_iff.mp h
      exact .plain (readNat?_eq_some_iff.mp hn)
  · rintro (hn | hn | hn)
    · obtain ⟨b, rest, rfl, hb⟩ := hn.exists_cons
      rw [readInt?_of_digit hb, readNat?_eq_some_iff.mpr hn, Option.map_some]
    · rw [readInt?_plus, readNat?_eq_some_iff.mpr hn, Option.map_some]
    · rw [readInt?_minus, readNat?_eq_some_iff.mpr hn, Option.map_some]

theorem readInt64?_eq_some_iff : readInt64? t = some w ↔ Spells t w.toInt := by
  simp only [readInt64?, Option.bind_eq_some_iff, readInt?_eq_some_iff, toInt64?_eq_some_iff]
  constructor
  · rintro ⟨k, hk, rfl⟩
    exact hk
  · intro h
    exact ⟨_, h, rfl⟩

theorem readInt64?_eq_none_iff : readInt64? t = none ↔ ∀ w : Int64, ¬Spells t w.toInt := by
  simp only [Option.eq_none_iff_forall_ne_some, ne_eq, readInt64?_eq_some_iff]

/-! What is written is read back. -/

theorem toNat_of_isDigit {c : Char} (h : c.isDigit = true) :
    (UInt8.ofNat c.toNat).toNat = c.toNat ∧ 48 ≤ c.toNat ∧ c.toNat ≤ 57 := by
  simp only [Char.isDigit, Bool.and_eq_true, decide_eq_true_eq] at h
  have hlow : 48 ≤ c.toNat := h.1
  have hhigh : c.toNat ≤ 57 := h.2
  exact ⟨UInt8.toNat_ofNat_of_lt (by change c.toNat < 256; omega), hlow, hhigh⟩

theorem value_digits {cs : List Char} (h : ∀ c ∈ cs, c.isDigit = true) :
    value (cs.map fun c => UInt8.ofNat c.toNat) = Nat.ofDigitChars 10 cs 0 := by
  rw [value, List.foldl_map, Nat.ofDigitChars]
  refine List.foldl_ext _ _ 0 ?_
  intro n c hc
  rw [(toNat_of_isDigit (h c hc)).1]
  rfl

theorem numeral_ofNat (n : Nat) : Numeral (ofNat n) n := by
  have hdigits : ∀ c ∈ Nat.toDigits 10 n, c.isDigit = true :=
    fun c => Nat.isDigit_of_mem_toDigits (by decide) (by decide)
  have hvalue : value (ofNat n) = n := by
    rw [ofNat, value_digits hdigits, Nat.ofDigitChars_toDigits (by decide) (by decide)]
  refine ⟨?_, ?_, ?_⟩
  · rw [ofNat, ne_eq, List.map_eq_nil_iff]
    exact Nat.toDigits_ne_nil
  · intro b hb
    obtain ⟨c, hc, rfl⟩ := List.mem_map.mp hb
    obtain ⟨heq, hrange⟩ := toNat_of_isDigit (hdigits c hc)
    rw [heq]
    exact hrange
  · rw [← value_eq_ofDigits, hvalue]

theorem isDigit_of_mem_ofNat {b : UInt8} (h : b ∈ ofNat n) : isDigit b = true :=
  isDigit_iff.mpr ((numeral_ofNat n).2.1 b h)

theorem spells_ofInt (k : Int) : Spells (ofInt k) k := by
  cases k with
  | ofNat n => exact .plain (numeral_ofNat n)
  | negSucc n => exact .minus (numeral_ofNat (n + 1))

end Decimal

open Decimal (Spells)

theorem Value.spells_print (n : Int64) : Spells (Value.int n).print n.toInt :=
  Decimal.spells_ofInt n.toInt

namespace Operand

theorem head?_of_spells {t : Bytes} {k : Int} (h : Spells t k) : t.head? ≠ some dollar := by
  cases h with
  | plain hn =>
    obtain ⟨b, rest, rfl, hb⟩ := hn.exists_cons
    rintro ⟨⟩
    cases hb
  | plus hn | minus hn => exact fun heq => by cases heq

/-- A word is a literal if it spells an integer that fits a word. -/
theorem ofToken_eq_literal_iff {s t : Bytes} {n : Int64} :
    ofToken t = .literal s n ↔ s = t ∧ Spells t n.toInt := by
  rw [ofToken]
  constructor
  · intro h
    split at h
    · cases h
    · split at h
      · rename_i hread
        cases h
        exact ⟨rfl, Decimal.readInt64?_eq_some_iff.mp hread⟩
      · cases h
  · rintro ⟨rfl, h⟩
    rw [if_neg (head?_of_spells h), Decimal.readInt64?_eq_some_iff.mpr h]

end Operand
/-- The places of the operands that an instruction reads as integers. -/
def Instruction.integerPlaces (i : Instruction) : List Nat :=
  match i.op with
  | .memSet => [0, 1]
  | .memGet => [0]
  | .random => if i.operands = [] then [] else [0]
  | _ => []

namespace Machine

/-- What is wrong with the operands that are read as integers, a cause for each that is not one. -/
def misreadings (m : Machine) (i : Instruction) : List Cause :=
  i.integerPlaces.filterMap fun k => problem (m.intOperand i k)

variable {m : Machine} {i : Instruction} {name t : Bytes} {k : Nat} {n : Int64} {v : Value}

theorem intOperand_variable (ho : i.operand? k = some (.ref name)) :
    m.intOperand i k = match (m.getVar name).reading? with
      | some n => .ok n
      | none => .error (.notInteger (Operand.dollar :: name)) := by
  rw [intOperand, ho]
  rfl

theorem intOperand_str_iff (ho : i.operand? k = some (.ref name)) (hv : m.getVar name = .str t) :
    m.intOperand i k = .ok n ↔ Spells t n.toInt := by
  rw [← Decimal.readInt64?_eq_some_iff, intOperand_variable ho, hv, Value.reading?]
  cases Decimal.readInt64? t <;> simp

theorem intOperand_str_error (ho : i.operand? k = some (.ref name)) (hv : m.getVar name = .str t)
    (h : ∀ n : Int64, ¬Spells t n.toInt) :
    m.intOperand i k = .error (.notInteger (Operand.dollar :: name)) := by
  rw [intOperand_variable ho, hv, Value.reading?, Decimal.readInt64?_eq_none_iff.mpr h]

theorem cell_str (h : Spells t n.toInt) : (Value.str t).cell = n := by
  rw [Value.cell, Value.reading?, Decimal.readInt64?_eq_some_iff.mpr h, Option.getD_some]

theorem cell_str_zero (h : ∀ n : Int64, ¬Spells t n.toInt) : (Value.str t).cell = 0 := by
  rw [Value.cell, Value.reading?, Decimal.readInt64?_eq_none_iff.mpr h, Option.getD_none]

theorem intOperand_other (ho : i.operand? k = some (.ref name)) (hv : (m.getVar name).kind ≠ .str) :
    m.intOperand i k = .ok (m.getVar name).cell := by
  rw [intOperand_variable ho]
  cases h : m.getVar name with
  | str s => exact absurd (congrArg Value.kind h) hv
  | _ => rfl

theorem misreadings_memSet (hop : i.op = .memSet) : m.misreadings i =
    (problem (m.intOperand i 0)).toList ++ (problem (m.intOperand i 1)).toList := by
  rw [misreadings, Instruction.integerPlaces, hop]
  cases h : problem (m.intOperand i 0) <;> cases h' : problem (m.intOperand i 1) <;> simp [h, h']

theorem misreadings_first (hplaces : i.integerPlaces = [0]) :
    m.misreadings i = (problem (m.intOperand i 0)).toList := by
  rw [misreadings, hplaces]
  cases h : problem (m.intOperand i 0) <;> simp [h]

/-- The causes that are reported of a reading instruction: those for the operands that cannot be read, or
others if it could read all of them. -/
def ReportedBy (misreadings causes : List Cause) : Prop :=
  ∃ others, causes = misreadings ++ others ∧ (misreadings ≠ [] → others = []) ∧
    ∀ s, .notInteger s ∉ others

theorem ReportedBy.misread (causes : List Cause) : ReportedBy causes causes :=
  ⟨[], (List.append_nil _).symm, fun _ => rfl, fun _ => List.not_mem_nil⟩

theorem ReportedBy.other {cause : Cause} (h : ∀ s, cause ≠ .notInteger s) :
    ReportedBy [] [cause] :=
  ⟨[cause], rfl, fun hnil => absurd rfl hnil,
    fun s hs => h s (List.mem_singleton.mp hs).symm⟩

theorem reportedBy_memSet (hop : i.op = .memSet) :
    ReportedBy (m.misreadings i) (m.memSetChange i).causes := by
  rw [misreadings_memSet hop, memSetChange]
  rcases m.intOperand i 0 with c | address
  · exact ReportedBy.misread _
  · rcases m.intOperand i 1 with d | n
    · exact ReportedBy.misread _
    · simp only
      cases Address.ofInt? address.toInt with
      | none => exact ReportedBy.other fun _ => Cause.noConfusion
      | some a => exact ReportedBy.misread _

theorem reportedBy_memGet (hop : i.op = .memGet) :
    ReportedBy (m.misreadings i) (m.memGetChange i).causes := by
  rw [misreadings_first (by rw [Instruction.integerPlaces, hop]), memGetChange]
  rcases m.intOperand i 0 with c | address
  · exact ReportedBy.misread _
  · simp only
    cases Address.ofInt? address.toInt with
    | none => exact ReportedBy.other fun _ => Cause.noConfusion
    | some a => exact ReportedBy.misread _

theorem reportedBy_random (hop : i.op = .random) (hoperands : i.operands ≠ []) :
    ReportedBy (m.misreadings i) (m.randomChange i).causes := by
  rw [misreadings_first (by rw [Instruction.integerPlaces, hop]; exact if_neg hoperands),
    randomChange, limit, if_neg hoperands]
  rcases m.intOperand i 0 with c | n
  · exact ReportedBy.misread _
  · simp only
    split
    · rename_i hlimit
      split at hlimit
      · cases hlimit
        exact ReportedBy.other fun _ => Cause.noConfusion
      · cases hlimit
    · exact ReportedBy.misread _

/-- Operands that cannot be read are what a reading instruction reports, one by one. It reports something
else only if it could read them all. -/
theorem reportedBy_change (h : i.integerPlaces ≠ []) :
    ReportedBy (m.misreadings i) (m.change i).causes := by
  unfold change
  cases hop : i.op with
  | memSet => exact reportedBy_memSet hop
  | memGet => exact reportedBy_memGet hop
  | random =>
    refine reportedBy_random hop ?_
    intro hoperands
    rw [Instruction.integerPlaces, hop] at h
    exact h (if_pos hoperands)
  | _ =>
    rw [Instruction.integerPlaces, hop] at h
    exact absurd rfl h

/-- A number that input stores is spelled by the line it was read from. -/
theorem spells_inputLine (hop : i.op = .input)
    (h : (m.execute i).getVar (inputName i) = .int n) : Spells m.inputLine n.toInt := by
  have hstored : (m.execute i).getVar (inputName i) = inputValue m.inputLine := by
    rw [execute_input hop]
    simp [getVar, setVar]
  rw [hstored, inputValue] at h
  split at h
  · rename_i hnumber
    cases h
    obtain ⟨k, hk, hn⟩ := inputNumber?_eq_some_iff.mp hnumber
    rw [hn]
    exact .plain hk
  · cases h

/-- A machine that is at a line takes a step with the instruction that was read from it. -/
theorem exists_step_at_line {p : Program} {source s w : Bytes} {ws : List Bytes}
    (hp : Program.load name source = .ok p) (hprogram : m.program = p) (hpc : 0 ≤ m.pc)
    (hline : (Program.lineTexts source)[m.pc.toNat]? = some s) (hwords : Line.words s = w :: ws) :
    ∃ i, m.step? = some (m.execute i) ∧ i.op = Opcode.ofMnemonic w ∧
      i.operands = ws.map Operand.ofToken := by
  obtain ⟨i, hi, hop, hoperands, -⟩ := Program.exists_instruction hp hline hwords
  have hcurrent : m.current? = some i := current?_eq_some.mpr ⟨hpc, hprogram ▸ hi⟩
  exact ⟨i, by rw [step?, hcurrent, Option.map_some], hop, hoperands⟩

/-- What a line pushes is up to the first word after the mnemonic. -/
theorem step?_push {p : Program} {source s : Bytes} {ws : List Bytes}
    (hp : Program.load name source = .ok p) (hprogram : m.program = p) (hpc : 0 ≤ m.pc)
    (hline : (Program.lineTexts source)[m.pc.toNat]? = some s)
    (hwords : Line.words s = text "P" :: t :: ws) : ∃ m', m.step? = some m' ∧
      m'.stack = m.operandValue (Operand.ofToken t) :: m.stack ∧ m'.faults = m.faults := by
  obtain ⟨i, hstep, hop, hoperands⟩ := exists_step_at_line hp hprogram hpc hline hwords
  have hpush : i.op = .push := hop.trans (by decide)
  have hoperand : i.operand? 0 = some (Operand.ofToken t) := by
    rw [Instruction.operand?, hoperands]
    rfl
  have hchange : m.change i = { pushes := [m.operandValue (Operand.ofToken t)] } := by
    simp only [change, hpush, pushChange, hoperand]
  refine ⟨m.execute i, hstep, ?_, ?_⟩
  · rw [execute_change, hchange]
    rfl
  · rw [execute_change, hchange]
    exact Array.append_empty

/-- A line that pushes what an integer is printed as pushes the integer. -/
theorem step?_push_printed {p : Program} {source s : Bytes} {ws : List Bytes}
    (hp : Program.load name source = .ok p) (hprogram : m.program = p) (hpc : 0 ≤ m.pc)
    (hline : (Program.lineTexts source)[m.pc.toNat]? = some s)
    (hwords : Line.words s = text "P" :: (Value.int n).print :: ws) :
    ∃ m', m.step? = some m' ∧ m'.stack = .int n :: m.stack ∧ m'.faults = m.faults := by
  have hpushed := step?_push hp hprogram hpc hline hwords
  rwa [Operand.ofToken_eq_literal_iff.mpr ⟨rfl, Value.spells_print n⟩] at hpushed

theorem output_popPrint {rest : List Value} (hop : i.op = .popPrint) (hstack : m.stack = v :: rest) :
    (m.execute i).output = m.output ++ (v.print ++ [Bytes.newline]) := by
  have hvalue : m.valueAt 0 = v := by
    rw [valueAt, hstack]
    rfl
  rw [execute_change]
  simp only [change, hop, hvalue]

/-- The same texts are the same integers as operands of a program, as operands that are read from variables, and
in the cells of variables. Input stores such texts as integers, and an integer that was printed is pushed again
by a line with its text. -/
theorem integer_texts_agree :
    (∀ (t : Bytes) (n : Int64), (∃ s, Operand.ofToken t = .literal s n) ↔ Spells t n.toInt) ∧
    (∀ (m : Machine) (i : Instruction) (k : Nat) (name : Bytes), i.operand? k = some (.ref name) →
      (∀ t, m.getVar name = .str t →
        (∀ n : Int64, (m.intOperand i k = .ok n ↔ Spells t n.toInt) ∧
          (Spells t n.toInt → (Value.str t).cell = n)) ∧
        ((∀ n : Int64, ¬Spells t n.toInt) →
          let cause := Cause.notInteger (Operand.dollar :: name)
          m.intOperand i k = .error cause ∧ cause.code = 3 ∧ (Value.str t).cell = 0)) ∧
      ((m.getVar name).kind ≠ .str → m.intOperand i k = .ok (m.getVar name).cell)) ∧
    (∀ (m : Machine) (i : Instruction), m.current? = some i → i.integerPlaces ≠ [] →
      ∃ causes, ReportedBy (m.misreadings i) causes ∧
        (m.execute i).faults = m.faults ++ causes.map fun c => Fault.mk c m.pc i.text) ∧
    (∀ (m : Machine) (i : Instruction) (n : Int64), i.op = .input →
      (m.execute i).getVar (inputName i) = .int n →
      Operand.ofToken m.inputLine = .literal m.inputLine n) ∧
    ∀ n : Int64, let printed := (Value.int n).print
      Operand.ofToken printed = .literal printed n ∧
      (∀ (m : Machine) (i : Instruction) (rest : List Value), i.op = .popPrint →
        m.stack = .int n :: rest → (m.execute i).output = m.output ++ (printed ++ [Bytes.newline])) ∧
      ∀ (name source : Bytes) (p : Program) (m : Machine) (s : Bytes) (ws : List Bytes),
        Program.load name source = .ok p → m.program = p → 0 ≤ m.pc →
        (Program.lineTexts source)[m.pc.toNat]? = some s →
        Line.words s = text "P" :: printed :: ws →
        ∃ m', m.step? = some m' ∧ m'.stack = .int n :: m.stack ∧ m'.faults = m.faults := by
  refine ⟨?_, ?_, ?_, ?_, ?_⟩
  · intro t n
    simp only [Operand.ofToken_eq_literal_iff, exists_eq_left]
  · intro m i k name ho
    refine ⟨?_, intOperand_other ho⟩
    intro t hv
    refine ⟨fun n => ⟨intOperand_str_iff ho hv, cell_str⟩, ?_⟩
    intro hother
    exact ⟨intOperand_str_error ho hv hother, rfl, cell_str_zero hother⟩
  · intro m i hi hplaces
    refine ⟨(m.change i).causes, reportedBy_change hplaces, ?_⟩
    have hat : m.faultAt = fun c => ⟨c, m.pc, i.text⟩ := funext (faultAt_current hi)
    rw [execute_change, hat]
  · intro m i n hop hstored
    exact Operand.ofToken_eq_literal_iff.mpr ⟨rfl, spells_inputLine hop hstored⟩
  · intro n printed
    refine ⟨Operand.ofToken_eq_literal_iff.mpr ⟨rfl, Value.spells_print n⟩, ?_, ?_⟩
    · intro m i rest hop hstack
      exact output_popPrint hop hstack
    · intro name source p m s ws hp hprogram hpc hline hwords
      exact step?_push_printed hp hprogram hpc hline hwords

/-- A number that is read, a text with a sign and zeros in front, a text that is no integer, and the least
integer. -/
theorem integer_texts_agree_least :
    let s : Setup := ⟨⟨text "42\n", none⟩, .scripted [], text "> ", false⟩
    let source := text "INPUT n\nST x +007\nST y 1_0\nMSET $x $y\nP -9223372036854775808"
    ∃ p, Program.load (text "texts") source = .ok p ∧
      Operand.ofToken (new p s).inputLine = .literal (text "42") 42 ∧
      (let m := ((new p s).runFor 3).2
        ∃ i, m.current? = some i ∧ m.intOperand i 0 = .ok 7 ∧
          m.intOperand i 1 = .error (.notInteger (text "$y")) ∧
          ∃ causes, ReportedBy (m.misreadings i) causes ∧
            (m.execute i).faults = m.faults ++ causes.map fun c => Fault.mk c m.pc i.text) ∧
      ((new p s).runFor 4).2.step?.map Machine.stack = some [.int Int64.minValue, .int 42] := by
  intro s source
  obtain ⟨p, hp, hread, hinput, hset, hoperands, hx, hy, hpc, hstack⟩ := Program.exists_of_loads
    (P := fun p =>
      (new p s).current?.map (fun i => (i.op, ((new p s).execute i).getVar (inputName i))) =
        some (.input, .int 42) ∧
      (new p s).inputLine = text "42" ∧
      ((new p s).runFor 3).2.current?.map Instruction.op = some .memSet ∧
      ((new p s).runFor 3).2.current?.map Instruction.operands =
        some [.ref (text "x"), .ref (text "y")] ∧
      ((new p s).runFor 3).2.getVar (text "x") = .str (text "+007") ∧
      ((new p s).runFor 3).2.getVar (text "y") = .str (text "1_0") ∧
      ((new p s).runFor 4).2.pc = 4 ∧ ((new p s).runFor 4).2.stack = [.int 42])
    (text "texts") source (by decide +kernel)
  obtain ⟨-, hvariables, hreports, hlines, hprinted⟩ := integer_texts_agree
  obtain ⟨-, -, hpush⟩ := hprinted Int64.minValue
  obtain ⟨i, -, hi⟩ := Option.map_eq_some_iff.mp hread
  obtain ⟨hop, hstored⟩ := Prod.mk.inj hi
  have hline := hlines (new p s) i 42 hop hstored
  rw [hinput] at hline
  obtain ⟨j, hj, hmemSet⟩ := Option.map_eq_some_iff.mp hset
  rw [hj, Option.map_some, Option.some_inj] at hoperands
  have hplaces : j.integerPlaces ≠ [] := by
    rw [Instruction.integerPlaces, hmemSet]
    exact List.cons_ne_nil _ _
  have hfirst := hvariables ((new p s).runFor 3).2 j 0 (text "x")
    (by rw [Instruction.operand?, hoperands]; rfl)
  have hsecond := hvariables ((new p s).runFor 3).2 j 1 (text "y")
    (by rw [Instruction.operand?, hoperands]; rfl)
  have hseven : Spells (text "+007") (7 : Int64).toInt :=
    Decimal.readInt64?_eq_some_iff.mp (by decide)
  have hother : ∀ n : Int64, ¬Spells (text "1_0") n.toInt :=
    Decimal.readInt64?_eq_none_iff.mp (by decide)
  have hsound := sound_runFor (Program.closed_load hp) (sound_new p s) 4
  obtain ⟨m', hstep, hpushed, -⟩ := hpush (text "texts") source p ((new p s).runFor 4).2
    (text "P -9223372036854775808") [] hp hsound.program hsound.pc_nonneg
    (by rw [hpc]; decide +kernel) (by decide +kernel)
  refine ⟨p, hp, hline, ⟨j, hj, ((hfirst.1 _ hx).1 7).1.mpr hseven,
    ((hsecond.1 _ hy).2 hother).1, hreports _ j hj hplaces⟩, ?_⟩
  rw [hstep, Option.map_some, hpushed, hstack]

end Machine
end LineMachine
