import Mathlib.Data.Nat.Digits.Defs
import LineMachine.Proofs.LoadedLines
import LineMachine.Proofs.Reporting

/-! Input is read line by line. The lines of the input are handled in order, each by one instruction,
whatever is executed in between, and when they are used up every further attempt is reported. -/
namespace LineMachine

theorem Bytes.splitOn_of_not_mem {sep : UInt8} {s : Bytes} (h : sep ∉ s) :
    Bytes.splitOn sep s = [s] := by
  induction s with
  | nil => rfl
  | cons b s ih =>
    rw [List.mem_cons, not_or] at h
    obtain ⟨hb, hs⟩ := h
    have hrest := ih hs
    unfold Bytes.splitOn at hrest ⊢
    rw [List.foldr_cons, hrest, if_neg (Ne.symm hb)]

namespace Input

/-- The lines of a text with their newlines. What comes after the last newline is a line if there is
anything. -/
def lines (s : Bytes) : List Bytes :=
  let pieces := Bytes.splitOn Bytes.newline s
  pieces.dropLast.map (· ++ [Bytes.newline]) ++ pieces.getLast?.toList.filter (· ≠ [])

variable {s l : Bytes}

theorem lines_cons (h : Bytes.newline ∉ l) (s : Bytes) :
    lines (l ++ Bytes.newline :: s) = (l ++ [Bytes.newline]) :: lines s := by
  have hne := Bytes.splitOn_ne_nil Bytes.newline s
  unfold lines
  rw [Bytes.splitOn_append h]
  simp only [List.dropLast_cons_of_ne_nil hne, List.getLast?_cons_of_ne_nil hne]
  rfl

theorem lines_last (h : Bytes.newline ∉ l) : lines l = if l = [] then [] else [l] := by
  unfold lines
  rw [Bytes.splitOn_of_not_mem h]
  by_cases hl : l = [] <;> simp [hl]

/-- A text starts with a line, or there is no newline in it. -/
@[elab_as_elim]
theorem lines_induction {motive : Bytes → Prop}
    (last : ∀ l, Bytes.newline ∉ l → motive l)
    (cons : ∀ l s, Bytes.newline ∉ l → motive s → motive (l ++ Bytes.newline :: s)) (s : Bytes) :
    motive s := by
  induction hn : s.length using Nat.strongRecOn generalizing s with
  | ind n ih =>
    by_cases hmem : Bytes.newline ∈ s
    · obtain ⟨l, rest, rfl, hl⟩ := List.eq_append_cons_of_mem hmem
      rw [List.length_append, List.length_cons] at hn
      exact cons l rest hl (ih _ (by omega) rest rfl)
    · exact last s hmem

theorem flatten_lines (s : Bytes) : (lines s).flatten = s := by
  induction s using lines_induction with
  | last l hl =>
    rw [lines_last hl]
    by_cases hnil : l = [] <;> simp [hnil]
  | cons l s hl ih =>
    rw [lines_cons hl, List.flatten_cons, ih, List.append_assoc, List.singleton_append]

theorem ne_newline_of_not_mem (h : Bytes.newline ∉ l) :
    ∀ b ∈ l, decide (b ≠ Bytes.newline) = true := by
  intro b hb
  exact decide_eq_true fun heq => h (heq ▸ hb)

theorem readLine_cons (h : Bytes.newline ∉ l) (s : Bytes) (failure : Option Bytes) :
    readLine ⟨l ++ Bytes.newline :: s, failure⟩ = ⟨l ++ [Bytes.newline], none, ⟨s, failure⟩⟩ := by
  have hall := ne_newline_of_not_mem h
  have hspan : (l ++ Bytes.newline :: s).span (· ≠ Bytes.newline) = (l, Bytes.newline :: s) := by
    rw [List.span_eq_takeWhile_dropWhile, List.takeWhile_append_of_pos hall,
      List.dropWhile_append_of_pos hall]
    simp
  unfold readLine
  rw [hspan]

theorem readLine_last (h : Bytes.newline ∉ l) :
    readLine ⟨l, none⟩ = ⟨l, if l = [] then some .ended else none, ⟨[], none⟩⟩ := by
  have hall := ne_newline_of_not_mem h
  have hspan : l.span (· ≠ Bytes.newline) = (l, []) := by
    rw [List.span_eq_takeWhile_dropWhile, List.takeWhile_eq_self_iff.mpr hall,
      List.dropWhile_eq_nil_iff.mpr hall]
  unfold readLine
  rw [hspan]

/-- What is read is the first line, and the others are left. That there is none is the only problem. -/
theorem readLine_eq (s : Bytes) : readLine ⟨s, none⟩ =
    ⟨(lines s).headD [], if lines s = [] then some .ended else none,
      ⟨(lines s).tail.flatten, none⟩⟩ := by
  induction s using lines_induction with
  | last l hl =>
    rw [readLine_last hl, lines_last hl]
    by_cases hnil : l = [] <;> simp [hnil]
  | cons l s hl _ =>
    rw [readLine_cons hl, lines_cons hl, List.tail_cons, flatten_lines]
    simp

theorem lines_flatten_tail (s : Bytes) : lines (lines s).tail.flatten = (lines s).tail := by
  induction s using lines_induction with
  | last l hl =>
    rw [lines_last hl]
    by_cases hnil : l = [] <;> simp [hnil, lines, Bytes.splitOn]
  | cons l s hl _ => rw [lines_cons hl, List.tail_cons, flatten_lines]

/-- The lines that are left are those of what is left. -/
theorem lines_flatten_drop (s : Bytes) (k : Nat) :
    lines ((lines s).drop k).flatten = (lines s).drop k := by
  induction k with
  | zero => rw [List.drop_zero, flatten_lines]
  | succ k ih =>
    have htail := lines_flatten_tail ((lines s).drop k).flatten
    rwa [ih, List.tail_drop] at htail

/-- What is left of the input when a line was read. -/
def skip (i : Input) : Input := i.readLine.rest

theorem iterate_skip (s : Bytes) (k : Nat) :
    skip^[k] ⟨s, none⟩ = ⟨((lines s).drop k).flatten, none⟩ := by
  induction k with
  | zero => rw [List.drop_zero, flatten_lines, Function.iterate_zero_apply]
  | succ k ih =>
    rw [Function.iterate_succ_apply', ih, skip, readLine_eq, lines_flatten_drop, List.tail_drop]

/-- A line without the carriage returns and newlines at its end. -/
def content (line : Bytes) : Bytes := line.rdropWhile fun b => b = 13 || b = 10

end Input

namespace Decimal

/-- A row of digits that stands for a number, the most significant digit first. -/
def Numeral (s : Bytes) (n : Nat) : Prop :=
  s ≠ [] ∧ (∀ b ∈ s, 48 ≤ b.toNat ∧ b.toNat ≤ 57) ∧
    Nat.ofDigits 10 (s.reverse.map fun b => b.toNat - 48) = n

variable {s : Bytes} {n : Nat}

theorem isDigit_iff {b : UInt8} : isDigit b = true ↔ 48 ≤ b.toNat ∧ b.toNat ≤ 57 := by
  simp [isDigit, UInt8.le_iff_toNat_le]

theorem value_eq_ofDigits (s : Bytes) :
    value s = Nat.ofDigits 10 (s.reverse.map fun b => b.toNat - 48) := by
  rw [Nat.ofDigits_eq_foldr, List.map_reverse, List.foldr_reverse, List.foldl_map, value]
  congr
  funext n b
  simp [Nat.add_comm]

theorem readNat?_eq_some_iff : readNat? s = some n ↔ Numeral s n := by
  simp only [readNat?, Numeral, List.all_eq_true, isDigit_iff, value_eq_ofDigits, and_assoc,
    Option.ite_none_right_eq_some, Option.some.injEq]

theorem readInt?_unsigned {b : UInt8} (hminus : b ≠ 45) (hplus : b ≠ 43) (s : Bytes) :
    readInt? (b :: s) = (readNat? (b :: s)).map fun n : Nat => (n : Int) := by
  rw [readInt?, if_neg hminus, if_neg hplus]
  cases readNat? (b :: s) <;> rfl

/-- A digit is no sign. -/
theorem readInt?_of_digit {b : UInt8} (h : isDigit b = true) (s : Bytes) :
    readInt? (b :: s) = (readNat? (b :: s)).map fun n : Nat => (n : Int) := by
  have hminus : b ≠ 45 := by rintro rfl; cases h
  have hplus : b ≠ 43 := by rintro rfl; cases h
  exact readInt?_unsigned hminus hplus s

theorem toInt64?_eq_some_iff {k : Int} {w : Int64} : toInt64? k = some w ↔ w.toInt = k := by
  unfold toInt64?
  constructor
  · intro h
    split at h
    · rename_i hfits
      cases h
      exact Int64.toInt_ofInt_of_le hfits.1 (by have := hfits.2; change k ≤ 2 ^ 63 - 1 at this; omega)
    · cases h
  · rintro rfl
    have hfits : Int64.minValue.toInt ≤ w.toInt ∧ w.toInt ≤ Int64.maxValue.toInt := by
      exact ⟨w.minValue_le_toInt, w.toInt_le⟩
    rw [if_pos hfits, Int64.ofInt_toInt]

end Decimal

namespace Utf8

/-- The code points of a text. A byte at which no character starts counts as the replacement
character. -/
inductive CodePoints : Bytes → List Nat → Prop
  | nil : CodePoints [] []
  | char {s : Bytes} {codes : List Nat} (c : Char) : CodePoints s codes →
      CodePoints (String.utf8EncodeChar c ++ s) (c.toNat :: codes)
  | stray {s : Bytes} {codes : List Nat} (b : UInt8) :
      (∀ c, ¬String.utf8EncodeChar c <+: b :: s) → CodePoints s codes →
        CodePoints (b :: s) (0xFFFD :: codes)

variable {s : Bytes} {codes : List Nat}

theorem codePoints_decode (s : Bytes) : CodePoints s ((decode s).map Piece.codePoint) := by
  induction s using decode_induction with
  | nil => exact .nil
  | char c s ih =>
    rw [decode_char]
    exact .char c ih
  | stray b s h ih =>
    rw [decode_stray h]
    refine .stray b ?_ ih
    intro c hc
    rw [first?_eq_some_iff.mpr hc] at h
    cases h

theorem codePoints_iff : CodePoints s codes ↔ codes = (decode s).map Piece.codePoint := by
  constructor
  · intro h
    induction h with
    | nil => rfl
    | char c _ ih =>
      rw [decode_char, ih]
      rfl
    | @stray s _ b hb _ ih =>
      have hnone : first? (b :: s) = none := by
        rw [Option.eq_none_iff_forall_ne_some]
        intro c hc
        exact hb c (first?_eq_some_iff.mp hc)
      rw [decode_stray hnone, ih]
      rfl
  · rintro rfl
    exact codePoints_decode s

end Utf8

namespace Machine

/-- A line is read as a number if it is a numeral for a number that fits a word. -/
theorem inputNumber?_eq_some_iff {line : Bytes} {n : Int64} :
    inputNumber? line = some n ↔ ∃ k : Nat, Decimal.Numeral line k ∧ n.toInt = k := by
  unfold inputNumber?
  cases line with
  | nil => simp [Decimal.isDigit, Decimal.Numeral]
  | cons b s =>
    rw [List.headD_cons]
    split
    · rename_i hb
      rw [Decimal.readInt64?, Decimal.readInt?_of_digit hb]
      simp only [Option.bind_eq_some_iff, Option.map_eq_some_iff, Decimal.readNat?_eq_some_iff,
        Decimal.toInt64?_eq_some_iff, exists_exists_and_eq_and]
    · rename_i hb
      constructor
      · intro h
        cases h
      · rintro ⟨k, ⟨-, hdigits, -⟩, -⟩
        exact absurd (Decimal.isDigit_iff.mpr (hdigits b List.mem_cons_self)) hb

/-- A row of digits is text only if its number is no word. -/
theorem inputNumber?_eq_none_iff {line : Bytes} : inputNumber? line = none ↔
    ∀ (k : Nat) (n : Int64), Decimal.Numeral line k → n.toInt ≠ k := by
  rw [Option.eq_none_iff_forall_ne_some]
  constructor
  · intro h k n hk hn
    exact h n (inputNumber?_eq_some_iff.mpr ⟨k, hk, hn⟩)
  · intro h n hn
    obtain ⟨k, hk, hnk⟩ := inputNumber?_eq_some_iff.mp hn
    exact h k n hk hnk

/-- The values that text is pushed as, one after the other: its code points and a newline. -/
def textValues (codes : List Nat) : List Value :=
  codes.map (fun c => .int (Int64.ofNat c)) ++ [.int 10]

theorem inputPushes_text {line : Bytes} {codes : List Nat} (hn : inputNumber? line = none)
    (hcodes : Utf8.CodePoints line codes) : inputPushes line = (textValues codes).reverse := by
  rw [inputPushes, hn, Utf8.codePoints_iff.mp hcodes, textValues, List.map_map, List.reverse_append]
  rfl

/-- What becomes of a line of input, if there is one: the value that is stored, the values that are
pushed one after the other, and what is reported. -/
inductive Received : Option Bytes → Value → List Value → List Cause → Prop
  /-- A row of digits for a number that fits a word. -/
  | number {line : Bytes} {k : Nat} {n : Int64} : Decimal.Numeral (Input.content line) k →
      n.toInt = k → Received (some line) (.int n) [.int n] []
  /-- Any other text. -/
  | text {line : Bytes} {codes : List Nat} :
      (∀ (k : Nat) (n : Int64), Decimal.Numeral (Input.content line) k → n.toInt ≠ k) →
      Utf8.CodePoints (Input.content line) codes →
      Received (some line) (.str (Input.content line)) (textValues codes) []
  /-- The lines are used up. -/
  | ended : Received none (.str []) [.int 10] [.endOfInput]

/-- The input instructions that a run executes within `n` steps, each with the state before it. -/
def reads (n : Nat) (m : Machine) : List (Machine × Instruction) :=
  (m.executed n).filter fun e => e.2.op = .input

variable {m : Machine} {i : Instruction} {e : Machine × Instruction} {s : Bytes} {k n : Nat}

theorem received_content (line : Bytes) : Received (some line) (inputValue (Input.content line))
    (inputPushes (Input.content line)).reverse [] := by
  cases hn : inputNumber? (Input.content line) with
  | some n =>
    obtain ⟨k, hk, hnk⟩ := inputNumber?_eq_some_iff.mp hn
    rw [inputValue, inputPushes, hn]
    exact .number hk hnk
  | none =>
    have hcodes := Utf8.codePoints_decode (Input.content line)
    rw [inputValue, hn, inputPushes_text hn hcodes, List.reverse_reverse]
    exact .text (inputNumber?_eq_none_iff.mp hn) hcodes

/-- No other instruction touches the input. -/
theorem input?_change (h : i.op ≠ .input) : (m.change i).input? = none := by
  by_cases hself : i.op.isSelfContained = true
  · exact (keepsSources_change hself).input
  · unfold change
    cases hop : i.op with
    | input => exact absurd hop h
    | random =>
      simp only [randomChange]
      cases m.limit i <;> rfl
    | randomCells => rfl
    | _ => exact absurd (congrArg Opcode.isSelfContained hop) hself

theorem input_execute (m : Machine) (i : Instruction) :
    (m.execute i).input = if i.op = .input then m.input.skip else m.input := by
  rw [execute_change]
  split
  · rename_i hop
    simp only [change, hop]
    rfl
  · rename_i hop
    rw [input?_change hop]
    rfl

/-- After a run, as many lines are gone from the input as it executed input instructions. -/
theorem input_runFor (m : Machine) (n : Nat) :
    (m.runFor n).2.input = Input.skip^[(m.reads n).length] m.input := by
  have hreplay := runFor_replay Machine.input
    (fun input e => if e.2.op = .input then input.skip else input) input_execute
    (fun _ _ => rfl) (fun _ _ => rfl) m n
  rw [hreplay, reads]
  generalize m.input = input
  induction m.executed n generalizing input with
  | nil => rfl
  | cons e es ih =>
    rw [List.foldl_cons, ih]
    by_cases hop : e.2.op = .input
    · rw [List.filter_cons_of_pos (by simpa using hop), List.length_cons,
        Function.iterate_succ_apply, if_pos hop]
    · rw [List.filter_cons_of_neg (by simpa using hop), if_neg hop]

/-- The lines before are gone from the input where an input instruction is executed. -/
theorem input_reads (h : (m.reads n)[k]? = some e) :
    e.2.op = .input ∧ e.1.current? = some e.2 ∧ e.1.input = Input.skip^[k] m.input := by
  have hmem := List.mem_filter.mp (List.mem_of_getElem? h)
  refine ⟨of_decide_eq_true hmem.2, (current?_executed m n e hmem.1).2, ?_⟩
  clear hmem
  induction n generalizing m k with
  | zero =>
    rw [reads, executed_zero] at h
    cases h
  | succ n ih =>
    rcases turn_cases m with hp | ⟨i, hp, hg⟩ | ⟨i, g, hp, hg⟩
    · rw [reads, executed_of_stopped hp] at h
      cases h
    · rw [reads, executed_of_unpaid hp hg] at h
      cases h
    · have hinput := input_execute { m with gas := g } i
      rw [reads, executed_succ_of_paid hp hg] at h
      by_cases hop : i.op = .input
      · rw [List.filter_cons_of_pos (by simpa using hop)] at h
        rw [if_pos hop] at hinput
        cases k with
        | zero =>
          cases h
          rfl
        | succ k => rw [ih h, hinput, Function.iterate_succ_apply]
      · rw [List.filter_cons_of_neg (by simpa using hop)] at h
        rw [if_neg hop] at hinput
        rw [ih h, hinput]

/-- Everything that an input instruction does. -/
theorem execute_input (hop : i.op = .input) (m : Machine) : m.execute i =
    { m.setVar (inputName i) (inputValue m.inputLine) with
      stack := inputPushes m.inputLine ++ m.stack
      output := m.output ++ m.prompt
      input := m.input.skip
      faults := m.faults ++ (m.input.readLine.problem.map inputCause).toList.map m.faultAt
      pc := m.pc + 1
      steps := m.steps + 1
      journal := (m.execute i).journal } := by
  have hchange : m.change i = m.inputChange i := by
    simp only [change, hop]
  have hstraight : i.op.isStraight = true := by
    rw [hop]
    rfl
  rw [execute_straight hstraight, hchange, apply, reportAll_eq]
  rfl

/-- What an input instruction does with the first line of an input. -/
theorem received_input (h : m.input = ⟨s, none⟩) :
    Received (Input.lines s).head? (inputValue m.inputLine) (inputPushes m.inputLine).reverse
      (m.input.readLine.problem.map inputCause).toList := by
  have hline : m.inputLine = Input.content ((Input.lines s).headD []) := by
    rw [inputLine, h, Input.readLine_eq]
    rfl
  rw [hline, h, Input.readLine_eq]
  cases hlines : Input.lines s with
  | nil => exact .ended
  | cons line rest => exact received_content line

end Machine
end LineMachine
