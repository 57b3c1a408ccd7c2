import LineMachine.Proofs.IntegerTexts
import LineMachine.Proofs.Variables

/-! The texts of floats. They are single words with a point, an exponent or a letter in them, so that none of
them is taken for an integer or for a reference to a variable. -/
namespace LineMachine

theorem Bytes.trimEndWhile_subset (p : UInt8 → Bool) (s : Bytes) : Bytes.trimEndWhile p s ⊆ s := by
  intro b hb
  rw [Bytes.trimEndWhile, List.mem_reverse] at hb
  exact List.mem_reverse.mp ((List.dropWhile_suffix p).mem hb)

namespace FloatText

open Decimal (isDigit Spells)

/-- What floats are written with: digits, signs, the point, the exponent mark and letters. -/
def isMade (b : UInt8) : Bool := isDigit b || (text "+-.eanif").contains b

/-- A text of such bytes with a point, an exponent mark or an `n` in it. -/
structure Marked (s : Bytes) : Prop where
  made : s.all isMade = true
  mark : s.any ((text ".en").contains ·) = true

variable {s t : Bytes} {d : Digits}

theorem Marked.append_left (hs : s.all isMade = true) (ht : Marked t) : Marked (s ++ t) where
  made := by rw [List.all_append, hs, ht.made, Bool.and_self]
  mark := by rw [List.any_append, ht.mark, Bool.or_true]

theorem Marked.append_right (hs : Marked s) (ht : t.all isMade = true) : Marked (s ++ t) where
  made := by rw [List.all_append, hs.made, ht, Bool.and_self]
  mark := by rw [List.any_append, hs.mark, Bool.true_or]

theorem made_append (hs : s.all isMade = true) (ht : t.all isMade = true) :
    (s ++ t).all isMade = true := by
  rw [List.all_append, hs, ht, Bool.and_self]

theorem made_of_subset (h : s ⊆ t) (ht : t.all isMade = true) : s.all isMade = true :=
  List.all_eq_true.mpr fun b hb => List.all_eq_true.mp ht b (h hb)

theorem made_zeros (k : Nat) : (List.replicate k 48).all isMade = true := by
  rw [List.all_replicate]
  split <;> rfl

theorem made_ofNat (n : Nat) : (Decimal.ofNat n).all isMade = true := by
  refine List.all_eq_true.mpr fun b hb => ?_
  rw [isMade, Decimal.isDigit_of_mem_ofNat hb, Bool.true_or]

theorem made_digitsOf (d : Shortest.Decimal) : (digitsOf d).digits.all isMade = true :=
  made_of_subset (Bytes.trimEndWhile_subset _ _) (made_ofNat d.digits)

theorem made_sign (negative : Bool) : (sign negative).all isMade = true := by
  cases negative <;> rfl

/-- Positional text has a point. -/
theorem marked_positional (hd : d.digits.all isMade = true) : Marked (positional d) := by
  have hwhole := made_of_subset (List.take_subset d.point.toNat d.digits) hd
  have hfraction := made_of_subset (List.drop_subset d.point.toNat d.digits) hd
  have hzero : Marked (text "0.") := ⟨rfl, rfl⟩
  have hpoint : Marked [46] := ⟨rfl, rfl⟩
  unfold positional
  split
  · exact (hzero.append_right (made_zeros _)).append_right hd
  · refine (hpoint.append_left (made_append hwhole (made_zeros _))).append_right ?_
    split
    · rfl
    · exact hfraction

/-- Text in exponent form has an exponent mark. -/
theorem marked_scientific (hd : d.digits.all isMade = true) : Marked (scientific d) := by
  have hfirst := made_of_subset (List.take_subset 1 d.digits) hd
  have hfraction := made_of_subset (List.drop_subset 1 d.digits) hd
  have hmark : Marked [101] := ⟨rfl, rfl⟩
  unfold scientific
  refine ((hmark.append_left (made_append hfirst ?_)).append_right ?_).append_right ?_
  · split
    · rfl
    · exact hfraction
  · split <;> rfl
  · exact made_append (made_zeros _) (made_ofNat _)

theorem marked_magnitude (m : Nat) (e : Int) : Marked (magnitude m e) := by
  have hzero : Marked (text "0.0") := ⟨rfl, rfl⟩
  have hdigits := made_digitsOf (Shortest.ofBinary m e)
  unfold magnitude
  split
  · exact hzero
  · dsimp only
    split
    · exact marked_scientific hdigits
    · exact marked_positional hdigits

theorem marked_ofFloat (x : Float) : Marked (ofFloat x) := by
  have hnan : Marked (text "nan") := ⟨rfl, rfl⟩
  have hinf : Marked (text "inf") := ⟨rfl, rfl⟩
  unfold ofFloat
  split
  · exact hnan
  · exact hinf.append_left (made_sign _)
  · exact (marked_magnitude _ _).append_left (made_sign _)

/-- None of these bytes ends a word, or means something at the start of one. -/
theorem isMade_plain {b : UInt8} (h : isMade b = true) : Line.isBlank b = false ∧
    Line.continuesWord b = true ∧ b ≠ Operand.dollar ∧ b ≠ 34 := by
  rcases Bool.or_eq_true_iff.mp h with hdigit | hmem
  · have hlow := (Decimal.isDigit_iff.mp hdigit).1
    have hne : ∀ c : UInt8, c.toNat < 48 → b ≠ c := by
      rintro c hc rfl
      omega
    refine ⟨?_, ?_, hne _ (by decide), hne _ (by decide)⟩
    · simp [Line.isBlank, hne]
    · simp [Line.continuesWord, hne]
  · have hothers : ((text "+-.eanif").all fun b => !Line.isBlank b && Line.continuesWord b &&
        b != Operand.dollar && b != 34) = true := rfl
    simpa [and_assoc] using List.all_eq_true.mp hothers b (List.contains_iff_mem.mp hmem)

theorem Marked.exists_cons (h : Marked t) : ∃ b rest, t = b :: rest ∧ isMade b = true := by
  obtain ⟨c, hc, -⟩ := List.any_eq_true.mp h.mark
  obtain ⟨b, rest, rfl⟩ := List.exists_cons_of_ne_nil (List.ne_nil_of_mem hc)
  exact ⟨b, rest, rfl, List.all_eq_true.mp h.made b List.mem_cons_self⟩

theorem Marked.isWord (h : Marked t) : Line.IsWord t := by
  obtain ⟨b, rest, heq, hb⟩ := h.exists_cons
  exact ⟨⟨b, rest, heq, (isMade_plain hb).1⟩,
    fun c hc => (isMade_plain (List.all_eq_true.mp h.made c hc)).2.1⟩

/-- Integers are spelled with digits and signs only. -/
theorem Marked.not_spells (h : Marked t) (k : Int) : ¬Spells t k := by
  have hdigit : ∀ {s n}, Decimal.Numeral s n → ∀ b ∈ s, isDigit b = true :=
    fun hs b hb => Decimal.isDigit_iff.mpr (hs.2.1 b hb)
  have hothers : ((text ".en").all fun b => !isDigit b && b != 43 && b != 45) = true := rfl
  obtain ⟨b, hb, hmark⟩ := List.any_eq_true.mp h.mark
  obtain ⟨⟨hnot, hplus⟩, hminus⟩ : (isDigit b = false ∧ b ≠ 43) ∧ b ≠ 45 := by
    simpa using List.all_eq_true.mp hothers b (List.contains_iff_mem.mp hmark)
  rintro (hs | hs | hs)
  · exact absurd (hdigit hs b hb) (by simp [hnot])
  · rcases List.mem_cons.mp hb with rfl | hb
    · exact hplus rfl
    · exact absurd (hdigit hs b hb) (by simp [hnot])
  · rcases List.mem_cons.mp hb with rfl | hb
    · exact hminus rfl
    · exact absurd (hdigit hs b hb) (by simp [hnot])

theorem Marked.ofToken_eq (h : Marked t) : Operand.ofToken t = .word t := by
  obtain ⟨b, rest, rfl, hb⟩ := h.exists_cons
  have hhead : (b :: rest).head? ≠ some Operand.dollar :=
    fun heq => (isMade_plain hb).2.2.1 (Option.some.inj heq)
  rw [Operand.ofToken, if_neg hhead,
    Decimal.readInt64?_eq_none_iff.mpr fun n => h.not_spells n.toInt]

theorem Marked.unquoted_eq (h : Marked t) : Machine.unquoted t = t := by
  obtain ⟨b, rest, rfl, hb⟩ := h.exists_cons
  have hquote := (isMade_plain hb).2.2.2
  unfold Machine.unquoted
  split
  · rename_i heq
    cases heq
    exact absurd rfl hquote
  · rfl

end FloatText

namespace Machine

open FloatText (Marked ofFloat)
open Decimal (Spells)

variable {m : Machine} {i : Instruction} {p : Program} {name source s t y : Bytes} {v : Value}

/-- What an instruction stores last is found again, and its cell mirrors it. -/
theorem stored_execute (h : m.stores i = [.var y v]) : (m.execute i).getVar y = v ∧
    (m.execute i).memory.read (Address.ofName y) = v.cell := by
  have hvars : (m.execute i).vars = m.vars.insert y v := by
    rw [execute_vars, h]
    rfl
  have hmemory : (m.execute i).memory = m.memory.write (Address.ofName y) v.cell := by
    rw [execute_memory, h]
    rfl
  refine ⟨?_, ?_⟩
  · simp [getVar, hvars]
  · rw [hmemory, Memory.read_write, if_pos rfl]

/-- A line that stores a word as a string. -/
theorem exists_stores_str (hp : Program.load name source = .ok p) (hprogram : m.program = p)
    (hpc : 0 ≤ m.pc) (hline : (Program.lineTexts source)[m.pc.toNat]? = some s)
    (hwords : Line.words s = [text "ST", y, t]) :
    ∃ i, m.step? = some (m.execute i) ∧ m.stores i = [.var y (.str (unquoted t))] := by
  obtain ⟨i, hstep, hop, hoperands⟩ := exists_step_at_line hp hprogram hpc hline hwords
  have hdeclare : i.op = .declare .str := hop.trans (by decide)
  have hname : i.operand? 0 = some (Operand.ofToken y) := by
    rw [Instruction.operand?, hoperands]
    rfl
  have htokens : i.tokensFrom 1 = t := by
    simp [Instruction.tokensFrom, hoperands, Operand.token_ofToken, Bytes.join]
  refine ⟨i, hstep, ?_⟩
  simp only [stores, hdeclare, hname, declared, htokens, Operand.token_ofToken]

/-- The text of a float, whatever its bits are, is a single word that spells no integer and names no
variable. It is what is printed of the float; a line that pushes it pushes a string, and wherever it is
stored as a string, its cell is zero. -/
theorem float_texts_are_no_integers (x : Float) :
    Line.IsWord (ofFloat x) ∧ Operand.ofToken (ofFloat x) = .word (ofFloat x) ∧
    (∀ k : Int, ¬Spells (ofFloat x) k) ∧
    (∀ (m : Machine) (i : Instruction) (rest : List Value), i.op = .popPrint →
      m.stack = .float x :: rest →
      (m.execute i).output = m.output ++ (ofFloat x ++ [Bytes.newline])) ∧
    (∀ (m : Machine) (i : Instruction) (y : Bytes), m.stores i = [.var y (.str (ofFloat x))] →
      (m.execute i).getVar y = .str (ofFloat x) ∧
      (m.execute i).memory.read (Address.ofName y) = 0) ∧
    ∀ (name source : Bytes) (p : Program) (m : Machine) (s : Bytes),
      Program.load name source = .ok p → m.program = p → 0 ≤ m.pc →
      (Program.lineTexts source)[m.pc.toNat]? = some s →
      (∀ ws, Line.words s = text "P" :: ofFloat x :: ws → ∃ m', m.step? = some m' ∧
        m'.stack = .str (ofFloat x) :: m.stack ∧ m'.faults = m.faults) ∧
      ∀ y, Line.words s = [text "ST", y, ofFloat x] → ∃ m', m.step? = some m' ∧
        m'.getVar y = .str (ofFloat x) ∧ m'.memory.read (Address.ofName y) = 0 := by
  have hmarked : Marked (ofFloat x) := FloatText.marked_ofFloat x
  have hcell : (Value.str (ofFloat x)).cell = 0 :=
    cell_str_zero fun n => hmarked.not_spells n.toInt
  have hstored : ∀ (m : Machine) (i : Instruction) (y : Bytes),
      m.stores i = [.var y (.str (ofFloat x))] → (m.execute i).getVar y = .str (ofFloat x) ∧
        (m.execute i).memory.read (Address.ofName y) = 0 := by
    intro m i y h
    rw [← hcell]
    exact stored_execute h
  refine ⟨hmarked.isWord, hmarked.ofToken_eq, hmarked.not_spells, ?_, hstored, ?_⟩
  · intro m i rest hop hstack
    exact output_popPrint hop hstack
  · intro name source p m s hp hprogram hpc hline
    refine ⟨?_, ?_⟩
    · intro ws hwords
      have hpushed := step?_push hp hprogram hpc hline hwords
      rwa [hmarked.ofToken_eq] at hpushed
    · intro y hwords
      obtain ⟨i, hstep, hstores⟩ := exists_stores_str hp hprogram hpc hline hwords
      rw [hmarked.unquoted_eq] at hstores
      exact ⟨m.execute i, hstep, hstored m i y hstores⟩

/-- A whole number that is large enough for an exponent, printed, pushed back and stored. -/
theorem float_texts_are_no_integers_exponent :
    let x := Float.ofBits 0x4341C37937E08000
    let source := text "FL x 10000000000000000\nP $x\nO\nP 1e+16\nST y 1e+16"
    let s : Setup := ⟨⟨[], none⟩, .scripted [], text "> ", false⟩
    ofFloat x = text "1e+16" ∧ ∃ p, Program.load (text "p") source = .ok p ∧
      (∃ i, ((new p s).runFor 2).2.current? = some i ∧
        (((new p s).runFor 2).2.execute i).output = (text "1e+16\n").toArray) ∧
      ((new p s).runFor 3).2.step?.map Machine.stack = some [.str (text "1e+16")] ∧
      ((new p s).runFor 4).2.step?.map (fun m => (m.getVar (text "y"),
        m.memory.read (Address.ofName (text "y")))) = some (.str (text "1e+16"), 0) := by
  intro x source s
  have hprint : ofFloat x = text "1e+16" := by decide +kernel
  obtain ⟨p, hp, hprints, hstack, houtput, hpc, hempty, hpc'⟩ := Program.exists_of_loads
    (P := fun p =>
      ((new p s).runFor 2).2.current?.map Instruction.op = some .popPrint ∧
      ((new p s).runFor 2).2.stack = [.float x] ∧ ((new p s).runFor 2).2.output = #[] ∧
      ((new p s).runFor 3).2.pc = 3 ∧ ((new p s).runFor 3).2.stack = [] ∧
      ((new p s).runFor 4).2.pc = 4)
    (text "p") source (by decide +kernel)
  obtain ⟨-, -, -, hprinted, -, hlines⟩ := float_texts_are_no_integers x
  rw [hprint] at hprinted hlines
  obtain ⟨i, hi, hop⟩ := Option.map_eq_some_iff.mp hprints
  have hsound := fun n => sound_runFor (Program.closed_load hp) (sound_new p s) n
  obtain ⟨m', hstep, hpushed, -⟩ := (hlines (text "p") source p ((new p s).runFor 3).2
    (text "P 1e+16") hp (hsound 3).program (hsound 3).pc_nonneg
    (by rw [hpc]; decide +kernel)).1 [] (by decide +kernel)
  obtain ⟨m'', hstep', hstored, hcell⟩ := (hlines (text "p") source p ((new p s).runFor 4).2
    (text "ST y 1e+16") hp (hsound 4).program (hsound 4).pc_nonneg
    (by rw [hpc']; decide +kernel)).2 (text "y") (by decide +kernel)
  refine ⟨hprint, p, hp, ⟨i, hi, ?_⟩, ?_, ?_⟩
  · rw [hprinted _ i [] hop hstack, houtput]
    rfl
  · rw [hstep, Option.map_some, hpushed, hempty]
  · rw [hstep', Option.map_some, hstored, hcell]

end Machine
end LineMachine
