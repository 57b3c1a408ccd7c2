import LineMachine.Proofs.FloorDivision
import LineMachine.Proofs.InputLines

/-! The stack written as characters. Words are written as the characters with their codes modulo 256,
so text that was read from the input and consists of such characters is written as it was read. -/
namespace LineMachine

namespace Utf8

variable {s : Bytes} {codes : List Nat}

theorem encodePoint_toNat (c : Char) : encodePoint c.toNat = String.utf8EncodeChar c := by
  have hvalid : c.toNat.isValidChar := c.valid
  rw [encodePoint, Char.ofNat_toNat, if_pos hvalid]

/-- A text without stray bytes is the text of its code points. -/
theorem flatMap_encodePoint (hvalid : valid s = true) (hcodes : CodePoints s codes) :
    codes.flatMap encodePoint = s := by
  have hpiece : ∀ p ∈ decode s, encodePoint p.codePoint = p.bytes := by
    intro p hp
    cases p with
    | char c => exact encodePoint_toNat c
    | stray b => cases List.all_eq_true.mp hvalid _ hp
  calc codes.flatMap encodePoint
    _ = (decode s).flatMap fun p => encodePoint p.codePoint := by
      rw [codePoints_iff.mp hcodes, List.flatMap_map]
    _ = encode (decode s) := List.flatMap_congr hpiece
    _ = s := encode_decode s

theorem isValidChar_of_lt {c : Nat} (h : c < 256) : c.isValidChar := Or.inl (by omega)

theorem decode_flatMap_encodePoint (h : ∀ c ∈ codes, c < 256) :
    decode (codes.flatMap encodePoint) = codes.map fun c => .char (Char.ofNat c) := by
  induction codes with
  | nil => rfl
  | cons c codes ih =>
    obtain ⟨hc, hcodes⟩ := List.forall_mem_cons.mp h
    rw [List.flatMap_cons, encodePoint, if_pos (isValidChar_of_lt hc), decode_char, ih hcodes,
      List.map_cons]

/-- Codes below 256 are written as a text that has them as its code points. -/
theorem codePoints_flatMap_encodePoint (h : ∀ c ∈ codes, c < 256) :
    valid (codes.flatMap encodePoint) = true ∧ CodePoints (codes.flatMap encodePoint) codes := by
  have hdecode := decode_flatMap_encodePoint h
  constructor
  · rw [valid, hdecode, List.all_map]
    exact List.all_eq_true.mpr fun _ _ => rfl
  · have hcode : ∀ c ∈ codes, (Piece.char (Char.ofNat c)).codePoint = c := by
      intro c hc
      rw [Piece.codePoint, Char.ofNat, dif_pos (isValidChar_of_lt (h c hc))]
      rfl
    rw [codePoints_iff, hdecode, List.map_map]
    exact (List.map_id' codes).symm.trans (List.map_congr_left fun c hc => (hcode c hc).symm)

end Utf8

/-- A line of text, without its newline, that can be written as characters again. -/
structure Echoable (line : Bytes) (codes : List Nat) : Prop where
  one_line : Bytes.newline ∉ line
  valid : Utf8.valid line = true
  codePoints : Utf8.CodePoints line codes
  small : ∀ c ∈ codes, c < 256
  no_return : line.getLast? ≠ some 13
  no_number : ∀ (k : Nat) (n : Int64), Decimal.Numeral line k → n.toInt ≠ k

theorem Echoable.content_eq {line : Bytes} {codes : List Nat} (h : Echoable line codes) :
    Input.content (line ++ [Bytes.newline]) = line := by
  rw [Input.content, List.rdropWhile_concat_pos _ _ _ (by decide), List.rdropWhile_eq_self_iff]
  intro hne hend
  have hlast := List.getLast?_eq_some_getLast hne
  rcases Bool.or_eq_true_iff.mp hend with hreturn | hnewline
  · exact h.no_return (hlast.trans (congrArg some (of_decide_eq_true hreturn)))
  · have heq : line.getLast hne = Bytes.newline := of_decide_eq_true hnewline
    exact h.one_line (heq ▸ List.getLast_mem hne)

/-- The code of the character that a value is written as. Only integers and truth values have one. -/
def Value.charCode? : Value → Option Nat
  | .int n => some (n.toInt % 256).toNat
  | .bool b => some (if b then 1 else 0)
  | .float _ | .str _ => none

theorem Value.charCode?_eq (v : Value) :
    v.charCode? = v.word?.map fun n => (n.toInt % 256).toNat := by
  cases v with
  | bool b => cases b <;> rfl
  | _ => rfl

namespace Machine

variable {m : Machine} {i j : Instruction} {line rest : Bytes} {codes : List Nat}

theorem character_eq (n : Int64) : character n = Utf8.encodePoint (n.toInt % 256).toNat := by
  have hmod : (Floor.mod n 256).toInt = n.toInt % 256 := by
    rw [Floor.toInt_mod (by decide)]
    exact Int.fmod_eq_emod_of_nonneg _ (by decide)
  rw [character, hmod]

theorem flatMap_character (vs : List Value) :
    (vs.filterMap Value.word?).flatMap character =
      (vs.filterMap Value.charCode?).flatMap Utf8.encodePoint := by
  have hcodes : vs.filterMap Value.charCode? =
      (vs.filterMap Value.word?).map fun n => (n.toInt % 256).toNat := by
    rw [List.map_filterMap, funext Value.charCode?_eq]
  rw [hcodes, List.flatMap_map, funext character_eq]

theorem charCode?_lt (vs : List Value) : ∀ c ∈ vs.filterMap Value.charCode?, c < 256 := by
  intro c hc
  obtain ⟨v, -, hv⟩ := List.mem_filterMap.mp hc
  rw [Value.charCode?_eq] at hv
  obtain ⟨n, -, rfl⟩ := Option.map_eq_some_iff.mp hv
  omega

/-- Floats and strings are what is not written. -/
theorem notCharacter_causes (vs : List Value) :
    (vs.filterMap fun v => if v.word?.isSome then none else some (Cause.notCharacter v.kind)) =
      (vs.filter fun v => v.kind = .float ∨ v.kind = .str).map fun v => .notCharacter v.kind := by
  induction vs with
  | nil => rfl
  | cons v vs ih =>
    cases v with
    | int n | bool b => exact ih
    | float x | str s => exact congrArg (List.cons _) ih

/-- Everything that writing the stack does. -/
theorem execute_stackText (hop : i.op = .stackText) (hi : m.current? = some i) : m.execute i =
    { m with
      output := m.output ++
        ((m.stack.reverse.filterMap Value.charCode?).flatMap Utf8.encodePoint ++ [Bytes.newline])
      faults := m.faults ++ ((m.stack.reverse.filter fun v => v.kind = .float ∨ v.kind = .str).map
        fun v => Fault.mk (.notCharacter v.kind) m.pc i.text)
      pc := m.pc + 1
      steps := m.steps + 1
      journal := (m.execute i).journal } := by
  have hchange : m.change i = m.stackTextChange := by
    simp only [change, hop]
  have hstraight : i.op.isStraight = true := by
    rw [hop]
    rfl
  have hat : m.faultAt = fun c => ⟨c, m.pc, i.text⟩ := funext (faultAt_current hi)
  rw [execute_straight hstraight, hchange, apply, reportAll_eq, hat]
  simp only [stackTextChange, notCharacter_causes, flatMap_character, List.map_map]
  rfl

/-- What an input instruction does with such a line. -/
theorem execute_input_text (hop : i.op = .input) (h : Echoable line codes)
    (hinput : m.input.pending = line ++ Bytes.newline :: rest) : m.execute i =
    { m.setVar (inputName i) (.str line) with
      stack := (textValues codes).reverse ++ m.stack
      output := m.output ++ m.prompt
      input := { m.input with pending := rest }
      pc := m.pc + 1
      steps := m.steps + 1
      journal := (m.execute i).journal } := by
  have hread : m.input.readLine =
      ⟨line ++ [Bytes.newline], none, { m.input with pending := rest }⟩ := by
    rw [← Input.readLine_cons h.one_line, ← hinput]
  have hline : m.inputLine = line := by
    rw [inputLine, hread]
    exact h.content_eq
  have hnone := inputNumber?_eq_none_iff.mpr h.no_number
  rw [execute_input hop, Input.skip, hread, hline, inputValue, hnone,
    inputPushes_text hnone h.codePoints]
  rfl

/-- Text is written as its code points, and the newline that was pushed after it. -/
theorem charCodes_textValues (h : ∀ c ∈ codes, c < 256) :
    (textValues codes).filterMap Value.charCode? = codes ++ [10] := by
  induction codes with
  | nil => rfl
  | cons c codes ih =>
    obtain ⟨hc, hcodes⟩ := List.forall_mem_cons.mp h
    have hcode : Value.charCode? (.int (Int64.ofNat c)) = some c := by
      rw [Value.charCode?, Int64.toInt_ofNat_of_lt (by omega)]
      exact congrArg some (by omega)
    rw [textValues, List.map_cons, List.cons_append, List.filterMap_cons_some hcode]
    exact congrArg (List.cons c) (ih hcodes)

/-- All values that text is pushed as can be written. -/
theorem written_textValues (codes : List Nat) :
    (textValues codes).filter (fun v => v.kind = .float ∨ v.kind = .str) = [] := by
  rw [List.filter_eq_nil_iff]
  intro v hv
  rcases List.mem_append.mp hv with hcode | hnewline
  · obtain ⟨c, -, rfl⟩ := List.mem_map.mp hcode
    simp [Value.kind]
  · rw [List.mem_singleton.mp hnewline]
    decide

/-- Such a line, and then the stack written as characters, which was empty before. -/
theorem execute_echo (hop : i.op = .input) (hj : (m.execute i).current? = some j)
    (hop' : j.op = .stackText) (hstack : m.stack = []) (h : Echoable line codes)
    (hinput : m.input.pending = line ++ Bytes.newline :: rest) :
    let t := (m.execute i).execute j
    t.output = m.output ++ (m.prompt ++ line ++ [Bytes.newline, Bytes.newline]) ∧
      t.faults = m.faults ∧ t.stack = (textValues codes).reverse := by
  have hread := execute_input_text hop h hinput
  have hvalues : (m.execute i).stack = (textValues codes).reverse := by
    rw [hread, hstack, List.append_nil]
  have houtput : (m.execute i).output = m.output ++ m.prompt := by
    rw [hread]
  have hfaults : (m.execute i).faults = m.faults := by
    rw [hread]
    rfl
  have hline : (codes ++ [10]).flatMap Utf8.encodePoint = line ++ [Bytes.newline] := by
    rw [List.flatMap_append, Utf8.flatMap_encodePoint h.valid h.codePoints]
    rfl
  simp only
  rw [execute_stackText hop' hj, hvalues, List.reverse_reverse, charCodes_textValues h.small,
    written_textValues, hline, houtput, hfaults]
  refine ⟨?_, rfl, rfl⟩
  apply Array.toList_inj.mp
  simp

/-- From an empty stack, a line of characters below 256 is written back as it was read, after the prompt, and
stays on the stack. In general, writing the stack writes integers and truth values modulo 256 as characters and
reports a mismatch for each other value. -/
theorem text_input_is_echoed :
    (∀ (m : Machine) (i j : Instruction) (line rest : Bytes) (codes : List Nat),
      m.current? = some i → i.op = .input → m.program.lines[m.pc.toNat + 1]? = some j →
      j.op = .stackText → m.stack = [] → Echoable line codes →
      m.input.pending = line ++ Bytes.newline :: rest →
      ∃ t, m.after? 2 = some t ∧
        t.output = m.output ++ (m.prompt ++ line ++ [Bytes.newline, Bytes.newline]) ∧
        t.faults = m.faults ∧ t.stack = (textValues codes).reverse) ∧
    ∀ (m : Machine) (i : Instruction), m.current? = some i → i.op = .stackText →
      ∃ w t, Utf8.valid w = true ∧
        Utf8.CodePoints w (m.stack.reverse.filterMap Value.charCode?) ∧ m.step? = some t ∧
        t = { m with
          output := m.output ++ (w ++ [Bytes.newline])
          faults := m.faults ++ ((m.stack.reverse.filter fun v => v.kind = .float ∨ v.kind = .str).map
            fun v => Fault.mk (.notCharacter v.kind) m.pc i.text)
          pc := m.pc + 1
          steps := m.steps + 1
          journal := t.journal } := by
  constructor
  · intro m i j line rest codes hi hop hj hop' hstack h hinput
    have hstraight : i.op.isStraight = true := by
      rw [hop]
      rfl
    have hnext : (m.execute i).current? = some j := by
      have hnonneg := (current?_eq_some.mp hi).1
      rw [current?_eq_some, execute_program, execute_pc, next_straight hstraight,
        show (m.pc + 1).toNat = m.pc.toNat + 1 by omega]
      exact ⟨by omega, hj⟩
    refine ⟨(m.execute i).execute j, ?_, execute_echo hop hnext hop' hstack h hinput⟩
    rw [after?_succ hi, after?_succ hnext, after?]
  · intro m i hi hop
    have hlt := charCode?_lt m.stack.reverse
    obtain ⟨hvalid, hcodes⟩ := Utf8.codePoints_flatMap_encodePoint hlt
    refine ⟨_, m.execute i, hvalid, hcodes, ?_, execute_stackText hop hi⟩
    rw [step?, hi, Option.map_some]

/-- A character of two bytes is echoed. A negative number and a truth value are written as characters,
and a string between them is reported. -/
theorem text_input_is_echoed_accent :
    let s : Setup := ⟨⟨text "h\u00e9\n7", none⟩, .scripted [], text "> ", false⟩
    ∃ p i j, Program.load (text "echo") (text "INPUT\n!!") = .ok p ∧
      let m := new p s
      let m' : Machine := { m with pc := 1, stack := [.int (-191), .str [], .bool true] }
      m.current? = some i ∧ i.op = .input ∧ m'.current? = some j ∧ j.op = .stackText ∧
      Echoable (text "h\u00e9") [104, 233] ∧
      (∃ t, m.after? 2 = some t ∧
        t.output = m.output ++ (text "> " ++ text "h\u00e9" ++ [Bytes.newline, Bytes.newline]) ∧
        t.faults = m.faults ∧ t.stack = [.int 10, .int 233, .int 104]) ∧
      ∃ w t, Utf8.valid w = true ∧ Utf8.CodePoints w [1, 65] ∧ m'.step? = some t ∧
        t.output = m'.output ++ (w ++ [Bytes.newline]) ∧ t.stack = m'.stack ∧
        t.faults = m'.faults.push ⟨.notCharacter .str, 1, j.text⟩ := by
  intro s
  obtain ⟨p, hp, hinput, hwrite⟩ := Program.exists_of_loads
    (P := fun p => p.opAt? 0 = some .input ∧ p.opAt? 1 = some .stackText)
    (text "echo") (text "INPUT\n!!") (by decide +kernel)
  obtain ⟨i, hi, hop⟩ := Option.map_eq_some_iff.mp hinput
  obtain ⟨j, hj, hop'⟩ := Option.map_eq_some_iff.mp hwrite
  have hline : Echoable (text "h\u00e9") [104, 233] := {
    one_line := by decide
    valid := by decide +kernel
    codePoints := Utf8.codePoints_iff.mpr (by decide +kernel)
    small := by decide
    no_return := by decide
    no_number := inputNumber?_eq_none_iff.mp (by decide +kernel) }
  obtain ⟨hecho, hwritten⟩ := text_input_is_echoed
  obtain ⟨w, t, hvalid, hcodes, hstep, ht⟩ := hwritten
    { new p s with pc := 1, stack := [.int (-191), .str [], .bool true] } j hj hop'
  refine ⟨p, i, j, hp, hi, hop, hj, hop', hline,
    hecho (new p s) i j _ (text "7") _ hi hop hj hop' rfl hline
      (show text "h\u00e9\n7" = _ by decide),
    w, t, hvalid, hcodes, hstep, ?_, ?_, ?_⟩
  · rw [ht]
  · rw [ht]
  · rw [ht]
    exact Array.push_eq_append.symm

end Machine
end LineMachine
