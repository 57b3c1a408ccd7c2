import LineMachine.Proofs.LoadedLines

/-! The labels of a program, read off its lines: a name is bound to the last line that consists of the
name and a colon. A line that only starts with a word that ends in a colon does nothing, like a label,
but binds nothing. -/
namespace LineMachine

theorem Opcode.ofMnemonic_eq_label_iff (w : Bytes) :
    ofMnemonic w = .label ↔ ∃ x, w = x ++ [58] := by
  constructor
  · have hnone : ∀ y ∈ mnemonics, y.1 ≠ .label := by decide
    intro h
    unfold ofMnemonic at h
    split at h
    · rename_i op m hfind
      exact absurd h (hnone (op, m) (List.mem_of_find?_eq_some hfind))
    · split at h
      · rename_i hlast
        exact ⟨w.dropLast, (List.dropLast_append_getLast? 58 hlast).symm⟩
      · cases h
  · rintro ⟨x, rfl⟩
    exact ofMnemonic_label x

namespace Program

open Line (Spaced)

/-- The last of some lines that consist of `x` and a colon is the `j`-th line. -/
def DeclaredLast (ls : List Bytes) (x : Bytes) (j : Nat) : Prop :=
  ls[j]? = some (x ++ [58]) ∧ ∀ k, ls[k]? = some (x ++ [58]) → k ≤ j

/-- The lines of a source that have content, trimmed. -/
def lineTexts (source : Bytes) : List Bytes := (contents source).map Prod.snd

/-- The lines of a program as they are written. -/
def texts (p : Program) : List Bytes := p.lines.toList.map Instruction.text

variable {p q : Program} {i : Instruction} {n j : Nat} {s x name source : Bytes} {ls : List Bytes}

theorem getElem?_concat_eq_some {k : Nat} {t : Bytes} :
    (ls ++ [s])[k]? = some t ↔ k = ls.length ∧ s = t ∨ k < ls.length ∧ ls[k]? = some t := by
  rcases Nat.lt_trichotomy k ls.length with hk | hk | hk
  · simp [List.getElem?_append_left hk, hk, Nat.ne_of_lt hk]
  · simp [hk]
  · have hnone : (ls ++ [s])[k]? = none := List.getElem?_eq_none (by rwa [List.length_append])
    simp [hnone, Nat.ne_of_gt hk, Nat.lt_asymm hk]

/-- A line that declares a name takes the place of all before it. -/
theorem declaredLast_concat_self (ls : List Bytes) (x : Bytes) (j : Nat) :
    DeclaredLast (ls ++ [x ++ [58]]) x j ↔ j = ls.length := by
  unfold DeclaredLast
  simp only [getElem?_concat_eq_some]
  constructor
  · rintro ⟨hj, hlast⟩
    have hle := hlast ls.length (Or.inl ⟨rfl, trivial⟩)
    omega
  · rintro rfl
    refine ⟨Or.inl ⟨rfl, trivial⟩, ?_⟩
    rintro k (⟨hk, -⟩ | ⟨hk, -⟩) <;> omega

theorem declaredLast_concat (h : s ≠ x ++ [58]) :
    DeclaredLast (ls ++ [s]) x j ↔ DeclaredLast ls x j := by
  have hget : ∀ k : Nat, (ls ++ [s])[k]? = some (x ++ [58]) ↔ ls[k]? = some (x ++ [58]) := by
    intro k
    rw [getElem?_concat_eq_some]
    constructor
    · rintro (⟨-, hs⟩ | ⟨-, hk⟩)
      · exact absurd hs h
      · exact hk
    · intro hk
      exact Or.inr ⟨(List.getElem?_eq_some_iff.mp hk).choose, hk⟩
  simp only [DeclaredLast, hget]

theorem exists_declaredLast (h : x ++ [58] ∈ ls) : ∃ j, DeclaredLast ls x j := by
  induction ls using List.reverseRecOn with
  | nil => cases h
  | append_singleton ls s ih =>
    by_cases hs : s = x ++ [58]
    · subst hs
      exact ⟨ls.length, (declaredLast_concat_self ls x _).mpr rfl⟩
    · rcases List.mem_append.mp h with h | h
      · obtain ⟨j, hj⟩ := ih h
        exact ⟨j, (declaredLast_concat hs).mpr hj⟩
      · exact absurd (List.mem_singleton.mp h).symm hs

theorem texts_addLine (h : p.addLine n s = .ok q) : q.texts = p.texts ++ [s] := by
  obtain ⟨l, -, rfl⟩ := addLine_eq_ok h
  simp [texts, Instruction.ofLine]

theorem length_texts (p : Program) : p.texts.length = p.size := by
  simp [texts, size]

/-- Adding a line binds the label that it declares, and no other. -/
theorem labels_addLine (hp : ∀ x j, p.label? x = some j ↔ DeclaredLast p.texts x j)
    (h : p.addLine n s = .ok q) (x : Bytes) (j : Nat) :
    q.label? x = some j ↔ DeclaredLast q.texts x j := by
  rw [label?_addLine h, texts_addLine h]
  by_cases hs : s = x ++ [58]
  · subst hs
    rw [if_pos (Bytes.dropFinal?_eq_some_iff.mpr rfl), declaredLast_concat_self, length_texts,
      Option.some_inj, eq_comm]
  · rw [if_neg (mt Bytes.dropFinal?_eq_some_iff.mp hs), declaredLast_concat hs]
    exact hp x j

theorem texts_load (h : load name source = .ok p) : p.texts = lineTexts source := by
  have hplaces : p.lines.toList.map (fun i => (i.line, i.text)) = contents source :=
    places_addLines h
  rw [lineTexts, ← hplaces, List.map_map]
  rfl

/-- A label is bound to the last line that declares it. -/
theorem label?_load (h : load name source = .ok p) (x : Bytes) (j : Nat) :
    p.label? x = some j ↔ DeclaredLast (lineTexts source) x j := by
  have hempty : ∀ x j, (⟨name, #[], ∅⟩ : Program).label? x = some j ↔
      DeclaredLast (texts ⟨name, #[], ∅⟩) x j := by
    intro x j
    simp [label?, DeclaredLast, texts]
  rw [← texts_load h]
  exact addLines_preserves (P := fun p => ∀ x j, p.label? x = some j ↔ DeclaredLast p.texts x j)
    (fun _ _ _ _ hp h => labels_addLine hp h) hempty h x j

/-- The words of a loaded line are the mnemonic and the operands. -/
theorem spaced_load (h : load name source = .ok p) (hi : i ∈ p.lines) :
    Spaced (i.mnemonic :: i.operands.map Operand.token) i.text := by
  have htext : i.text ∈ lineTexts source := by
    rw [← texts_load h]
    exact List.mem_map_of_mem (Array.mem_toList_iff.mpr hi)
  obtain ⟨l, hl, heq⟩ := List.mem_map.mp htext
  have hcontent : IsContent i.text := heq ▸ isContent_of_mem hl
  have hwords := ((lists_load h).read i hi).words
  rw [Line.lexWords_eq hcontent.line] at hwords
  rw [← Except.ok.inj hwords]
  exact hcontent.spaced

/-- The instruction that is loaded from a line, read off the words of the line. -/
theorem exists_instruction {w : Bytes} {ws : List Bytes} (h : load name source = .ok p)
    (hline : (lineTexts source)[j]? = some s) (hwords : Line.words s = w :: ws) :
    ∃ i, p.lines[j]? = some i ∧ i.op = Opcode.ofMnemonic w ∧
      i.operands = ws.map Operand.ofToken ∧ Spaced (w :: ws) s := by
  rw [← texts_load h, texts, List.getElem?_map, Array.getElem?_toList] at hline
  obtain ⟨i, hi, rfl⟩ := Option.map_eq_some_iff.mp hline
  have hmem := Array.mem_of_getElem? hi
  have hread := (lists_load h).read i hmem
  have hspaced := spaced_load h hmem
  have heq := hspaced.words_eq
  rw [hwords] at heq
  obtain ⟨hmnemonic, htokens⟩ := List.cons.inj heq
  rw [← heq] at hspaced
  refine ⟨i, hi, hmnemonic ▸ hread.op, ?_, hspaced⟩
  rw [hread.operands, htokens]

/-- A line declares a name that is a part of a word if it consists of the name and a colon. -/
theorem text_eq_iff (h : load name source = .ok p) (hi : i ∈ p.lines)
    (hx : ∀ b ∈ x, Line.continuesWord b = true) :
    i.text = x ++ [58] ↔ i.mnemonic = x ++ [58] ∧ i.operands = [] := by
  rw [← Bytes.dropFinal?_eq_some_iff, (spaced_load h hi).dropFinal?_eq_some_iff hx, List.cons.injEq,
    List.map_eq_nil_iff]

/-- A line of the program that is nothing but the word `w`. -/
def IsAlone (p : Program) (w : Bytes) (j : Nat) : Prop :=
  ∃ i, p.lines[j]? = some i ∧ i.mnemonic = w ∧ i.operands = []

theorem getElem?_texts (h : load name source = .ok p)
    (hx : ∀ b ∈ x, Line.continuesWord b = true) (j : Nat) :
    (lineTexts source)[j]? = some (x ++ [58]) ↔ p.IsAlone (x ++ [58]) j := by
  rw [← texts_load h, texts, List.getElem?_map, Array.getElem?_toList, Option.map_eq_some_iff]
  constructor
  · rintro ⟨i, hi, htext⟩
    exact ⟨i, hi, (text_eq_iff h (Array.mem_of_getElem? hi) hx).mp htext⟩
  · rintro ⟨i, hi, hwords⟩
    exact ⟨i, hi, (text_eq_iff h (Array.mem_of_getElem? hi) hx).mpr hwords⟩

/-- The mnemonic of a label instruction is a name and a colon. The name is bound to the last line that
is nothing but this word, if there is such a line; in particular it is bound if the instruction has no
operands. -/
theorem labels_bound_by_lone_words (hp : load name source = .ok p) (hi : i ∈ p.lines)
    (hop : i.op = .label) : ∃ x, i.mnemonic = x ++ [58] ∧
      (∀ j, p.label? x = some j ↔
        p.IsAlone i.mnemonic j ∧ ∀ k, p.IsAlone i.mnemonic k → k ≤ j) ∧
      ((∃ j, p.label? x = some j) ↔ ∃ k, p.IsAlone i.mnemonic k) ∧
      (i.operands = [] → ∃ j, p.label? x = some j) := by
  have hmnemonic := ((lists_load hp).read i hi).op
  rw [hop] at hmnemonic
  obtain ⟨x, hx⟩ := (Opcode.ofMnemonic_eq_label_iff _).mp hmnemonic.symm
  have hword := (spaced_load hp hi).isWord _ List.mem_cons_self
  have hpart : ∀ b ∈ x, Line.continuesWord b = true := by
    intro b hb
    exact hword.continues b (by simp [hx, hb])
  have hbound : (∃ j, p.label? x = some j) ↔ ∃ k, p.IsAlone i.mnemonic k := by
    simp only [label?_load hp, hx, ← getElem?_texts hp hpart]
    constructor
    · rintro ⟨j, hj, -⟩
      exact ⟨j, hj⟩
    · rintro ⟨k, hk⟩
      exact exists_declaredLast (List.mem_of_getElem? hk)
  refine ⟨x, hx, ?_, hbound, ?_⟩
  · intro j
    rw [label?_load hp, DeclaredLast]
    simp only [getElem?_texts hp hpart, hx]
  · intro hnone
    obtain ⟨k, hk⟩ := Array.mem_iff_getElem?.mp hi
    exact hbound.mpr ⟨k, i, hk, rfl, hnone⟩

/-- The word stands alone between two lines that start with it and go on. -/
theorem labels_bound_by_lone_words_between :
    ∃ p i, load (text "p") (text "end: here\nend:\nend: there") = .ok p ∧ i ∈ p.lines ∧
      i.op = .label ∧ i.operands = [.word (text "here")] ∧ ∃ x, i.mnemonic = x ++ [58] ∧
        (∀ j, p.label? x = some j ↔
          p.IsAlone i.mnemonic j ∧ ∀ k, p.IsAlone i.mnemonic k → k ≤ j) ∧
        ((∃ j, p.label? x = some j) ↔ ∃ k, p.IsAlone i.mnemonic k) := by
  obtain ⟨p, hp, hfirst⟩ := exists_of_loads
    (P := fun p => p.lines[0]?.map (fun i => (i.op, i.operands)) =
      some (.label, [.word (text "here")]))
    (text "p") (text "end: here\nend:\nend: there") (by decide +kernel)
  obtain ⟨i, hi, heq⟩ := Option.map_eq_some_iff.mp hfirst
  have hmem := Array.mem_of_getElem? hi
  have hop : i.op = .label := congrArg Prod.fst heq
  obtain ⟨x, hx, hlast, hbound, -⟩ := labels_bound_by_lone_words hp hmem hop
  exact ⟨p, i, hp, hmem, hop, congrArg Prod.snd heq, x, hx, hlast, hbound⟩

/-- A label instruction with an operand does not bind the name that is in its mnemonic. -/
theorem label_with_operand_unbound :
    ∃ p i, load (text "p") (text "end: here") = .ok p ∧ i ∈ p.lines ∧ i.op = .label ∧
      i.mnemonic = text "end" ++ [58] ∧ p.label? (text "end") = none := by
  obtain ⟨p, hp, hfirst, hlabel⟩ := exists_of_loads
    (P := fun p => p.lines[0]?.map (fun i => (i.op, i.mnemonic)) =
      some (.label, text "end" ++ [58]) ∧ p.label? (text "end") = none)
    (text "p") (text "end: here") (by decide +kernel)
  obtain ⟨i, hi, heq⟩ := Option.map_eq_some_iff.mp hfirst
  exact ⟨p, i, hp, Array.mem_of_getElem? hi, congrArg Prod.fst heq, congrArg Prod.snd heq, hlabel⟩

end Program
end LineMachine
