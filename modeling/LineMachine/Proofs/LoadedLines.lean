import LineMachine.Proofs.Formatting
import LineMachine.Proofs.Lexing

/-! Loading fails for no source, and a loaded program says of each line of the source what it must:
lines with content are instructions, in order, and everything about an instruction is read from its
text. -/
namespace LineMachine

theorem Bytes.splitOn_ne_nil (sep : UInt8) (s : Bytes) : Bytes.splitOn sep s ≠ [] := by
  cases s with
  | nil => exact List.cons_ne_nil _ _
  | cons b s =>
    rw [Bytes.splitOn, List.foldr_cons]
    split
    · exact List.cons_ne_nil _ _
    · split <;> exact List.cons_ne_nil _ _

theorem Bytes.join_splitOn (sep : UInt8) (s : Bytes) :
    Bytes.join [sep] (Bytes.splitOn sep s) = s := by
  induction s with
  | nil => rfl
  | cons b s ih =>
    obtain ⟨p, ps, hs⟩ := List.exists_cons_of_ne_nil (Bytes.splitOn_ne_nil sep s)
    rw [hs] at ih
    have hcons : Bytes.splitOn sep (b :: s) =
        if b = sep then [] :: p :: ps else (b :: p) :: ps := by
      unfold Bytes.splitOn at hs ⊢
      rw [List.foldr_cons, hs]
    rw [hcons]
    split
    · rename_i hb
      rw [Bytes.join_cons_cons, ih, hb]
      rfl
    · rw [← ih]
      rfl

theorem Opcode.ofMnemonic_eq_print_iff (w : Bytes) : ofMnemonic w = .print ↔ w = text "#" := by
  constructor
  · have honly : ∀ x ∈ mnemonics, x.1 = .print → x.2 = "#" := by decide
    intro h
    unfold ofMnemonic at h
    split at h
    · rename_i op m hfind
      have hword := List.find?_some hfind
      rw [← honly (op, m) (List.mem_of_find?_eq_some hfind) h]
      exact (eq_of_beq hword).symm
    · split at h <;> cases h
  · rintro rfl
    decide

namespace Program

/-- Everything about an instruction, apart from where it stands, is read from its text. -/
structure ReadFromText (i : Instruction) : Prop where
  words : Line.lexWords i.text = .ok (i.mnemonic :: i.operands.map Operand.token)
  op : i.op = Opcode.ofMnemonic i.mnemonic
  operands : i.operands = (i.operands.map Operand.token).map Operand.ofToken
  printed : i.mnemonic = text "#" →
    Template.lexed (Bytes.join [Bytes.space] (i.operands.map Operand.token)) = .ok i.template
  silent : i.mnemonic ≠ text "#" → i.template = []

/-- The program has an instruction for each line that is neither blank nor a comment, in order, and no
other instructions. -/
structure Lists (p : Program) (ls : List Bytes) : Prop where
  in_order : (p.lines.toList.map Instruction.line).Pairwise (· < ·)
  lines : ∀ n s, (∃ i ∈ p.lines, i.line = n ∧ i.text = s) ↔
    ∃ k l, n = k + 1 ∧ ls[k]? = some l ∧ s = Utf8.trim l ∧ s ≠ [] ∧ ¬text "//" <+: s
  read : ∀ i ∈ p.lines, ReadFromText i

variable {p q : Program} {n : Nat} {s source : Bytes} {ls : List (Nat × Bytes)}

theorem hasContent_iff : hasContent s = true ↔ s ≠ [] ∧ ¬text "//" <+: s := by
  simp [hasContent, ← List.isPrefixOf_iff_prefix]

theorem mem_contents : (n, s) ∈ contents source ↔ ∃ k l, n = k + 1 ∧
    (Bytes.splitOn Bytes.newline source)[k]? = some l ∧ s = Utf8.trim l ∧ s ≠ [] ∧
      ¬text "//" <+: s := by
  unfold contents
  rw [List.mem_filter, List.mem_map]
  constructor
  · rintro ⟨⟨⟨l, m⟩, hmem, heq⟩, hcontent⟩
    cases heq
    obtain ⟨hpos, hl⟩ := List.mk_mem_zipIdx_iff_le_and_getElem?_sub.mp hmem
    exact ⟨n - 1, l, (Nat.sub_add_cancel hpos).symm, hl, rfl, hasContent_iff.mp hcontent⟩
  · rintro ⟨k, l, rfl, hl, rfl, hcontent⟩
    refine ⟨⟨(l, k + 1), ?_, rfl⟩, hasContent_iff.mpr hcontent⟩
    exact List.mk_mem_zipIdx_iff_le_and_getElem?_sub.mpr ⟨Nat.le_add_left 1 k, hl⟩

theorem contents_in_order (source : Bytes) :
    ((contents source).map Prod.fst).Pairwise (· < ·) := by
  let numbered : List (Nat × Bytes) :=
    ((Bytes.splitOn Bytes.newline source).zipIdx 1).map fun x => (x.2, Utf8.trim x.1)
  have hnumbers : numbered.map Prod.fst =
      List.range' 1 (Bytes.splitOn Bytes.newline source).length := by
    rw [← List.zipIdx_map_snd, List.map_map]
    rfl
  have hsublist : ((contents source).map Prod.fst).Sublist (numbered.map Prod.fst) :=
    List.filter_sublist.map Prod.fst
  rw [hnumbers] at hsublist
  exact List.Pairwise.sublist hsublist (List.pairwise_lt_range' 1)

/-- Lines are loaded with their numbers and their texts. -/
theorem places_addLines (h : p.addLines ls = .ok q) :
    q.lines.toList.map (fun i => (i.line, i.text)) =
      p.lines.toList.map (fun i => (i.line, i.text)) ++ ls := by
  induction ls generalizing p with
  | nil =>
    cases h
    exact (List.append_nil _).symm
  | cons l ls ih =>
    obtain ⟨r, hr, hq⟩ := addLines_cons_ok h
    obtain ⟨line, -, rfl⟩ := addLine_eq_ok hr
    rw [ih hq, Array.toList_push, List.map_append, List.append_assoc]
    rfl

theorem readFromText_ofLine (hs : IsContent s) {w : Bytes} {ws : List Bytes}
    (hwords : Line.words s = w :: ws) : ReadFromText (.ofLine n s ⟨w, ws, 0⟩) := by
  have htokens := tokens_ofLine n s ⟨w, ws, 0⟩
  refine ⟨?_, rfl, ?_, ?_, ?_⟩
  · rw [htokens]
    exact (Line.lexWords_eq hs.line).trans (congrArg _ hwords)
  · rw [htokens]
    rfl
  · intro hprint
    rw [htokens, Template.lexed_eq]
    exact congrArg _ (if_pos ((Opcode.ofMnemonic_eq_print_iff w).mpr hprint)).symm
  · intro hother
    exact if_neg fun hprint => hother ((Opcode.ofMnemonic_eq_print_iff w).mp hprint)

theorem readFromText_addLine (hp : ∀ i ∈ p.lines, ReadFromText i) (hs : IsContent s)
    (h : p.addLine n s = .ok q) : ∀ i ∈ q.lines, ReadFromText i := by
  obtain ⟨w, ws, hwords, -, hlines⟩ := addLine_content hs h
  intro i hi
  rw [hlines] at hi
  rcases Array.mem_push.mp hi with hi | rfl
  · exact hp i hi
  · exact readFromText_ofLine hs hwords

theorem name_load {name : Bytes} (h : load name source = .ok p) : p.name = name := by
  refine addLines_preserves (P := fun p => p.name = name) ?_ rfl h
  intro p q l _ hp hq
  obtain ⟨line, -, rfl⟩ := addLine_eq_ok hq
  exact hp

theorem lists_load {name : Bytes} (h : load name source = .ok p) :
    p.Lists (Bytes.splitOn Bytes.newline source) := by
  have hplaces : p.lines.toList.map (fun i => (i.line, i.text)) = contents source :=
    places_addLines h
  refine ⟨?_, ?_, ?_⟩
  · have horder := contents_in_order source
    rw [← hplaces, List.map_map] at horder
    exact horder
  · intro n s
    rw [← mem_contents, ← hplaces, List.mem_map]
    simp [Array.mem_toList_iff]
  · exact addLines_preserves (P := fun p => ∀ i ∈ p.lines, ReadFromText i)
      (fun _ _ _ hl hp h => readFromText_addLine hp (isContent_of_mem hl) h)
      (fun i hi => absurd hi (Array.not_mem_empty i)) h

/-- Every source is loaded, under any name. Its lines are the pieces between its newlines. -/
theorem load_lists_every_line (name source : Bytes) : ∃ p ls, load name source = .ok p ∧
    p.name = name ∧ Bytes.join [Bytes.newline] ls = source ∧ ls ≠ [] ∧
      (∀ l ∈ ls, Bytes.newline ∉ l) ∧ p.Lists ls := by
  obtain ⟨p, hp⟩ := exists_load name source
  exact ⟨p, Bytes.splitOn Bytes.newline source, hp, name_load hp, Bytes.join_splitOn _ _,
    Bytes.splitOn_ne_nil _ _, fun _ => Bytes.not_mem_of_mem_splitOn, lists_load hp⟩

end Program
end LineMachine
