import LineMachine.Program.Listing
import LineMachine.Proofs.Spacing

/-! Every source can be loaded, and formatting it, that is writing its instructions one a line with
single spaces, keeps the instructions and the labels that they can name. -/
namespace LineMachine

theorem Bytes.splitOn_append {sep : UInt8} {s : Bytes} (h : sep ∉ s) (t : Bytes) :
    Bytes.splitOn sep (s ++ sep :: t) = s :: Bytes.splitOn sep t := by
  induction s with
  | nil => simp [Bytes.splitOn]
  | cons b s ih =>
    rw [List.mem_cons, not_or] at h
    obtain ⟨hb, hs⟩ := h
    have hrest := ih hs
    unfold Bytes.splitOn at hrest ⊢
    rw [List.cons_append, List.foldr_cons, hrest, if_neg (Ne.symm hb)]

/-- Lines that all end in a separator are followed by an empty piece. -/
theorem Bytes.splitOn_lines {sep : UInt8} {ls : List Bytes} (h : ∀ l ∈ ls, sep ∉ l) :
    Bytes.splitOn sep (ls.flatMap (· ++ [sep])) = ls ++ [[]] := by
  induction ls with
  | nil => rfl
  | cons l ls ih =>
    obtain ⟨hl, hls⟩ := List.forall_mem_cons.mp h
    rw [List.flatMap_cons, List.append_assoc, List.singleton_append, Bytes.splitOn_append hl, ih hls,
      List.cons_append]

theorem Operand.token_ofToken (t : Bytes) : (ofToken t).token = t := by
  unfold ofToken
  split
  · rename_i hdollar
    obtain ⟨rest, rfl⟩ := List.head?_eq_some_iff.mp hdollar
    rfl
  · split <;> rfl

/-- The instruction without its place in the source and the text there. -/
def Instruction.bare (i : Instruction) : Instruction := { i with text := [], line := 0 }

namespace Program

open Line (Spaced IsWord words)
open Utf8 (Trimmed)

/-- A trimmed line of a source that is neither empty nor a comment. -/
structure IsContent (s : Bytes) : Prop where
  trimmed : Trimmed s
  content : hasContent s = true
  line : Bytes.newline ∉ s

/-- The words of a line, with single spaces between them. -/
def formatted (s : Bytes) : Bytes := Bytes.join [Bytes.space] (words s)

/-- In some program this word is an operand. -/
def IsOperand (x : Bytes) : Prop :=
  ∃ name source p, load name source = .ok p ∧ ∃ i ∈ p.lines, ∃ o ∈ i.operands, o.token = x

/-- Two programs consist of the same instructions, apart from their places in the sources, and a
label that an instruction can name is bound to the same line in both. -/
structure Reformatted (p p' : Program) : Prop where
  name : p'.name = p.name
  lines : p'.lines.map Instruction.bare = p.lines.map Instruction.bare
  labels : ∀ x, IsOperand x → p'.label? x = p.label? x

variable {p p' q q' : Program} {n n' : Nat} {s x : Bytes} {ls : List (Nat × Bytes)}

theorem isContent_of_mem {source : Bytes} (h : (n, s) ∈ contents source) : IsContent s := by
  obtain ⟨hmem, hcontent⟩ := List.mem_filter.mp h
  obtain ⟨⟨line, k⟩, hline, heq⟩ := List.mem_map.mp hmem
  cases heq
  have hpiece := List.fst_mem_of_mem_zipIdx hline
  refine ⟨Utf8.trimmed_trim line, hcontent, ?_⟩
  intro hnewline
  exact Bytes.not_mem_of_mem_splitOn hpiece ((Utf8.trim_infix line).mem hnewline)

theorem IsContent.spaced (h : IsContent s) : Spaced (words s) s := by
  apply Line.spaced_of_trimmed h.trimmed ?_ h.line
  rintro rfl
  cases h.content

theorem IsContent.parse_eq (h : IsContent s) :
    ∃ w ws, words s = w :: ws ∧ Line.parse s = .ok ⟨w, ws, 0⟩ := by
  have hspaced := h.spaced
  obtain ⟨w, ws, hwords⟩ := List.exists_cons_of_ne_nil hspaced.words_ne_nil
  rw [hwords] at hspaced
  exact ⟨w, ws, hwords, hspaced.parse_eq⟩

/-- Formatting a line changes nothing but the gaps. -/
theorem IsContent.formatted (h : IsContent s) :
    IsContent (formatted s) ∧ words (formatted s) = words s := by
  have hspaced := h.spaced
  have hformatted : Spaced (words s) (Program.formatted s) := hspaced.join
  refine ⟨⟨hspaced.trimmed hformatted h.trimmed, ?_, hformatted.newline_not_mem⟩,
    hformatted.words_eq⟩
  obtain ⟨w, ws, hwords⟩ := List.exists_cons_of_ne_nil hspaced.words_ne_nil
  have hcontent := h.content
  rw [hwords] at hspaced hformatted
  rw [hspaced.hasContent_eq] at hcontent
  rw [hformatted.hasContent_eq, hcontent]

theorem exists_addLines (h : ∀ l ∈ ls, IsContent l.2) (p : Program) :
    ∃ q, p.addLines ls = .ok q := by
  induction ls generalizing p with
  | nil => exact ⟨p, rfl⟩
  | cons l ls ih =>
    obtain ⟨hl, hls⟩ := List.forall_mem_cons.mp h
    obtain ⟨w, ws, -, hparse⟩ := hl.parse_eq
    obtain ⟨r, hr⟩ := exists_addLine hparse p l.1
    obtain ⟨q, hq⟩ := ih hls r
    refine ⟨q, ?_⟩
    rw [addLines_cons, hr]
    exact hq

/-- Every source can be loaded. -/
theorem exists_load (name source : Bytes) : ∃ p, load name source = .ok p :=
  exists_addLines (fun _ h => isContent_of_mem h) _

/-- Of a line with content, its words become the mnemonic and the operands. -/
theorem addLine_content (hs : IsContent s) (h : p.addLine n s = .ok q) :
    ∃ w ws, words s = w :: ws ∧ q.name = p.name ∧
      q.lines = p.lines.push (.ofLine n s ⟨w, ws, 0⟩) := by
  obtain ⟨w, ws, hwords, hparse⟩ := hs.parse_eq
  obtain ⟨l, hl, rfl⟩ := addLine_eq_ok h
  rw [hparse] at hl
  cases hl
  exact ⟨w, ws, hwords, rfl, rfl⟩

theorem tokens_ofLine (n : Nat) (s : Bytes) (l : Line) :
    (Instruction.ofLine n s l).operands.map Operand.token = l.operands := by
  have hid : Operand.token ∘ Operand.ofToken = id := funext Operand.token_ofToken
  rw [Instruction.ofLine, List.map_map, hid, List.map_id]

theorem source_addLine (hs : IsContent s) (h : p.addLine n s = .ok q) :
    q.source = p.source ++ (formatted s ++ [Bytes.newline]) := by
  obtain ⟨w, ws, hwords, -, hlines⟩ := addLine_content hs h
  unfold source formatted
  rw [hlines, hwords, Array.toList_push, List.flatMap_append, List.flatMap_singleton, tokens_ofLine]
  rfl

theorem source_addLines (hls : ∀ l ∈ ls, IsContent l.2) (h : p.addLines ls = .ok q) :
    q.source = p.source ++ (ls.map fun l => formatted l.2).flatMap (· ++ [Bytes.newline]) := by
  induction ls generalizing p with
  | nil =>
    cases h
    simp
  | cons l ls ih =>
    obtain ⟨hl, hls⟩ := List.forall_mem_cons.mp hls
    obtain ⟨r, hr, hq⟩ := addLines_cons_ok h
    rw [ih hls hq, source_addLine hl hr, List.map_cons, List.flatMap_cons, List.append_assoc]

/-- The operands of a program are words. -/
def WordOperands (p : Program) : Prop := ∀ i ∈ p.lines, ∀ o ∈ i.operands, IsWord o.token

theorem wordOperands_addLine (hp : p.WordOperands) (hs : IsContent s)
    (h : p.addLine n s = .ok q) : q.WordOperands := by
  obtain ⟨w, ws, hwords, -, hlines⟩ := addLine_content hs h
  have hspaced := hs.spaced
  rw [hwords] at hspaced
  intro i hi o ho
  rw [hlines] at hi
  rcases Array.mem_push.mp hi with hi | rfl
  · exact hp i hi o ho
  · have htoken := List.mem_map_of_mem (f := Operand.token) ho
    rw [tokens_ofLine] at htoken
    exact hspaced.isWord _ (List.mem_cons_of_mem w htoken)

theorem IsOperand.isWord (h : IsOperand x) : IsWord x := by
  obtain ⟨name, source, p, hload, i, hi, o, ho, rfl⟩ := h
  have hempty : WordOperands ⟨name, #[], ∅⟩ := fun i hi => absurd hi (Array.not_mem_empty i)
  have hloaded : p.WordOperands := addLines_preserves
    (fun _ _ _ hl hp h => wordOperands_addLine hp (isContent_of_mem hl) h) hempty hload
  exact hloaded i hi o ho

/-! Loading what was formatted. -/

theorem Reformatted.size (h : Reformatted p p') : p'.size = p.size := by
  have hsize := congrArg Array.size h.lines
  rwa [Array.size_map, Array.size_map] at hsize

theorem Reformatted.source (h : Reformatted p p') : p'.source = p.source := by
  have hbare : ∀ p : Program, p.source = ((p.lines.map Instruction.bare).toList).flatMap fun inst =>
      Bytes.join [Bytes.space] (inst.mnemonic :: inst.operands.map Operand.token) ++
        [Bytes.newline] := by
    intro p
    rw [Array.toList_map, List.flatMap_map]
    rfl
  rw [hbare, hbare, h.lines]

theorem reformatted_addLine (hr : Reformatted p p') (hs : IsContent s)
    (h : p.addLine n s = .ok q) (h' : p'.addLine n' (formatted s) = .ok q') :
    Reformatted q q' := by
  obtain ⟨hs', hwords'⟩ := hs.formatted
  obtain ⟨w, ws, hwords, hname, hlines⟩ := addLine_content hs h
  obtain ⟨v, vs, hv, hname', hlines'⟩ := addLine_content hs' h'
  rw [hwords', hwords] at hv
  cases hv
  refine ⟨?_, ?_, ?_⟩
  · rw [hname, hname', hr.name]
  · rw [hlines, hlines', Array.map_push, Array.map_push, hr.lines]
    rfl
  · intro x hx
    have hx' := hx.isWord.continues
    have hlabel : Bytes.dropFinal? 58 (formatted s) = some x ↔ Bytes.dropFinal? 58 s = some x := by
      rw [hs.spaced.dropFinal?_eq_some_iff hx', hs'.spaced.dropFinal?_eq_some_iff hx', hwords']
    rw [label?_addLine h, label?_addLine h', hr.size, hr.labels x hx]
    simp only [hlabel]

/-- Formatted lines can be added in place of the lines, under any numbers. The empty piece is what
comes after the newline of the last of them. -/
theorem reformatted_addLines (hr : Reformatted p p') (hls : ∀ l ∈ ls, IsContent l.2)
    (h : p.addLines ls = .ok q) (n : Nat) :
    ∃ q', p'.addLines (numbered n (ls.map (fun l => formatted l.2) ++ [[]])) = .ok q' ∧
      Reformatted q q' := by
  induction ls generalizing p p' n with
  | nil =>
    cases h
    exact ⟨p', rfl, hr⟩
  | cons l ls ih =>
    obtain ⟨hl, hls⟩ := List.forall_mem_cons.mp hls
    obtain ⟨r, hr', hq⟩ := addLines_cons_ok h
    have hf := hl.formatted.1
    have htrim := Utf8.trim_eq_self hf.trimmed
    obtain ⟨w, ws, -, hparse⟩ := hf.parse_eq
    obtain ⟨r', hr''⟩ := exists_addLine hparse p' n
    obtain ⟨q', hq', hend⟩ := ih (reformatted_addLine hr hl hr' hr'') hls hq (n + 1)
    refine ⟨q', ?_, hend⟩
    rw [List.map_cons, List.cons_append, numbered_cons, htrim, if_pos hf.content, addLines_cons,
      hr'']
    exact hq'

theorem reformatted_load {name source : Bytes} (h : load name source = .ok p) :
    ∃ p', load name p.source = .ok p' ∧ Reformatted p p' := by
  have hcontent : ∀ l ∈ contents source, IsContent l.2 := fun _ h => isContent_of_mem h
  have hlines : ∀ l ∈ (contents source).map fun l => formatted l.2, Bytes.newline ∉ l := by
    intro l hl
    obtain ⟨k, hk, rfl⟩ := List.mem_map.mp hl
    exact (hcontent k hk).formatted.1.line
  have hsource : Bytes.splitOn Bytes.newline p.source =
      ((contents source).map fun l => formatted l.2) ++ [[]] := by
    rw [← Bytes.splitOn_lines hlines]
    exact congrArg _ (source_addLines hcontent h)
  have hempty : Reformatted ⟨name, #[], ∅⟩ ⟨name, #[], ∅⟩ := ⟨rfl, rfl, fun _ _ => rfl⟩
  obtain ⟨p', hp', hr⟩ := reformatted_addLines hempty hcontent h 1
  refine ⟨p', ?_, hr⟩
  rw [← hsource] at hp'
  exact hp'

/-- A vertical tab inside a word stays; blanks around words, empty lines and comments go. -/
example : ((load (text "p") (text "  #  a\x0b\t b \n\n// no\n\tL:\r")).toOption.map source) =
    some (text "# a\x0b b\nL:\n") := by
  decide +kernel

end Program
end LineMachine
