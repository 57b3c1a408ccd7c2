import Mathlib.Data.List.TakeDrop
import Mathlib.Data.List.TakeWhile
import LineMachine.Proofs.Loading

/-! A label line put into a source: which lines and labels of the program move, and where to. -/
namespace LineMachine

theorem Bytes.not_mem_of_mem_splitOn {sep : UInt8} {s piece : Bytes}
    (h : piece ∈ Bytes.splitOn sep s) : sep ∉ piece := by
  induction s generalizing piece with
  | nil =>
    cases List.mem_singleton.mp h
    exact List.not_mem_nil
  | cons b s ih =>
    rw [Bytes.splitOn, List.foldr_cons] at h
    split at h
    · rcases List.mem_cons.mp h with rfl | h
      · exact List.not_mem_nil
      · exact ih h
    · rename_i hb
      split at h
      · cases List.mem_singleton.mp h
        intro hsep
        exact hb (List.mem_singleton.mp hsep).symm
      · rename_i first rest hs
        change Bytes.splitOn sep s = first :: rest at hs
        rw [hs] at ih
        rcases List.mem_cons.mp h with rfl | h
        · intro hsep
          rcases List.mem_cons.mp hsep with rfl | hsep
          · exact hb rfl
          · exact ih List.mem_cons_self hsep
        · exact ih (List.mem_cons_of_mem _ h)

/-- No mnemonic ends in a colon. -/
theorem Opcode.ofMnemonic_label (name : Bytes) : ofMnemonic (name ++ [58]) = .label := by
  have hcolon : ∀ x ∈ mnemonics, (text x.2).getLast? ≠ some 58 := by decide
  unfold ofMnemonic
  split
  · rename_i op m hfind
    have hword := List.find?_some hfind
    have hlast := hcolon (op, m) (List.mem_of_find?_eq_some hfind)
    rw [eq_of_beq hword] at hlast
    simp at hlast
  · simp

theorem Line.parse_eq_ok {s w : Bytes} {ws : List Bytes} (hline : Bytes.newline ∉ s)
    (hwords : words s = w :: ws) : parse s = .ok ⟨w, ws, (s.takeWhile isBlank).length⟩ := by
  have hspan : s.span (· ≠ Bytes.newline) = (s, []) := by
    have hall : ∀ b ∈ s, (fun b => decide (b ≠ Bytes.newline)) b = true := by
      intro b hb
      have hne : b ≠ Bytes.newline := fun h => hline (h ▸ hb)
      simpa using hne
    rw [List.span_eq_takeWhile_dropWhile, List.takeWhile_eq_self_iff.mpr hall,
      List.dropWhile_eq_nil_iff.mpr hall]
  unfold parse
  rw [hspan, hwords]

theorem Line.parse_of_words {s : Bytes} (hline : Bytes.newline ∉ s) (hword : words s = [s]) :
    ∃ c, parse s = .ok ⟨s, [], c⟩ :=
  ⟨_, parse_eq_ok hline hword⟩

/-- The instruction as if it stood at another line of the source. -/
def Instruction.atLine (i : Instruction) (n : Nat) : Instruction := { i with line := n }

namespace Program

/-- Where an index goes when a line is put in at `k`. -/
def shift (k j : Nat) : Nat := if j < k then j else j + 1

/-- In `p'` there is a label line at `k` that is not in `p`. Apart from the label `name`, everything
else is as in `p`, up to the numbers of the lines. -/
structure Inserted (k : Nat) (name : Bytes) (p p' : Program) : Prop where
  le_size : k ≤ p.size
  size : p'.size = p.size + 1
  opAt : p'.opAt? k = some .label
  lines : ∀ j, (p'.lines[shift k j]?).map (·.atLine 0) = (p.lines[j]?).map (·.atLine 0)
  labels : ∀ x, x ≠ name → p'.label? x = (p.label? x).map (shift k)

/-- The lines with content among some, trimmed, with their numbers from `n` on. -/
def numbered (n : Nat) (ls : List Bytes) : List (Nat × Bytes) :=
  ((ls.zipIdx n).map fun (s, n) => (n, Utf8.trim s)).filter fun (_, s) => hasContent s

variable {p p' q : Program} {k n : Nat} {s name : Bytes} {ls : List Bytes}

theorem numbered_append (n : Nat) (ks ls : List Bytes) :
    numbered n (ks ++ ls) = numbered n ks ++ numbered (n + ks.length) ls := by
  unfold numbered
  rw [List.zipIdx_append, List.map_append, List.filter_append]

theorem numbered_cons (n : Nat) (s : Bytes) (ls : List Bytes) : numbered n (s :: ls) =
    if hasContent (Utf8.trim s) then (n, Utf8.trim s) :: numbered (n + 1) ls
    else numbered (n + 1) ls := by
  unfold numbered
  rw [List.zipIdx_cons, List.map_cons, List.filter_cons]

theorem length_numbered (n : Nat) (ls : List Bytes) :
    (numbered n ls).length = ls.countP fun s => hasContent (Utf8.trim s) := by
  induction ls generalizing n with
  | nil => rfl
  | cons s ls ih =>
    rw [numbered_cons, List.countP_cons, ← ih (n + 1)]
    split <;> rfl

theorem size_addLine (h : p.addLine n s = .ok q) : q.size = p.size + 1 := by
  obtain ⟨l, -, rfl⟩ := addLine_eq_ok h
  exact Array.size_push _

theorem size_addLines {ls : List (Nat × Bytes)} (h : p.addLines ls = .ok q) :
    q.size = p.size + ls.length := by
  induction ls generalizing p with
  | nil =>
    cases h
    rfl
  | cons l ls ih =>
    obtain ⟨r, hr, hq⟩ := addLines_cons_ok h
    rw [ih hq, size_addLine hr, List.length_cons]
    omega

theorem lines_addLine {l : Line} (hl : Line.parse s = .ok l) (h : p.addLine n s = .ok q) (j : Nat) :
    q.lines[j]? = if j = p.size then some (.ofLine n s l) else p.lines[j]? := by
  obtain ⟨l', hl', rfl⟩ := addLine_eq_ok h
  rw [hl] at hl'
  cases hl'
  exact Array.getElem?_push

theorem label?_addLine (h : p.addLine n s = .ok q) (x : Bytes) : q.label? x =
    if Bytes.dropFinal? 58 s = some x then some p.size else p.label? x := by
  obtain ⟨l, -, rfl⟩ := addLine_eq_ok h
  unfold label?
  cases hd : Bytes.dropFinal? 58 s with
  | none => simp
  | some y => simp [Std.ExtTreeMap.getElem?_insert]

/-- A label line put in at the end moves nothing. -/
theorem inserted_label (hp : p.Closed) (hline : Bytes.newline ∉ name ++ [58])
    (hword : Line.words (name ++ [58]) = [name ++ [58]]) :
    ∃ p', p.addLine n (name ++ [58]) = .ok p' ∧ Inserted p.size name p p' := by
  obtain ⟨c, hl⟩ := Line.parse_of_words hline hword
  obtain ⟨p', hp'⟩ := exists_addLine hl p n
  refine ⟨p', hp', Nat.le_refl _, size_addLine hp', ?_, ?_, ?_⟩
  · rw [opAt?, lines_addLine hl hp', if_pos rfl]
    exact congrArg some (Opcode.ofMnemonic_label name)
  · intro j
    rw [lines_addLine hl hp', shift]
    split
    · rw [if_neg (by omega)]
    · rw [if_neg (by omega), Array.getElem?_eq_none (by change p.size ≤ _; omega),
        Array.getElem?_eq_none (by change p.size ≤ _; omega)]
  · intro x hx
    have hdrop : Bytes.dropFinal? 58 (name ++ [58]) = some name := by simp [Bytes.dropFinal?]
    rw [label?_addLine hp', if_neg (by rw [hdrop]; simpa using hx.symm)]
    cases hj : p.label? x with
    | none => rfl
    | some j => simp [shift, hp x j hj]

/-- A line added behind the place of the label is added to both programs alike. -/
theorem inserted_addLine (hi : Inserted k name p p') (h : p.addLine n s = .ok q) (n' : Nat) :
    ∃ q', p'.addLine n' s = .ok q' ∧ Inserted k name q q' := by
  obtain ⟨l, hl, -⟩ := addLine_eq_ok h
  obtain ⟨q', hq'⟩ := exists_addLine hl p' n'
  have hsize := hi.size
  have hle := hi.le_size
  refine ⟨q', hq', ?_, ?_, ?_, ?_, ?_⟩
  · rw [size_addLine h]
    omega
  · rw [size_addLine h, size_addLine hq', hsize]
  · rw [opAt?, lines_addLine hl hq', if_neg (by omega)]
    exact hi.opAt
  · intro j
    have hlast : shift k j = p'.size ↔ j = p.size := by
      rw [shift]
      split <;> omega
    rw [lines_addLine hl hq', lines_addLine hl h]
    by_cases hj : j = p.size
    · rw [if_pos hj, if_pos (hlast.mpr hj)]
      rfl
    · rw [if_neg hj, if_neg (mt hlast.mp hj)]
      exact hi.lines j
  · intro x hx
    have hlast : shift k p.size = p'.size := by
      rw [shift, if_neg (by omega), hsize]
    rw [label?_addLine hq', label?_addLine h]
    split
    · rw [Option.map_some, hlast]
    · exact hi.labels x hx

theorem inserted_addLines (hi : Inserted k name p p') (h : p.addLines (numbered n ls) = .ok q)
    (n' : Nat) : ∃ q', p'.addLines (numbered n' ls) = .ok q' ∧ Inserted k name q q' := by
  induction ls generalizing p p' n n' with
  | nil =>
    cases h
    exact ⟨p', rfl, hi⟩
  | cons s ls ih =>
    rw [numbered_cons] at h ⊢
    by_cases hs : hasContent (Utf8.trim s) = true
    · rw [if_pos hs] at h ⊢
      obtain ⟨r, hr, hq⟩ := addLines_cons_ok h
      obtain ⟨r', hr', hi'⟩ := inserted_addLine hi hr n'
      obtain ⟨q', hq', hi''⟩ := ih hi' hq (n' + 1)
      refine ⟨q', ?_, hi''⟩
      rw [addLines_cons, hr']
      exact hq'
    · rw [if_neg hs] at h ⊢
      exact ih hi h (n' + 1)

/-- Loading a source with a label line put in. -/
theorem inserted_load {title source source' : Bytes} {ks ls : List Bytes}
    (hsource : Bytes.splitOn Bytes.newline source = ks ++ ls)
    (hsource' : Bytes.splitOn Bytes.newline source' = ks ++ (name ++ [58]) :: ls)
    (hword : Line.words (name ++ [58]) = [name ++ [58]])
    (htrim : Utf8.trim (name ++ [58]) = name ++ [58])
    (hcomment : (text "//").isPrefixOf (name ++ [58]) = false)
    (h : load title source = .ok p) :
    ∃ p', load title source' = .ok p' ∧
      Inserted (ks.countP fun s => hasContent (Utf8.trim s)) name p p' := by
  have hcontent : hasContent (Utf8.trim (name ++ [58])) = true := by
    rw [htrim, hasContent, hcomment]
    simp
  have hline : Bytes.newline ∉ name ++ [58] :=
    Bytes.not_mem_of_mem_splitOn (s := source') (by simp [hsource'])
  change addLines ⟨title, #[], ∅⟩ (numbered 1 _) = _ at h
  change ∃ p', addLines ⟨title, #[], ∅⟩ (numbered 1 _) = .ok p' ∧ _
  rw [hsource, numbered_append, addLines_append] at h
  rw [hsource', numbered_append, addLines_append]
  cases hq : addLines ⟨title, #[], ∅⟩ (numbered 1 ks) with
  | error e =>
    rw [hq] at h
    cases h
  | ok q =>
    rw [hq] at h
    have hclosed : q.Closed := closed_addLines (closed_empty title) hq
    have hsize : q.size = ks.countP fun s => hasContent (Utf8.trim s) := by
      rw [size_addLines hq, length_numbered]
      exact Nat.zero_add _
    obtain ⟨r, hr, hi⟩ := inserted_label (n := 1 + ks.length) hclosed hline hword
    obtain ⟨p', hp', hi'⟩ := inserted_addLines hi h (1 + ks.length + 1)
    rw [hsize] at hi'
    refine ⟨p', ?_, hi'⟩
    change q.addLines (numbered _ (_ :: _)) = _
    rw [numbered_cons, if_pos hcontent, addLines_cons, htrim, hr]
    exact hp'

end Program
end LineMachine
