import LineMachine.Program.Template
import LineMachine.Proofs.Spacing

/-! Lexers given by rules. At each place of a text the rules are tried in order, and a place where none
of them matches is an error. Words and templates are what such lexers make of lines without a newline
and of all texts. -/
namespace LineMachine

namespace Lexing

/-- What a rule asks for at the start of a text. -/
inductive Pattern where
  | byte (b : UInt8)
  /-- One byte of a class or more, as many as there are. -/
  | many (p : UInt8 → Bool)
  | seq (x y : Pattern)
  /-- The second alternative is for where the first one does not match. -/
  | alt (x y : Pattern)

/-- What a pattern matches at the start of a text, and what is after it. -/
def Pattern.take? : Pattern → Bytes → Option (Bytes × Bytes)
  | byte b, s => if s.head? = some b then some ([b], s.tail) else none
  | many p, s => if s.takeWhile p = [] then none else some (s.takeWhile p, s.dropWhile p)
  | seq x y, s =>
    match x.take? s with
    | none => none
    | some (t, rest) => (y.take? rest).map fun u => (t ++ u.1, u.2)
  | alt x y, s => (x.take? s).or (y.take? s)

theorem Pattern.eq_append_of_take? {x : Pattern} {s t rest : Bytes}
    (h : x.take? s = some (t, rest)) : s = t ++ rest ∧ t ≠ [] := by
  induction x generalizing s t rest with
  | byte b =>
    rw [take?, Option.ite_none_right_eq_some] at h
    obtain ⟨hhead, h⟩ := h
    cases h
    obtain ⟨rest, rfl⟩ := List.head?_eq_some_iff.mp hhead
    exact ⟨rfl, List.cons_ne_nil _ _⟩
  | many p =>
    rw [take?, Option.ite_none_left_eq_some] at h
    obtain ⟨hne, h⟩ := h
    cases h
    exact ⟨List.takeWhile_append_dropWhile.symm, hne⟩
  | seq x y hx hy =>
    rw [take?] at h
    split at h
    · cases h
    · rename_i u after htake
      obtain ⟨v, hv, heq⟩ := Option.map_eq_some_iff.mp h
      cases heq
      obtain ⟨hs, hne⟩ := hx htake
      obtain ⟨hafter, -⟩ := hy hv
      refine ⟨?_, fun hnil => hne (List.append_eq_nil_iff.mp hnil).1⟩
      rw [hs, hafter, List.append_assoc]
  | alt x y hx hy =>
    rw [take?, Option.or_eq_some_iff] at h
    rcases h with h | ⟨-, h⟩
    · exact hx h
    · exact hy h

variable {κ : Type}

abbrev Rules (κ : Type) := List (κ × Pattern)

/-- The first token of a text, by the first rule that matches, and what is after it. -/
def token? (rules : Rules κ) (s : Bytes) : Option ((κ × Bytes) × Bytes) :=
  rules.findSome? fun r => (r.2.take? s).map fun u => ((r.1, u.1), u.2)

theorem eq_append_of_token? {rules : Rules κ} {s rest : Bytes} {t : κ × Bytes}
    (h : token? rules s = some (t, rest)) : s = t.2 ++ rest ∧ t.2 ≠ [] := by
  obtain ⟨r, -, hr⟩ := List.exists_of_findSome?_eq_some h
  obtain ⟨u, hu, heq⟩ := Option.map_eq_some_iff.mp hr
  cases heq
  exact r.2.eq_append_of_take? hu

theorem length_lt_of_token? {rules : Rules κ} {s rest : Bytes} {t : κ × Bytes}
    (h : token? rules s = some (t, rest)) : rest.length < s.length := by
  obtain ⟨rfl, hne⟩ := eq_append_of_token? h
  have hpos := List.length_pos_iff.mpr hne
  rw [List.length_append]
  omega

/-- The tokens of a text, or what is left where no rule matches. -/
def lex (rules : Rules κ) (s : Bytes) : Except Bytes (List (κ × Bytes)) :=
  if s = [] then .ok []
  else
    match _h : token? rules s with
    | none => .error s
    | some (t, rest) => (lex rules rest).map (t :: ·)
termination_by s.length
decreasing_by exact length_lt_of_token? _h

theorem lex_nil (rules : Rules κ) : lex rules [] = .ok [] := by
  rw [lex]
  rfl

theorem lex_of_token? {rules : Rules κ} {s rest : Bytes} {t : κ × Bytes} {ts : List (κ × Bytes)}
    (h : token? rules s = some (t, rest)) (hrest : lex rules rest = .ok ts) :
    lex rules s = .ok (t :: ts) := by
  have hs : s ≠ [] := by
    obtain ⟨rfl, hne⟩ := eq_append_of_token? h
    exact fun hnil => hne (List.append_eq_nil_iff.mp hnil).1
  rw [lex, if_neg hs]
  split
  · rename_i hnone
    rw [h] at hnone
    cases hnone
  · rename_i hsome
    rw [h] at hsome
    cases hsome
    rw [hrest]
    rfl

end Lexing

open Lexing

namespace Line

inductive TokenKind where
  | blank
  | word
  deriving DecidableEq

/-- Blanks are tried first, so a vertical tab cannot start a word. -/
def rules : Rules TokenKind := [(.blank, .many isBlank), (.word, .many continuesWord)]

/-- The words among the tokens of a line. -/
def lexWords (s : Bytes) : Except Bytes (List Bytes) :=
  (lex rules s).map fun ts => (ts.filter fun t => t.1 = .word).map (·.2)

variable {s : Bytes} {b : UInt8}

theorem token?_blank (h : isBlank b = true) (rest : Bytes) : token? rules (b :: rest) =
    some ((.blank, (b :: rest).takeWhile isBlank), (b :: rest).dropWhile isBlank) := by
  simp [token?, rules, Pattern.take?, h]

theorem token?_word (hb : isBlank b = false) (hw : continuesWord b = true) (rest : Bytes) :
    token? rules (b :: rest) =
      some ((.word, b :: rest.takeWhile continuesWord), rest.dropWhile continuesWord) := by
  simp [token?, rules, Pattern.take?, hb, hw]

/-- What the rules do not match is a newline, so other lines are cut into blanks and their words. -/
theorem lexWords_eq (h : Bytes.newline ∉ s) : lexWords s = .ok (words s) := by
  suffices hlex : ∃ ts, lex rules s = .ok ts ∧
      (ts.filter fun t => t.1 = .word).map (·.2) = words s by
    obtain ⟨ts, hts, hwords⟩ := hlex
    rw [lexWords, hts, ← hwords]
    rfl
  induction hn : s.length using Nat.strongRecOn generalizing s with
  | ind n ih =>
    subst hn
    cases s with
    | nil => exact ⟨[], lex_nil rules, words_nil.symm⟩
    | cons b rest =>
      cases hb : isBlank b with
      | true =>
        have htoken := token?_blank hb rest
        have hline : Bytes.newline ∉ (b :: rest).dropWhile isBlank :=
          fun hmem => h ((List.dropWhile_suffix _).mem hmem)
        obtain ⟨ts, hts, hwords⟩ := ih _ (length_lt_of_token? htoken) hline rfl
        refine ⟨_, lex_of_token? htoken hts, ?_⟩
        have hskip := words_blanks_append (g := (b :: rest).takeWhile isBlank)
          (fun c hc => List.mem_takeWhile_imp hc) ((b :: rest).dropWhile isBlank)
        rw [List.takeWhile_append_dropWhile] at hskip
        rw [hskip, ← hwords]
        rfl
      | false =>
        have hne : b ≠ Bytes.newline := fun hb => h (hb ▸ List.mem_cons_self)
        have htoken := token?_word hb (continuesWord_of_not_blank hb hne) rest
        have hline : Bytes.newline ∉ rest.dropWhile continuesWord :=
          fun hmem => h (List.mem_cons_of_mem b ((List.dropWhile_suffix _).mem hmem))
        obtain ⟨ts, hts, hwords⟩ := ih _ (length_lt_of_token? htoken) hline rfl
        refine ⟨_, lex_of_token? htoken hts, ?_⟩
        have hdrop : (b :: rest).dropWhile isBlank = b :: rest := by simp [hb]
        rw [words_eq_cons hdrop, ← hwords]
        rfl

end Line

namespace Template

inductive TokenKind where
  | ref
  | literal
  deriving DecidableEq

/-- A dollar sign is literal text only where no reference starts. -/
def rules : Rules TokenKind :=
  [(.ref, .seq (.byte Operand.dollar) (.many isNameByte)),
    (.literal, .alt (.many (· ≠ Operand.dollar)) (.byte Operand.dollar))]

/-- Segments for tokens; literal text that is not interrupted by a reference is one segment. -/
def ofTokens : List (TokenKind × Bytes) → Template
  | [] => []
  | (.ref, s) :: ts => .ref s.tail :: ofTokens ts
  | (.literal, s) :: ts => prepend s (ofTokens ts)

def lexed (s : Bytes) : Except Bytes Template := (lex rules s).map ofTokens

variable {s t : Bytes} {b : UInt8}

theorem prepend_append (s t : Bytes) (u : Template) :
    prepend (s ++ t) u = prepend s (prepend t u) := by
  cases s with
  | nil => rfl
  | cons b s =>
    cases t with
    | nil => rw [List.append_nil]; rfl
    | cons c t =>
      cases u with
      | nil => rfl
      | cons x u =>
        cases x with
        | literal v => simp [prepend]
        | ref name => rfl

theorem scan_other (hb : isNameByte b = false) (name : Bytes) (t : Template) : scan b (name, t) =
    ([], if b = Operand.dollar ∧ name ≠ [] then .ref name :: t else prepend (b :: name) t) := by
  rw [scan, if_neg (by simp [hb])]
  split <;> rfl

/-- Reading from the right keeps the name bytes at the start apart from the template after them. -/
theorem foldr_scan (s : Bytes) : s.foldr scan ([], []) =
    (s.takeWhile isNameByte, split (s.dropWhile isNameByte)) := by
  induction s with
  | nil => rfl
  | cons b s ih =>
    cases hb : isNameByte b with
    | true =>
      rw [List.foldr_cons, ih, scan, if_pos hb, List.takeWhile_cons_of_pos hb,
        List.dropWhile_cons_of_pos hb]
    | false =>
      have hneg : ¬isNameByte b = true := by simp [hb]
      rw [List.takeWhile_cons_of_neg hneg, List.dropWhile_cons_of_neg hneg, split, List.foldr_cons,
        ih, scan_other hb]
      rfl

theorem split_eq (s : Bytes) : split s =
    prepend (s.takeWhile isNameByte) (split (s.dropWhile isNameByte)) := by
  rw [split, foldr_scan]

theorem split_other (hb : isNameByte b = false) (s : Bytes) : split (b :: s) =
    if b = Operand.dollar ∧ s.takeWhile isNameByte ≠ [] then
      .ref (s.takeWhile isNameByte) :: split (s.dropWhile isNameByte)
    else prepend (b :: s.takeWhile isNameByte) (split (s.dropWhile isNameByte)) := by
  rw [split, List.foldr_cons, foldr_scan, scan_other hb]
  rfl

/-- A reference takes all name bytes after the dollar sign. -/
theorem split_ref (hs : s.takeWhile isNameByte ≠ []) : split (Operand.dollar :: s) =
    .ref (s.takeWhile isNameByte) :: split (s.dropWhile isNameByte) := by
  rw [split_other rfl, if_pos ⟨rfl, hs⟩]

theorem split_lone_dollar (hs : s.takeWhile isNameByte = []) :
    split (Operand.dollar :: s) = prepend [Operand.dollar] (split s) := by
  rw [split_other rfl, if_neg fun h => h.2 hs, hs, split_eq s, hs]
  rfl

theorem split_cons (hb : b ≠ Operand.dollar) (s : Bytes) : split (b :: s) = prepend [b] (split s) := by
  have hparts : split (b :: s) =
      prepend ([b] ++ s.takeWhile isNameByte) (split (s.dropWhile isNameByte)) := by
    cases hname : isNameByte b with
    | true =>
      rw [split_eq, List.takeWhile_cons_of_pos hname, List.dropWhile_cons_of_pos hname]
      rfl
    | false =>
      rw [split_other hname, if_neg fun h => hb h.1]
      rfl
  rw [hparts, prepend_append, ← split_eq]

theorem split_append (ht : ∀ b ∈ t, b ≠ Operand.dollar) (s : Bytes) :
    split (t ++ s) = prepend t (split s) := by
  induction t with
  | nil => rfl
  | cons b t ih =>
    obtain ⟨hb, ht⟩ := List.forall_mem_cons.mp ht
    rw [List.cons_append, split_cons hb, ih ht, ← prepend_append]
    rfl

theorem token?_ref (h : s.takeWhile isNameByte ≠ []) : token? rules (Operand.dollar :: s) =
    some ((.ref, Operand.dollar :: s.takeWhile isNameByte), s.dropWhile isNameByte) := by
  simp [token?, rules, Pattern.take?, h]

theorem token?_lone_dollar (h : s.takeWhile isNameByte = []) :
    token? rules (Operand.dollar :: s) = some ((.literal, [Operand.dollar]), s) := by
  simp [token?, rules, Pattern.take?, h]

theorem token?_literal (h : b ≠ Operand.dollar) : token? rules (b :: s) =
    some ((.literal, (b :: s).takeWhile (· ≠ Operand.dollar)),
      (b :: s).dropWhile (· ≠ Operand.dollar)) := by
  simp [token?, rules, Pattern.take?, h]

/-- Every text is cut into references and literal text, and splitting it gives their segments. -/
theorem lexed_eq (s : Bytes) : lexed s = .ok (split s) := by
  suffices hlex : ∃ ts, lex rules s = .ok ts ∧ ofTokens ts = split s by
    obtain ⟨ts, hts, hsplit⟩ := hlex
    rw [lexed, hts, ← hsplit]
    rfl
  induction hn : s.length using Nat.strongRecOn generalizing s with
  | ind n ih =>
    subst hn
    cases s with
    | nil => exact ⟨[], lex_nil rules, rfl⟩
    | cons b s =>
      by_cases hb : b = Operand.dollar
      · subst hb
        by_cases hname : s.takeWhile isNameByte = []
        · have htoken := token?_lone_dollar hname
          obtain ⟨ts, hts, hsplit⟩ := ih _ (length_lt_of_token? htoken) s rfl
          refine ⟨_, lex_of_token? htoken hts, ?_⟩
          rw [split_lone_dollar hname, ← hsplit]
          rfl
        · have htoken := token?_ref hname
          obtain ⟨ts, hts, hsplit⟩ := ih _ (length_lt_of_token? htoken) _ rfl
          refine ⟨_, lex_of_token? htoken hts, ?_⟩
          rw [split_ref hname, ← hsplit]
          rfl
      · have htoken := token?_literal (s := s) hb
        obtain ⟨ts, hts, hsplit⟩ := ih _ (length_lt_of_token? htoken) _ rfl
        refine ⟨_, lex_of_token? htoken hts, ?_⟩
        have hliteral : ∀ c ∈ (b :: s).takeWhile (· ≠ Operand.dollar), c ≠ Operand.dollar := by
          intro c hc
          simpa using List.mem_takeWhile_imp hc
        have happend := split_append hliteral ((b :: s).dropWhile (· ≠ Operand.dollar))
        rw [List.takeWhile_append_dropWhile] at happend
        rw [happend, ← hsplit]
        rfl

end Template
end LineMachine
