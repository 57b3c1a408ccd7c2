import LineMachine.Proofs.Insertion
import LineMachine.Proofs.Trimming

/-! Lines as words with gaps between them. What is read of a trimmed line depends on its words, and
not on the gaps. -/
namespace LineMachine

theorem Bytes.dropFinal?_eq_some_iff {b : UInt8} {s x : Bytes} :
    Bytes.dropFinal? b s = some x ↔ s = x ++ [b] := by
  unfold Bytes.dropFinal?
  constructor
  · intro h
    split at h
    · rename_i hlast
      cases h
      exact (List.dropLast_append_getLast? b hlast).symm
    · cases h
  · rintro rfl
    simp

theorem Bytes.join_cons_cons (sep w v : Bytes) (ws : List Bytes) :
    Bytes.join sep (w :: v :: ws) = w ++ (sep ++ Bytes.join sep (v :: ws)) := by
  simp [Bytes.join]

namespace Line

open Utf8 (decode Trimmed)

structure IsWord (w : Bytes) : Prop where
  starts : ∃ b rest, w = b :: rest ∧ isBlank b = false
  continues : ∀ b ∈ w, continuesWord b = true

/-- Blanks after a word, the first of which ends it. -/
structure IsGap (g : Bytes) : Prop where
  ends : ∃ b rest, g = b :: rest ∧ continuesWord b = false
  blank : ∀ b ∈ g, isBlank b = true

/-- A line consists of some words with gaps between them. -/
inductive Spaced : List Bytes → Bytes → Prop
  | word {w : Bytes} : IsWord w → Spaced [w] w
  | cons {w g s : Bytes} {ws : List Bytes} :
    IsWord w → IsGap g → Spaced ws s → Spaced (w :: ws) (w ++ (g ++ s))

variable {s t w g x : Bytes} {ws : List Bytes} {b : UInt8}

theorem isBlank_iff : isBlank b = true ↔ b = 32 ∨ b = 9 ∨ b = 13 ∨ b = 12 ∨ b = 11 := by
  simp [isBlank, or_assoc]

theorem continuesWord_eq_false_iff :
    continuesWord b = false ↔ b = 32 ∨ b = 9 ∨ b = 10 ∨ b = 12 ∨ b = 13 := by
  rw [continuesWord, Bool.not_eq_false']
  simp [or_assoc]

/-- What ends a word is a blank, or the end of the line. -/
theorem isBlank_of_ends (h : continuesWord b = false) (hline : b ≠ Bytes.newline) :
    isBlank b = true := by
  rcases continuesWord_eq_false_iff.mp h with rfl | rfl | rfl | rfl | rfl
  · rfl
  · rfl
  · exact absurd rfl hline
  · rfl
  · rfl

theorem continuesWord_of_not_blank (h : isBlank b = false) (hline : b ≠ Bytes.newline) :
    continuesWord b = true := by
  cases hb : continuesWord b with
  | true => rfl
  | false =>
    rw [isBlank_of_ends hb hline] at h
    cases h

theorem IsWord.ne_nil (h : IsWord w) : w ≠ [] := by
  obtain ⟨b, rest, rfl, -⟩ := h.starts
  exact List.cons_ne_nil b rest

theorem isGap_space : IsGap [Bytes.space] :=
  ⟨⟨Bytes.space, [], rfl, rfl⟩, fun _ h => by cases List.mem_singleton.mp h; rfl⟩

theorem Spaced.ne_nil (h : Spaced ws s) : s ≠ [] := by
  cases h with
  | word hw => exact hw.ne_nil
  | cons hw hg hs =>
    intro hnil
    exact hw.ne_nil (List.append_eq_nil_iff.mp hnil).1

theorem Spaced.words_ne_nil (h : Spaced ws s) : ws ≠ [] := by
  cases h <;> exact List.cons_ne_nil _ _

theorem Spaced.isWord (h : Spaced ws s) : ∀ w ∈ ws, IsWord w := by
  induction h with
  | word hw => exact List.forall_mem_singleton.mpr hw
  | cons hw hg hs ih => exact List.forall_mem_cons.mpr ⟨hw, ih⟩

theorem Spaced.starts (h : Spaced ws s) : ∃ b rest, s = b :: rest ∧ isBlank b = false := by
  cases h with
  | word hw => exact hw.starts
  | cons hw hg hs =>
    obtain ⟨b, rest, rfl, hb⟩ := hw.starts
    exact ⟨b, _, rfl, hb⟩

theorem Spaced.newline_not_mem (h : Spaced ws s) : Bytes.newline ∉ s := by
  have hword : ∀ w, IsWord w → Bytes.newline ∉ w := by
    intro w hw hmem
    cases hw.continues _ hmem
  induction h with
  | word hw => exact hword _ hw
  | cons hw hg hs ih =>
    intro hmem
    rcases List.mem_append.mp hmem with hmem | hmem
    · exact hword _ hw hmem
    · rcases List.mem_append.mp hmem with hmem | hmem
      · cases hg.blank _ hmem
      · exact ih hmem

/-! The words of a line, and the line as its words. -/

theorem words_eq_nil (h : s.dropWhile isBlank = []) : words s = [] := by
  rw [words]
  split
  · rfl
  · rename_i hcons
    rw [h] at hcons
    cases hcons

theorem words_eq_cons {rest : Bytes} (h : s.dropWhile isBlank = b :: rest) :
    words s = (b :: rest.takeWhile continuesWord) :: words (rest.dropWhile continuesWord) := by
  rw [words]
  split
  · rename_i hnil
    rw [h] at hnil
    cases hnil
  · rename_i hcons
    rw [h] at hcons
    cases hcons
    rfl

theorem words_nil : words [] = [] := words_eq_nil rfl

theorem words_blanks_append (h : ∀ b ∈ g, isBlank b = true) (s : Bytes) :
    words (g ++ s) = words s := by
  have hdrop : (g ++ s).dropWhile isBlank = s.dropWhile isBlank :=
    List.dropWhile_append_of_pos h
  cases hs : s.dropWhile isBlank with
  | nil => rw [words_eq_nil (hdrop.trans hs), words_eq_nil hs]
  | cons b rest => rw [words_eq_cons (hdrop.trans hs), words_eq_cons hs]

theorem words_word_append (hw : IsWord w) (ht : ∀ b ∈ t.head?, continuesWord b = false) :
    words (w ++ t) = w :: words t := by
  obtain ⟨b, rest, rfl, hb⟩ := hw.starts
  have hrest : ∀ c ∈ rest, continuesWord c = true :=
    fun c hc => hw.continues c (List.mem_cons_of_mem b hc)
  have htake : t.takeWhile continuesWord = [] ∧ t.dropWhile continuesWord = t := by
    cases t with
    | nil => exact ⟨rfl, rfl⟩
    | cons c t =>
      have hc := ht c rfl
      exact ⟨by simp [hc], by simp [hc]⟩
  have hdrop : (b :: rest ++ t).dropWhile isBlank = b :: (rest ++ t) := by simp [hb]
  rw [words_eq_cons hdrop, List.takeWhile_append_of_pos hrest, List.dropWhile_append_of_pos hrest,
    htake.1, htake.2, List.append_nil]

theorem Spaced.words_eq (h : Spaced ws s) : words s = ws := by
  induction h with
  | @word w hw =>
    have hword := words_word_append (t := []) hw (by simp)
    rwa [List.append_nil, words_nil] at hword
  | @cons w g s ws hw hg hs ih =>
    obtain ⟨b, rest, hcons, hb⟩ := hg.ends
    have hgap : ∀ c ∈ (g ++ s).head?, continuesWord c = false := by
      rintro c hc
      rw [hcons] at hc
      cases hc
      exact hb
    rw [words_word_append hw hgap, words_blanks_append hg.blank, ih]

theorem getLast?_of_suffix (h : t <:+ s) (ht : t ≠ []) : s.getLast? = t.getLast? := by
  obtain ⟨before, rfl⟩ := h
  exact List.getLast?_append_of_ne_nil before ht

theorem words_dropWhile (s : Bytes) : words (s.dropWhile isBlank) = words s := by
  have hskip := words_blanks_append (g := s.takeWhile isBlank) (fun b => List.mem_takeWhile_imp)
    (s.dropWhile isBlank)
  rw [← hskip, List.takeWhile_append_dropWhile]

/-- After the blanks at the start there is a word, and what is behind it does not continue it. -/
theorem exists_word (hline : Bytes.newline ∉ s) (hs : ∃ b ∈ s, isBlank b = false) :
    ∃ w t, IsWord w ∧ (∀ b ∈ t.head?, continuesWord b = false) ∧ Bytes.newline ∉ t ∧
      s.dropWhile isBlank = w ++ t := by
  cases hd : s.dropWhile isBlank with
  | nil =>
    obtain ⟨b, hb, hblank⟩ := hs
    rw [List.dropWhile_eq_nil_iff.mp hd b hb] at hblank
    cases hblank
  | cons b rest =>
    have hb := List.head?_dropWhile_not isBlank s
    have hrest := List.head?_dropWhile_not continuesWord rest
    have hsuffix : b :: rest <:+ s := hd ▸ List.dropWhile_suffix isBlank
    have hne : b ≠ Bytes.newline := fun h => hline (h ▸ hsuffix.mem List.mem_cons_self)
    rw [hd] at hb
    refine ⟨b :: rest.takeWhile continuesWord, rest.dropWhile continuesWord, ?_, ?_, ?_, ?_⟩
    · refine ⟨⟨b, _, rfl, hb⟩, List.forall_mem_cons.mpr ⟨?_, fun c => List.mem_takeWhile_imp⟩⟩
      exact continuesWord_of_not_blank hb hne
    · intro c hc
      rw [Option.mem_def.mp hc] at hrest
      exact hrest
    · intro hmem
      have hmem' := (List.dropWhile_suffix continuesWord).mem hmem
      exact hline (hsuffix.mem (List.mem_cons_of_mem b hmem'))
    · rw [List.cons_append, List.takeWhile_append_dropWhile]

/-- What ends a word is the start of a gap. -/
theorem isGap_takeWhile (hb : continuesWord b = false) (hline : b ≠ Bytes.newline) (s : Bytes) :
    IsGap ((b :: s).takeWhile isBlank) := by
  refine ⟨⟨b, s.takeWhile isBlank, ?_, hb⟩, fun c => List.mem_takeWhile_imp⟩
  exact List.takeWhile_cons_of_pos (isBlank_of_ends hb hline)

theorem length_lt_of_word (hw : IsWord w) (h : s.dropWhile isBlank = w ++ t) :
    t.length < s.length := by
  have hle := length_dropWhile_le (p := isBlank) (s := s)
  have hpos := List.length_pos_iff.mpr hw.ne_nil
  rw [h, List.length_append] at hle
  omega

/-- A line that does not end in a blank consists of its words, after the blanks before them. -/
theorem spaced_dropWhile (hs : s ≠ []) (hline : Bytes.newline ∉ s)
    (hlast : ∀ b ∈ s.getLast?, isBlank b = false) : Spaced (words s) (s.dropWhile isBlank) := by
  induction hn : s.length using Nat.strongRecOn generalizing s with
  | ind n ih =>
    subst hn
    have hend := hlast _ (List.getLast?_eq_some_getLast hs)
    obtain ⟨w, t, hw, ht, hline', heq⟩ := exists_word hline ⟨_, List.getLast_mem hs, hend⟩
    rw [← words_dropWhile, heq, words_word_append hw ht]
    cases t with
    | nil =>
      rw [words_nil, List.append_nil]
      exact .word hw
    | cons e after =>
      have hgap := isGap_takeWhile (ht e rfl) (fun h => hline' (h ▸ List.mem_cons_self)) after
      have hsuffix : e :: after <:+ s :=
        (heq ▸ List.suffix_append w (e :: after)).trans (List.dropWhile_suffix isBlank)
      have hsame := getLast?_of_suffix hsuffix (List.cons_ne_nil e after)
      have hspaced := ih _ (length_lt_of_word hw heq) (List.cons_ne_nil e after) hline'
        (hsame ▸ hlast) rfl
      have hcons := Spaced.cons hw hgap hspaced
      rwa [List.takeWhile_append_dropWhile] at hcons

/-! What is read of a line besides its words. -/

theorem toNat_of_isBlank (h : isBlank b = true) : b.toNat < 128 := by
  rcases isBlank_iff.mp h with rfl | rfl | rfl | rfl | rfl <;> decide

theorem isBlank_char (h : isBlank b = true) :
    (Utf8.Piece.char (Char.ofUInt8 b)).isBlank = true := by
  rcases isBlank_iff.mp h with rfl | rfl | rfl | rfl | rfl <;> decide

theorem decode_blank (h : isBlank b = true) (s : Bytes) :
    decode (b :: s) = .char (Char.ofUInt8 b) :: decode s := by
  have hchar := Utf8.decode_char (Char.ofUInt8 b) s
  rw [Utf8.utf8EncodeChar_ofUInt8 (toNat_of_isBlank h)] at hchar
  exact hchar

theorem decode_blanks (h : ∀ b ∈ g, isBlank b = true) (s : Bytes) :
    decode (g ++ s) = decode g ++ decode s := by
  induction g with
  | nil => rfl
  | cons b g ih =>
    obtain ⟨hb, hg⟩ := List.forall_mem_cons.mp h
    rw [List.cons_append, decode_blank hb, decode_blank hb, ih hg, List.cons_append]

theorem decode_append_blank (h : isBlank b = true) (s t : Bytes) :
    decode (s ++ b :: t) = decode s ++ decode (b :: t) := by
  have hsmall := toNat_of_isBlank h
  apply Utf8.decode_append
  unfold Utf8.continuesChar
  omega

theorem decode_gap (hg : IsGap g) (w s : Bytes) :
    decode (w ++ (g ++ s)) = decode w ++ (decode g ++ decode s) := by
  obtain ⟨b, rest, hcons, -⟩ := hg.ends
  have hb : isBlank b = true := hg.blank b (hcons ▸ List.mem_cons_self)
  rw [← decode_blanks hg.blank, hcons]
  exact decode_append_blank hb w (rest ++ s)

/-- Lines of the same words start with the same character and end with the same character. -/
theorem Spaced.decode_ends (hs : Spaced ws s) (ht : Spaced ws t) :
    (decode s).head? = (decode t).head? ∧ (decode s).getLast? = (decode t).getLast? := by
  have hne : ∀ {ws s}, Spaced ws s → decode s ≠ [] := fun h => mt Utf8.decode_eq_nil_iff.mp h.ne_nil
  induction hs generalizing t with
  | word hw =>
    cases ht with
    | word hw' => exact ⟨rfl, rfl⟩
    | cons hw' hg hs => exact absurd rfl hs.words_ne_nil
  | cons hw hg hs ih =>
    cases ht with
    | word hw' => exact absurd rfl hs.words_ne_nil
    | cons hw' hg' hs' =>
      have hfirst := mt Utf8.decode_eq_nil_iff.mp hw.ne_nil
      rw [decode_gap hg, decode_gap hg', List.head?_append_of_ne_nil _ hfirst,
        List.head?_append_of_ne_nil _ hfirst, ← List.append_assoc, ← List.append_assoc,
        List.getLast?_append_of_ne_nil _ (hne hs), List.getLast?_append_of_ne_nil _ (hne hs')]
      exact ⟨rfl, (ih hs').2⟩

theorem Spaced.trimmed (hs : Spaced ws s) (ht : Spaced ws t) (h : Trimmed s) : Trimmed t := by
  obtain ⟨hfirst, hlast⟩ := hs.decode_ends ht
  exact ⟨hfirst ▸ h.first, hlast ▸ h.last⟩

/-- A trimmed line is its words with gaps between them. -/
theorem spaced_of_trimmed (h : Trimmed s) (hs : s ≠ []) (hline : Bytes.newline ∉ s) :
    Spaced (words s) s := by
  have hlast : ∀ b ∈ s.getLast?, isBlank b = false := by
    intro b hb
    obtain ⟨before, rfl⟩ := List.getLast?_eq_some_iff.mp hb
    apply Bool.of_not_eq_true
    intro hblank
    have hend := h.last (.char (Char.ofUInt8 b)) (by
      rw [decode_append_blank hblank, decode_blank hblank]
      exact List.getLast?_concat)
    rw [isBlank_char hblank] at hend
    cases hend
  have hspaced := spaced_dropWhile hs hline hlast
  obtain ⟨b, rest, rfl⟩ := List.exists_cons_of_ne_nil hs
  have hb : ¬isBlank b = true := by
    intro hblank
    have hstart := h.first (.char (Char.ofUInt8 b)) (by rw [decode_blank hblank]; rfl)
    rw [isBlank_char hblank] at hstart
    cases hstart
  rwa [List.dropWhile_cons_of_neg hb] at hspaced

theorem Spaced.join (h : Spaced ws s) : Spaced ws (Bytes.join [Bytes.space] ws) := by
  induction h with
  | @word w hw =>
    rw [Bytes.join, List.flatMap_nil, List.append_nil]
    exact .word hw
  | @cons w g s ws hw hg hs ih =>
    obtain ⟨v, vs, rfl⟩ := List.exists_cons_of_ne_nil hs.words_ne_nil
    rw [Bytes.join_cons_cons]
    exact .cons hw isGap_space ih

theorem Spaced.parse_eq (h : Spaced (w :: ws) s) : parse s = .ok ⟨w, ws, 0⟩ := by
  obtain ⟨b, rest, hcons, hb⟩ := h.starts
  have hstart : s.takeWhile isBlank = [] := by
    rw [hcons]
    exact List.takeWhile_cons_of_neg (by rw [hb]; exact Bool.false_ne_true)
  rw [parse_eq_ok h.newline_not_mem h.words_eq, hstart]
  rfl

/-- Whether a line is a comment is up to its first word. -/
theorem Spaced.hasContent_eq (h : Spaced (w :: ws) s) :
    Program.hasContent s = Program.hasContent w := by
  cases h with
  | word hw => rfl
  | cons hw hg hs =>
    obtain ⟨a, w, rfl, -⟩ := hw.starts
    obtain ⟨b, g, rfl, hb⟩ := hg.ends
    have hslash : b ≠ 47 := by
      rintro rfl
      cases hb
    have htext : text "//" = [47, 47] := by decide
    unfold Program.hasContent
    rw [htext]
    cases w with
    | nil => simp [List.isPrefixOf, hslash.symm]
    | cons c w => simp [List.isPrefixOf]

/-- A line declares a name that can be an operand only if it is a word that ends in a colon. -/
theorem Spaced.dropFinal?_eq_some_iff (h : Spaced ws s) (hx : ∀ b ∈ x, continuesWord b = true) :
    Bytes.dropFinal? 58 s = some x ↔ ws = [x ++ [58]] := by
  rw [Bytes.dropFinal?_eq_some_iff]
  cases h with
  | word hw => simp
  | @cons w g s ws hw hg hs =>
    constructor
    · intro heq
      obtain ⟨b, rest, rfl, hb⟩ := hg.ends
      have hmem : b ∈ x ++ [58] := by
        rw [← heq]
        simp
      rcases List.mem_append.mp hmem with hmem | hmem
      · rw [hx b hmem] at hb
        cases hb
      · cases List.mem_singleton.mp hmem
        cases hb
    · intro heq
      exact absurd (List.cons.inj heq).2 hs.words_ne_nil

end Line
end LineMachine
