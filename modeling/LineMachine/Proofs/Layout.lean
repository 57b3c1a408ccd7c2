import LineMachine.Proofs.Spacing

/-! The grammar of lines. A line is accepted if it can be laid out as words with blanks around them; there
is one way to do so, and reading the line finds it. -/
namespace LineMachine.Line

/-- A line taken apart: blanks before the first word, the first word, every other word after the gap
before it, and blanks behind the last word. A vertical tab is a blank, but one directly behind a word
would belong to the word, so no gap starts with one. -/
@[ext]
structure Layout where
  lead : Bytes
  first : Bytes
  others : List (Bytes × Bytes)
  trail : Bytes
  lead_blank : ∀ b ∈ lead, isBlank b = true
  first_word : IsWord first
  others_spaced : ∀ x ∈ others, IsGap x.1 ∧ IsWord x.2
  trail_gap : trail = [] ∨ IsGap trail

variable {s t t' g g' w : Bytes} {b : UInt8} {others others' : List (Bytes × Bytes)} {trail trail' : Bytes}

/-- What is behind the first word. -/
def tailText (others : List (Bytes × Bytes)) (trail : Bytes) : Bytes :=
  others.flatMap (fun x => x.1 ++ x.2) ++ trail

theorem tailText_cons (x : Bytes × Bytes) (others : List (Bytes × Bytes)) (trail : Bytes) :
    tailText (x :: others) trail = x.1 ++ (x.2 ++ tailText others trail) := by
  simp [tailText]

namespace Layout

def text (d : Layout) : Bytes := d.lead ++ (d.first ++ tailText d.others d.trail)

def words (d : Layout) : List Bytes := d.first :: d.others.map Prod.snd

end Layout

theorem IsGap.head? (h : IsGap g) (s : Bytes) : ∀ b ∈ (g ++ s).head?, continuesWord b = false := by
  obtain ⟨c, rest, rfl, hc⟩ := h.ends
  rintro b hb
  cases hb
  exact hc

theorem IsWord.head? (h : IsWord w) (s : Bytes) : ∀ b ∈ (w ++ s).head?, isBlank b = false := by
  obtain ⟨c, rest, rfl, hc⟩ := h.starts
  rintro b hb
  cases hb
  exact hc

theorem takeWhile_append {p : UInt8 → Bool} (hg : ∀ b ∈ g, p b = true)
    (ht : ∀ b ∈ t.head?, p b = false) : (g ++ t).takeWhile p = g := by
  rw [List.takeWhile_append_of_pos hg]
  cases t with
  | nil => exact List.append_nil g
  | cons b t =>
    have hb := ht b rfl
    rw [List.takeWhile_cons_of_neg (by simp [hb]), List.append_nil]

/-- A text can be cut in only one way where a class of bytes ends. -/
theorem append_inj_of_class {p : UInt8 → Bool} (hg : ∀ b ∈ g, p b = true)
    (ht : ∀ b ∈ t.head?, p b = false) (hg' : ∀ b ∈ g', p b = true)
    (ht' : ∀ b ∈ t'.head?, p b = false) (h : g ++ t = g' ++ t') : g = g' ∧ t = t' := by
  have hcut : g = g' := by
    rw [← takeWhile_append hg ht, ← takeWhile_append hg' ht', h]
  subst hcut
  exact ⟨rfl, List.append_cancel_left h⟩

/-- What is behind a word does not continue it. -/
theorem tailText_head? (hothers : ∀ x ∈ others, IsGap x.1 ∧ IsWord x.2)
    (htrail : trail = [] ∨ IsGap trail) :
    ∀ b ∈ (tailText others trail).head?, continuesWord b = false := by
  cases others with
  | nil =>
    rcases htrail with rfl | hgap
    · intro b hb
      cases hb
    · have hhead := hgap.head? []
      rwa [List.append_nil] at hhead
  | cons x others =>
    rw [tailText_cons]
    exact (hothers x List.mem_cons_self).1.head? _

/-! Reading a line that is laid out. -/

theorem words_tailText (hothers : ∀ x ∈ others, IsGap x.1 ∧ IsWord x.2)
    (htrail : trail = [] ∨ IsGap trail) :
    words (tailText others trail) = others.map Prod.snd := by
  induction others with
  | nil =>
    rcases htrail with rfl | hgap
    · exact words_nil
    · exact words_eq_nil (List.dropWhile_eq_nil_iff.mpr hgap.blank)
  | cons x others ih =>
    obtain ⟨⟨hgap, hword⟩, hrest⟩ := List.forall_mem_cons.mp hothers
    rw [tailText_cons, words_blanks_append hgap.blank,
      words_word_append hword (tailText_head? hrest htrail), ih hrest, List.map_cons]

theorem newline_not_mem_of_blank (h : ∀ b ∈ g, isBlank b = true) : Bytes.newline ∉ g := by
  intro hmem
  cases h _ hmem

theorem IsWord.newline_not_mem (h : IsWord w) : Bytes.newline ∉ w := by
  intro hmem
  cases h.continues _ hmem

namespace Layout

theorem words_text (d : Layout) : Line.words d.text = d.words := by
  rw [text, words_blanks_append d.lead_blank,
    words_word_append d.first_word (tailText_head? d.others_spaced d.trail_gap),
    words_tailText d.others_spaced d.trail_gap, words]

theorem takeWhile_text (d : Layout) : d.text.takeWhile isBlank = d.lead :=
  takeWhile_append d.lead_blank (d.first_word.head? _)

theorem newline_not_mem (d : Layout) : Bytes.newline ∉ d.text := by
  have htrail : Bytes.newline ∉ d.trail := by
    rcases d.trail_gap with hnil | hgap
    · rw [hnil]
      exact List.not_mem_nil
    · exact newline_not_mem_of_blank hgap.blank
  have hothers : ∀ x ∈ d.others, Bytes.newline ∉ x.1 ++ x.2 := by
    intro x hx hmem
    obtain ⟨hgap, hword⟩ := d.others_spaced x hx
    rcases List.mem_append.mp hmem with hmem | hmem
    · exact newline_not_mem_of_blank hgap.blank hmem
    · exact hword.newline_not_mem hmem
  intro hmem
  simp only [text, tailText, List.mem_append, List.mem_flatMap] at hmem
  rcases hmem with hmem | hmem | ⟨x, hx, hmem⟩ | hmem
  · exact newline_not_mem_of_blank d.lead_blank hmem
  · exact d.first_word.newline_not_mem hmem
  · exact hothers x hx (List.mem_append.mpr hmem)
  · exact htrail hmem

/-- A line that is laid out is read as its words. -/
theorem parse_text (d : Layout) :
    parse d.text = .ok ⟨d.first, d.others.map Prod.snd, d.lead.length⟩ := by
  rw [parse_eq_ok d.newline_not_mem d.words_text, d.takeWhile_text]

end Layout

/-! There is one layout. -/

theorem tailText_ne_blank (h : IsWord w) (hblank : ∀ b ∈ t, isBlank b = true) (s : Bytes) :
    t ≠ g ++ (w ++ s) := by
  rintro rfl
  obtain ⟨b, rest, rfl, hb⟩ := h.starts
  rw [hblank b (by simp)] at hb
  cases hb

theorem tailText_inj (ho : ∀ x ∈ others, IsGap x.1 ∧ IsWord x.2) (ht : trail = [] ∨ IsGap trail)
    (ho' : ∀ x ∈ others', IsGap x.1 ∧ IsWord x.2) (ht' : trail' = [] ∨ IsGap trail')
    (h : tailText others trail = tailText others' trail') : others = others' ∧ trail = trail' := by
  have hblank : ∀ {trail : Bytes}, trail = [] ∨ IsGap trail → ∀ b ∈ trail, isBlank b = true := by
    rintro trail (rfl | hgap)
    · exact List.forall_mem_nil _
    · exact hgap.blank
  induction others generalizing others' with
  | nil =>
    cases others' with
    | nil => exact ⟨rfl, h⟩
    | cons x' others' =>
      rw [tailText_cons] at h
      exact absurd h (tailText_ne_blank (ho' x' List.mem_cons_self).2 (hblank ht) _)
  | cons x others ih =>
    obtain ⟨⟨hgap, hword⟩, hrest⟩ := List.forall_mem_cons.mp ho
    cases others' with
    | nil =>
      rw [tailText_cons] at h
      exact absurd h.symm (tailText_ne_blank hword (hblank ht') _)
    | cons x' others' =>
      obtain ⟨⟨hgap', hword'⟩, hrest'⟩ := List.forall_mem_cons.mp ho'
      rw [tailText_cons, tailText_cons] at h
      obtain ⟨hg, h⟩ := append_inj_of_class hgap.blank (hword.head? _) hgap'.blank (hword'.head? _) h
      obtain ⟨hw, h⟩ := append_inj_of_class hword.continues (tailText_head? hrest ht)
        hword'.continues (tailText_head? hrest' ht') h
      obtain ⟨rfl, htrail⟩ := ih hrest hrest' h
      exact ⟨by rw [Prod.ext hg hw], htrail⟩

theorem Layout.text_inj {d d' : Layout} (h : d.text = d'.text) : d = d' := by
  obtain ⟨hlead, h⟩ := append_inj_of_class d.lead_blank (d.first_word.head? _) d'.lead_blank
    (d'.first_word.head? _) h
  obtain ⟨hfirst, h⟩ := append_inj_of_class d.first_word.continues
    (tailText_head? d.others_spaced d.trail_gap) d'.first_word.continues
    (tailText_head? d'.others_spaced d'.trail_gap) h
  obtain ⟨hothers, htrail⟩ :=
    tailText_inj d.others_spaced d.trail_gap d'.others_spaced d'.trail_gap h
  exact Layout.ext hlead hfirst hothers htrail

/-! Every line with a word in it has a layout. -/

/-- What is behind a word is gaps and words. -/
theorem exists_tailText (hline : Bytes.newline ∉ s) (hs : ∀ b ∈ s.head?, continuesWord b = false) :
    ∃ others trail, (∀ x ∈ others, IsGap x.1 ∧ IsWord x.2) ∧ (trail = [] ∨ IsGap trail) ∧
      tailText others trail = s := by
  induction hn : s.length using Nat.strongRecOn generalizing s with
  | ind n ih =>
    subst hn
    cases s with
    | nil => exact ⟨[], [], List.forall_mem_nil _, Or.inl rfl, rfl⟩
    | cons e s =>
      have hgap := isGap_takeWhile (hs e rfl) (fun h => hline (h ▸ List.mem_cons_self)) s
      by_cases hword : ∃ b ∈ e :: s, isBlank b = false
      · obtain ⟨w, t, hw, ht, hline', heq⟩ := exists_word hline hword
        obtain ⟨others, trail, hothers, htrail, rfl⟩ :=
          ih t.length (length_lt_of_word hw heq) hline' ht rfl
        refine ⟨((e :: s).takeWhile isBlank, w) :: others, trail, ?_, htrail, ?_⟩
        · exact List.forall_mem_cons.mpr ⟨⟨hgap, hw⟩, hothers⟩
        · rw [tailText_cons, ← heq]
          exact List.takeWhile_append_dropWhile
      · have hblank : ∀ b ∈ e :: s, isBlank b = true := by
          simpa using hword
        rw [List.takeWhile_eq_self_iff.mpr hblank] at hgap
        exact ⟨[], e :: s, List.forall_mem_nil _, Or.inr hgap, rfl⟩

theorem exists_layout (hline : Bytes.newline ∉ s) (hs : ∃ b ∈ s, isBlank b = false) :
    ∃ d : Layout, d.text = s := by
  obtain ⟨w, t, hw, ht, hline', heq⟩ := exists_word hline hs
  obtain ⟨others, trail, hothers, htrail, rfl⟩ := exists_tailText hline' ht
  refine ⟨⟨s.takeWhile isBlank, w, others, trail, fun b => List.mem_takeWhile_imp, hw, hothers,
    htrail⟩, ?_⟩
  rw [Layout.text, ← heq]
  exact List.takeWhile_append_dropWhile

namespace Layout

/-- The same words with single spaces between them. -/
def single (d : Layout) : Layout where
  lead := []
  first := d.first
  others := d.others.map fun x => ([Bytes.space], x.2)
  trail := []
  lead_blank := List.forall_mem_nil _
  first_word := d.first_word
  others_spaced := by
    intro x hx
    obtain ⟨y, hy, rfl⟩ := List.mem_map.mp hx
    exact ⟨isGap_space, (d.others_spaced y hy).2⟩
  trail_gap := Or.inl rfl

theorem text_single (d : Layout) : d.single.text = Bytes.join [Bytes.space] d.words := by
  simp [text, single, tailText, words, Bytes.join, List.flatMap_map]

theorem parse_join_words (d : Layout) :
    parse (Bytes.join [Bytes.space] d.words) = .ok ⟨d.first, d.others.map Prod.snd, 0⟩ := by
  rw [← d.text_single, d.single.parse_text]
  simp [single]

end Layout

/-- Blanks are characters of one byte. -/
theorem length_blanks (h : ∀ b ∈ g, isBlank b = true) : Utf8.length g = g.length := by
  induction g with
  | nil => rfl
  | cons b g ih =>
    obtain ⟨hb, hg⟩ := List.forall_mem_cons.mp h
    rw [Utf8.length, decode_blank hb, List.length_cons, List.length_cons]
    exact congrArg _ (ih hg)

/-- What is accepted has no newline in it and a first word. -/
theorem of_parse_eq_ok {l : Line} (h : parse s = .ok l) :
    Bytes.newline ∉ s ∧ words s = l.mnemonic :: l.operands := by
  unfold parse at h
  split at h
  · cases h
  · rename_i before hspan
    rw [List.span_eq_takeWhile_dropWhile] at hspan
    have hall := List.dropWhile_eq_nil_iff.mp (congrArg Prod.snd hspan)
    split at h
    · cases h
    · rename_i w ws hwords
      cases h
      refine ⟨fun hmem => ?_, hwords⟩
      cases hall _ hmem

theorem exists_parse_iff :
    (∃ l, parse s = .ok l) ↔ Bytes.newline ∉ s ∧ ∃ b ∈ s, isBlank b = false := by
  constructor
  · rintro ⟨l, hl⟩
    obtain ⟨hline, hwords⟩ := of_parse_eq_ok hl
    refine ⟨hline, ?_⟩
    by_contra hblank
    have hall : ∀ b ∈ s, isBlank b = true := by simpa using hblank
    rw [words_eq_nil (List.dropWhile_eq_nil_iff.mpr hall)] at hwords
    cases hwords
  · rintro ⟨hline, hs⟩
    obtain ⟨d, rfl⟩ := exists_layout hline hs
    exact ⟨_, d.parse_text⟩

/-- A line is accepted if there is no newline in it and something that is not blank. It has one layout, with the
words that are read and their position in bytes and in characters, and its words with single spaces between them
are read again. -/
theorem parse_finds_the_layout (s file : Bytes) (number : Int) :
    ((∃ l, parse s = .ok l) ↔ Bytes.newline ∉ s ∧ ∃ b ∈ s, isBlank b = false) ∧
      ∀ l, parse s = .ok l → ∃ d : Layout, d.text = s ∧ (∀ d' : Layout, d'.text = s → d' = d) ∧
        l.mnemonic = d.first ∧ l.operands = d.others.map Prod.snd ∧
        l.position file number = ⟨file, number, d.lead.length, d.lead.length + 1⟩ ∧
        Utf8.length d.lead = d.lead.length ∧
        ∃ l', parse (Bytes.join [Bytes.space] (l.mnemonic :: l.operands)) = .ok l' ∧
          l'.mnemonic = l.mnemonic ∧ l'.operands = l.operands := by
  refine ⟨exists_parse_iff, ?_⟩
  intro l hl
  obtain ⟨hline, hs⟩ := exists_parse_iff.mp ⟨l, hl⟩
  obtain ⟨d, rfl⟩ := exists_layout hline hs
  rw [d.parse_text] at hl
  cases hl
  refine ⟨d, rfl, fun d' h => Layout.text_inj h, rfl, rfl, rfl, length_blanks d.lead_blank, ?_⟩
  exact ⟨_, d.parse_join_words, rfl, rfl⟩

/-- A vertical tab inside a word belongs to it, and one behind a space does not. -/
theorem parse_finds_the_layout_tabs :
    let s := text " a\x0bb \x0b\tc "
    ∃ l, parse s = .ok l ∧ ∃ d : Layout, d.text = s ∧ (∀ d' : Layout, d'.text = s → d' = d) ∧
      d.lead = text " " ∧ d.first = text "a\x0bb" ∧ d.others = [(text " \x0b\t", text "c")] ∧
      d.trail = text " " ∧ l.mnemonic = text "a\x0bb" ∧ l.operands = [text "c"] ∧
      l.position (text "f") 7 = ⟨text "f", 7, 1, 2⟩ := by
  intro s
  have hb : text " " = [32] := by decide +kernel
  have hfirst : text "a\x0bb" = [97, 11, 98] := by decide +kernel
  have hgap : text " \x0b\t" = [32, 11, 9] := by decide +kernel
  have hc : text "c" = [99] := by decide +kernel
  let e : Layout :=
    { lead := text " "
      first := text "a\x0bb"
      others := [(text " \x0b\t", text "c")]
      trail := text " "
      lead_blank := by simp [hb, isBlank]
      first_word := ⟨⟨97, [11, 98], hfirst, rfl⟩, by simp [hfirst, continuesWord]⟩
      others_spaced := List.forall_mem_singleton.mpr
        ⟨⟨⟨32, [11, 9], hgap, rfl⟩, by simp [hgap, isBlank]⟩,
          ⟨⟨99, [], hc, rfl⟩, by simp [hc, continuesWord]⟩⟩
      trail_gap := Or.inr ⟨⟨32, [], hb, rfl⟩, by simp [hb, isBlank]⟩ }
  have htext : text " " ++ (text "a\x0bb" ++ tailText [(text " \x0b\t", text "c")] (text " ")) =
      text " a\x0bb \x0b\tc " := by decide +kernel
  have he : e.text = s := htext
  have hs : Bytes.newline ∉ s ∧ ∃ b ∈ s, isBlank b = false := by decide +kernel
  obtain ⟨l, hl⟩ := (parse_finds_the_layout s (text "f") 7).1.mpr hs
  obtain ⟨d, hd, hunique, hmnemonic, hoperands, hposition, -, -⟩ :=
    (parse_finds_the_layout s (text "f") 7).2 l hl
  cases hunique e he
  exact ⟨l, hl, e, hd, hunique, rfl, rfl, rfl, rfl, hmnemonic, hoperands, hposition⟩

end LineMachine.Line
