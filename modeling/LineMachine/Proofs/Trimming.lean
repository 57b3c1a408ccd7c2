import Mathlib.Data.List.DropRight
import LineMachine.Text.Blank

/-! Decoding goes over the ends of characters, so a text can be decoded in parts. Trimmed text is what
is left between the blanks at the two ends. -/
namespace LineMachine.Utf8

/-- A byte that can only be inside a character. -/
def continuesChar (b : UInt8) : Prop := 128 ≤ b.toNat ∧ b.toNat < 192

/-- Neither the first nor the last character is blank. -/
structure Trimmed (s : Bytes) : Prop where
  first : ∀ p ∈ (decode s).head?, p.isBlank = false
  last : ∀ p ∈ (decode s).getLast?, p.isBlank = false

variable {s t : Bytes} {b : UInt8} {c : Char}

theorem first?_eq_some_iff : first? s = some c ↔ String.utf8EncodeChar c <+: s := by
  have hlength : (String.utf8EncodeChar c).length ≤ 4 := by
    rw [String.length_utf8EncodeChar]
    exact c.utf8Size_le_four
  constructor
  · intro h
    have hbytes := congrArg (·.data.toList) (ByteArray.eq_of_utf8DecodeChar?_eq_some h)
    simp only [ByteArray.data_append, Array.toList_append, List.toList_data_toByteArray] at hbytes
    have hprefix : String.utf8EncodeChar c <+: s.take 4 := ⟨_, hbytes.symm⟩
    exact hprefix.trans (List.take_prefix 4 s)
  · intro h
    obtain ⟨rest, hrest⟩ := List.prefix_take_iff.mpr ⟨h, hlength⟩
    unfold first?
    rw [← hrest, List.toByteArray_append]
    exact ByteArray.utf8DecodeChar?_utf8EncodeChar_append

theorem decodeFrom_eq (n : Nat) (s : Bytes) : decodeFrom n s = decode (s.drop n) := by
  induction s generalizing n with
  | nil => cases n <;> rfl
  | cons b s ih =>
    cases n with
    | zero => rfl
    | succ n => exact ih n

theorem decode_char (c : Char) (s : Bytes) :
    decode (String.utf8EncodeChar c ++ s) = .char c :: decode s := by
  have hfirst : first? (String.utf8EncodeChar c ++ s) = some c :=
    first?_eq_some_iff.mpr (List.prefix_append _ _)
  have hlength := String.length_utf8EncodeChar c
  cases hc : String.utf8EncodeChar c with
  | nil =>
    have hpos := c.utf8Size_pos
    rw [hc] at hlength
    exact absurd hlength (Nat.ne_of_lt hpos)
  | cons b rest =>
    rw [hc] at hfirst hlength
    have hrest : c.utf8Size - 1 = rest.length := by
      rw [← hlength]
      rfl
    rw [List.cons_append] at hfirst ⊢
    rw [decode, decodeFrom, hfirst]
    simp only [decodeFrom_eq, hrest, List.drop_left]

theorem decode_stray (h : first? (b :: s) = none) : decode (b :: s) = .stray b :: decode s := by
  rw [decode, decodeFrom, h]
  rfl

/-- A text is empty, starts with a character, or starts with a byte that is none. -/
@[elab_as_elim]
theorem decode_induction {motive : Bytes → Prop} (nil : motive [])
    (char : ∀ c s, motive s → motive (String.utf8EncodeChar c ++ s))
    (stray : ∀ b s, first? (b :: s) = none → motive s → motive (b :: s)) (s : Bytes) : motive s := by
  induction hn : s.length using Nat.strongRecOn generalizing s with
  | ind n ih =>
    subst hn
    cases s with
    | nil => exact nil
    | cons b s =>
      cases hfirst : first? (b :: s) with
      | none => exact stray b s hfirst (ih _ (Nat.lt_succ_self _) s rfl)
      | some c =>
        obtain ⟨rest, hrest⟩ := first?_eq_some_iff.mp hfirst
        have hlength := congrArg List.length hrest
        have hpos := c.utf8Size_pos
        rw [List.length_append, String.length_utf8EncodeChar] at hlength
        rw [← hrest]
        exact char c rest (ih _ (by omega) rest rfl)

theorem encode_decode (s : Bytes) : encode (decode s) = s := by
  induction s using decode_induction with
  | nil => rfl
  | char c s ih =>
    rw [decode_char, encode, List.flatMap_cons]
    exact congrArg _ ih
  | stray b s h ih =>
    rw [decode_stray h, encode, List.flatMap_cons]
    exact congrArg _ ih

theorem decode_eq_nil_iff : decode s = [] ↔ s = [] := by
  constructor
  · intro h
    rw [← encode_decode s, h]
    rfl
  · rintro rfl
    rfl

theorem continuesChar_ofNat (n : Nat) : continuesChar (UInt8.ofNat (n % 64 + 128)) := by
  unfold continuesChar
  rw [UInt8.toNat_ofNat']
  omega

/-- A character starts with a byte that cannot be inside one and goes on with bytes that can. -/
theorem utf8EncodeChar_eq_cons (c : Char) : ∃ b rest, String.utf8EncodeChar c = b :: rest ∧
    ¬continuesChar b ∧ ∀ d ∈ rest, continuesChar d := by
  have hlead : ∀ n, n < 128 ∨ 192 ≤ n → n < 256 → ¬continuesChar (UInt8.ofNat n) := by
    intro n hn hsmall
    unfold continuesChar
    rw [UInt8.toNat_ofNat']
    omega
  have hinside := continuesChar_ofNat
  rw [String.utf8EncodeChar.eq_1]
  split
  · exact ⟨_, [], rfl, hlead _ (by omega) (by omega), List.forall_mem_nil _⟩
  · split
    · refine ⟨_, [_], rfl, hlead _ (by omega) (by omega), ?_⟩
      exact List.forall_mem_singleton.mpr (hinside _)
    · split
      · refine ⟨_, [_, _], rfl, hlead _ (by omega) (by omega), ?_⟩
        exact List.forall_mem_cons.mpr ⟨hinside _, List.forall_mem_singleton.mpr (hinside _)⟩
      · refine ⟨_, [_, _, _], rfl, hlead _ (by omega) (by omega), ?_⟩
        exact List.forall_mem_cons.mpr ⟨hinside _,
          List.forall_mem_cons.mpr ⟨hinside _, List.forall_mem_singleton.mpr (hinside _)⟩⟩

/-- Before a byte that cannot be inside a character, no character is going on. -/
theorem first?_append (hs : s ≠ []) (hb : ¬continuesChar b) (h : first? s = none) :
    first? (s ++ b :: t) = none := by
  rw [Option.eq_none_iff_forall_ne_some] at h ⊢
  intro c hc
  have hchar := first?_eq_some_iff.mp hc
  rcases List.prefix_or_prefix_of_prefix hchar (List.prefix_append s (b :: t)) with hin | hout
  · exact h c (first?_eq_some_iff.mpr hin)
  · obtain ⟨rest, hrest⟩ := hout
    obtain ⟨d, ds, hcons, -, hinside⟩ := utf8EncodeChar_eq_cons c
    obtain ⟨e, es, rfl⟩ := List.exists_cons_of_ne_nil hs
    cases rest with
    | nil =>
      rw [List.append_nil] at hrest
      exact h c (first?_eq_some_iff.mpr (hrest ▸ List.prefix_refl _))
    | cons b' rest =>
      rw [← hrest, List.prefix_append_right_inj, List.cons_prefix_cons] at hchar
      obtain ⟨rfl, -⟩ := hchar
      rw [← hrest, List.cons_append] at hcons
      obtain ⟨rfl, rfl⟩ := List.cons.inj hcons
      exact hb (hinside b' (by simp))

theorem decode_append (hb : ¬continuesChar b) (s t : Bytes) :
    decode (s ++ b :: t) = decode s ++ decode (b :: t) := by
  induction s using decode_induction with
  | nil => rfl
  | char c s ih => rw [List.append_assoc, decode_char, decode_char, ih, List.cons_append]
  | stray a s h ih =>
    have hfirst := first?_append (t := t) (List.cons_ne_nil a s) hb h
    calc decode (a :: s ++ b :: t) = .stray a :: decode (s ++ b :: t) := decode_stray hfirst
      _ = .stray a :: (decode s ++ decode (b :: t)) := by rw [ih]
      _ = decode (a :: s) ++ decode (b :: t) := by rw [decode_stray h, List.cons_append]

theorem decode_append_char (s t : Bytes) (c : Char) :
    decode (s ++ (String.utf8EncodeChar c ++ t)) = decode s ++ .char c :: decode t := by
  obtain ⟨b, rest, hcons, hb, -⟩ := utf8EncodeChar_eq_cons c
  rw [← decode_char, hcons]
  exact decode_append hb s (rest ++ t)

/-- Blanks are characters, so what stands before or after them is decoded on its own. -/
theorem decode_blanks_append {blanks : List Piece} (h : ∀ p ∈ blanks, p.isBlank = true)
    (s : Bytes) : decode (encode blanks ++ s) = blanks ++ decode s := by
  induction blanks with
  | nil => rfl
  | cons p ps ih =>
    obtain ⟨hp, hps⟩ := List.forall_mem_cons.mp h
    cases p with
    | stray b => cases hp
    | char c =>
      rw [encode, List.flatMap_cons, List.append_assoc, Piece.bytes, decode_char]
      exact congrArg _ (ih hps)

theorem decode_append_blanks {blanks : List Piece} (h : ∀ p ∈ blanks, p.isBlank = true)
    (s : Bytes) : decode (s ++ encode blanks) = decode s ++ blanks := by
  cases blanks with
  | nil => simp [encode]
  | cons p ps =>
    have hps := decode_blanks_append (List.forall_mem_cons.mp h).2 []
    cases p with
    | stray b => cases h _ List.mem_cons_self
    | char c =>
      rw [List.append_nil] at hps
      rw [encode, List.flatMap_cons, Piece.bytes, decode_append_char]
      exact congrArg (decode s ++ .char c :: ·) (hps.trans (List.append_nil ps))

/-- Only blanks are trimmed. -/
theorem exists_blanks (s : Bytes) : ∃ before after : List Piece,
    (∀ p ∈ before, p.isBlank = true) ∧ (∀ p ∈ after, p.isBlank = true) ∧
      decode s =
        before ++ ((decode s).dropWhile Piece.isBlank).rdropWhile Piece.isBlank ++ after ∧
      s = encode before ++ trim s ++ encode after := by
  let before := (decode s).takeWhile Piece.isBlank
  let after := ((decode s).dropWhile Piece.isBlank).rtakeWhile Piece.isBlank
  have hparts : decode s =
      before ++ ((decode s).dropWhile Piece.isBlank).rdropWhile Piece.isBlank ++ after := by
    rw [List.append_assoc, List.rdropWhile_append_rtakeWhile, List.takeWhile_append_dropWhile]
  refine ⟨before, after, fun p h => List.mem_takeWhile_imp h,
    fun p h => List.mem_rtakeWhile_imp h, hparts, ?_⟩
  have hbytes := congrArg encode hparts
  simp only [encode, List.flatMap_append] at hbytes
  exact (encode_decode s).symm.trans hbytes

theorem trim_infix (s : Bytes) : trim s <:+: s := by
  obtain ⟨before, after, -, -, -, hbytes⟩ := exists_blanks s
  exact ⟨_, _, hbytes.symm⟩

/-- What is left between the blanks is decoded as it was. -/
theorem decode_trim (s : Bytes) :
    decode (trim s) = ((decode s).dropWhile Piece.isBlank).rdropWhile Piece.isBlank := by
  obtain ⟨before, after, hbefore, hafter, hparts, hbytes⟩ := exists_blanks s
  have hpieces : decode s = before ++ decode (trim s) ++ after := by
    rw [← decode_blanks_append hbefore, ← decode_append_blanks hafter, ← hbytes]
  have heq := hpieces.symm.trans hparts
  exact List.append_cancel_left (List.append_cancel_right heq)

theorem trimmed_trim (s : Bytes) : Trimmed (trim s) := by
  have hprefix := List.rdropWhile_prefix Piece.isBlank ((decode s).dropWhile Piece.isBlank)
  refine ⟨?_, ?_⟩
  · rw [decode_trim]
    intro p hp
    have hhead := List.head?_dropWhile_not Piece.isBlank (decode s)
    obtain ⟨rest, hrest⟩ := hprefix
    rw [← hrest, List.head?_append, Option.mem_def.mp hp] at hhead
    exact hhead
  · rw [decode_trim]
    intro p hp
    obtain ⟨hne, rfl⟩ := List.mem_getLast?_eq_getLast hp
    exact Bool.of_not_eq_true (List.rdropWhile_last_not _ _ hne)

theorem trim_eq_self (h : Trimmed s) : trim s = s := by
  have hfirst : (decode s).dropWhile Piece.isBlank = decode s := by
    cases hd : decode s with
    | nil => rfl
    | cons p ps =>
      have hp := h.first p (by rw [hd]; rfl)
      rw [List.dropWhile_cons_of_neg (by rw [hp]; exact Bool.false_ne_true)]
  have hlast : (decode s).rdropWhile Piece.isBlank = decode s := by
    apply List.rdropWhile_eq_self_iff.mpr
    intro hne hblank
    have hp := h.last _ (List.getLast?_eq_some_getLast hne)
    rw [hp] at hblank
    cases hblank
  have hpieces := decode_trim s
  rw [hfirst, hlast] at hpieces
  rw [← encode_decode (trim s), hpieces, encode_decode]

/-- A byte below 128 is a character. -/
theorem utf8EncodeChar_ofUInt8 (h : b.toNat < 128) :
    String.utf8EncodeChar (Char.ofUInt8 b) = [b] := by
  rw [String.utf8EncodeChar.eq_1, if_pos (by change b.toNat ≤ 127; omega)]
  exact congrArg (fun x => [x]) (UInt8.ofNat_toNat)

end LineMachine.Utf8
