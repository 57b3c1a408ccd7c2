import LineMachine.Proofs.Rounding

/-! Correct rounding. A float is known by its sign and the number that it stands for. Integers are rounded to
the nearest float, of two that are as near to the one with an even significand, and only one float is that. -/
namespace LineMachine.Binary64

variable {x y : Float} {negative : Bool} {n d m k : Nat} {e f q j : Int} {a b c r v w : ℚ}

/-- The sign bit is set. -/
def Negative (x : Float) : Prop := 2 ^ 63 ≤ x.toBits.toNat

/-- The number `r`, rounded. No float is nearer, and of two that are as near it is the even one. -/
structure RoundsTo (r : ℚ) (x : Float) : Prop where
  sign : Negative x ↔ r < 0
  nearest : ∃ v, value? x = some v ∧ ∀ y w, value? y = some w → |v - r| ≤ |w - r| ∧
    (|w - r| = |v - r| → w ≠ v → x.toBits.toNat % 2 = 0)

theorem value?_eq_some_iff : value? x = some v ↔
    ∃ negative m e, parts x = .finite negative m e ∧ signed negative (m * 2 ^ e) = v := by
  unfold value?
  cases parts x <;> simp

theorem negative_iff (h : parts x = .finite negative m e) : Negative x ↔ negative = true := by
  unfold parts at h
  simp only at h
  split at h
  · split at h <;> cases h
  · split at h <;> cases h <;> simp [Negative]

theorem significand_even (h : parts x = .finite negative m e) :
    x.toBits.toNat % 2 = 0 ↔ m % 2 = 0 := by
  have hhidden : hidden = 2 ^ 52 := rfl
  unfold parts at h
  simp only [hhidden] at h
  split at h
  · split at h <;> cases h
  · split at h <;> cases h <;> omega

theorem signed_inj : signed negative v = signed negative w ↔ v = w := by
  cases negative <;> simp [signed]

theorem abs_signed_sub (negative : Bool) (v r : ℚ) :
    |signed negative v - r| = |v - signed negative r| := by
  cases negative
  · rfl
  · change |-v - r| = |v - -r|
    rw [← abs_neg, neg_sub, sub_neg_eq_add, sub_neg_eq_add, add_comm]

theorem sameNumber_iff : SameNumber m e k f ↔ (m * 2 ^ e : ℚ) = k * 2 ^ f := by
  have hpos : (2 : ℚ) ^ (f - e).toNat ≠ 0 := pow_ne_zero _ two_ne_zero
  have hshift := two_pow_toNat (e - f)
  rw [neg_sub] at hshift
  calc SameNumber m e k f
    _ ↔ (m * 2 ^ (e - f).toNat : ℚ) = k * 2 ^ (f - e).toNat := by
      unfold SameNumber
      exact_mod_cast Iff.rfl
    _ ↔ (m * 2 ^ (e - f) : ℚ) = k := by
      rw [hshift, ← mul_assoc, mul_left_inj' hpos]
    _ ↔ (m * 2 ^ e : ℚ) = k * 2 ^ f := by
      rw [zpow_sub₀ two_ne_zero, ← mul_div_assoc, div_eq_iff (zpow_ne_zero f two_ne_zero)]

theorem eq_of_value? (hx : value? x = some v) (hy : value? y = some v)
    (hsign : Negative x ↔ Negative y) : x = y := by
  obtain ⟨s, m, e, hpx, rfl⟩ := value?_eq_some_iff.mp hx
  obtain ⟨t, k, f, hpy, hv⟩ := value?_eq_some_iff.mp hy
  have hst : s = t := by
    rwa [negative_iff hpx, negative_iff hpy, ← Bool.eq_iff_iff] at hsign
  subst hst
  have hsame : SameNumber m e k f := sameNumber_iff.mpr (signed_inj.mp hv).symm
  calc x = ofMagnitude s (((e + 1074).toNat <<< 52) + m) := eq_ofMagnitude hpx
    _ = ofBinary s m e := (ofBinary_exact (canonical_parts hpx) rfl).symm
    _ = ofMagnitude s (((f + 1074).toNat <<< 52) + k) := ofBinary_exact (canonical_parts hpy) hsame
    _ = y := (eq_ofMagnitude hpy).symm

/-- Normal numbers are ordered by their exponents first. -/
theorem mul_zpow_lt (hm : m < 2 ^ 53) (hk : 2 ^ 52 ≤ k) (h : e < f) :
    (m * 2 ^ e : ℚ) < k * 2 ^ f := by
  have hm' : (m : ℚ) < 2 ^ 53 := by exact_mod_cast hm
  have hk' : (2 ^ 52 : ℚ) ≤ k := by exact_mod_cast hk
  calc (m * 2 ^ e : ℚ) < 2 ^ 53 * 2 ^ e := mul_lt_mul_of_pos_right hm' (zpow_pos two_pos e)
    _ = 2 ^ 52 * 2 ^ (e + 1) := by
      rw [zpow_add_one₀ two_ne_zero]
      ring
    _ ≤ k * 2 ^ f := by
      gcongr
      · exact one_le_two
      · omega

/-- Between two floats with even significands there is another one. -/
theorem Canonical.succ_lt (hc : Canonical m e) (hc' : Canonical k f) (hm : m % 2 = 0)
    (hk : k % 2 = 0) (hlt : (m * 2 ^ e : ℚ) < k * 2 ^ f) :
    Canonical (m + 1) e ∧ ((m + 1 : Nat) * 2 ^ e : ℚ) < k * 2 ^ f := by
  have hsignificand := hc.significand_lt
  have hsignificand' := hc'.significand_lt
  have hnormal := hc.normal
  have hnormal' := hc'.normal
  have hleast := hc.least
  have hleast' := hc'.least
  refine ⟨⟨by omega, hc.least, hc.greatest, by omega⟩, ?_⟩
  rcases lt_trichotomy e f with hef | rfl | hfe
  · exact mul_zpow_lt (by omega) (by omega) hef
  · have hpos : (0 : ℚ) < 2 ^ e := zpow_pos two_pos e
    have hlt' : m < k := by exact_mod_cast lt_of_mul_lt_mul_right hlt hpos.le
    exact mul_lt_mul_of_pos_right (by exact_mod_cast (show m + 1 < k by omega)) hpos
  · exact absurd (mul_zpow_lt (by omega) (by omega) hfe) hlt.not_gt

/-- What lies between two numbers is nearer to the middle of them. -/
theorem abs_sub_lt_of_between (hav : a < b) (hvb : b < c) (h : |a - r| = |c - r|) :
    |b - r| < |a - r| := by
  rcases abs_cases (a - r) with ⟨ha, ha'⟩ | ⟨ha, ha'⟩ <;>
    rcases abs_cases (b - r) with ⟨hb, hb'⟩ | ⟨hb, hb'⟩ <;>
      rcases abs_cases (c - r) with ⟨hc, hc'⟩ | ⟨hc, hc'⟩ <;> linarith

theorem exists_nearer (hx : parts x = .finite negative m e) (hy : parts y = .finite negative k f)
    (hm : m % 2 = 0) (hk : k % 2 = 0) (hlt : (m * 2 ^ e : ℚ) < k * 2 ^ f)
    (h : |(m * 2 ^ e : ℚ) - signed negative r| = |(k * 2 ^ f : ℚ) - signed negative r|) :
    ∃ z w, value? z = some w ∧ |w - r| < |signed negative (m * 2 ^ e) - r| := by
  obtain ⟨hc, hsucc⟩ := (canonical_parts hx).succ_lt (canonical_parts hy) hm hk hlt
  have hpos : (0 : ℚ) < 2 ^ e := zpow_pos two_pos e
  have hlow : (m * 2 ^ e : ℚ) < (m + 1 : Nat) * 2 ^ e :=
    mul_lt_mul_of_pos_right (by exact_mod_cast Nat.lt_succ_self m) hpos
  refine ⟨_, _, value?_eq_some_iff.mpr ⟨negative, m + 1, e, parts_ofMagnitude hc, rfl⟩, ?_⟩
  rw [abs_signed_sub, abs_signed_sub]
  exact abs_sub_lt_of_between hlow hsucc h

theorem RoundsTo.unique (hx : RoundsTo r x) (hy : RoundsTo r y) : x = y := by
  obtain ⟨v, hv, hnearest⟩ := hx.nearest
  obtain ⟨w, hw, hnearest'⟩ := hy.nearest
  have hdistance : |w - r| = |v - r| := le_antisymm (hnearest' x v hv).1 (hnearest y w hw).1
  have hsign : Negative x ↔ Negative y := hx.sign.trans hy.sign.symm
  by_cases hvw : w = v
  · exact eq_of_value? hv (hvw ▸ hw) hsign
  exfalso
  have heven := (hnearest y w hw).2 hdistance hvw
  have heven' := (hnearest' x v hv).2 hdistance.symm (Ne.symm hvw)
  obtain ⟨s, m, e, hpx, rfl⟩ := value?_eq_some_iff.mp hv
  obtain ⟨t, k, f, hpy, rfl⟩ := value?_eq_some_iff.mp hw
  obtain rfl : s = t := by
    rwa [negative_iff hpx, negative_iff hpy, ← Bool.eq_iff_iff] at hsign
  rw [significand_even hpx] at heven
  rw [significand_even hpy] at heven'
  have hmiddle := hdistance
  rw [abs_signed_sub, abs_signed_sub] at hmiddle
  rcases lt_trichotomy (m * 2 ^ e : ℚ) (k * 2 ^ f) with hlt | heq | hgt
  · obtain ⟨z, u, hz, hnear⟩ := exists_nearer hpx hpy heven heven' hlt hmiddle.symm
    exact (hnearest z u hz).1.not_gt hnear
  · exact hvw (by rw [heq])
  · obtain ⟨z, u, hz, hnear⟩ := exists_nearer hpy hpx heven' heven hgt hmiddle
    exact (hnearest' z u hz).1.not_gt hnear

/-- Only in the middle is rounded division as far from another integer as from its result. -/
theorem roundDiv_even (hd : d ≠ 0) (hne : j ≠ roundDiv n d)
    (h : |(j : ℚ) - n / d| = |(roundDiv n d : ℚ) - n / d|) : roundDiv n d % 2 = 0 := by
  have hpos : (0 : ℚ) < d := Nat.cast_pos.mpr (Nat.pos_of_ne_zero hd)
  rw [← mul_left_inj' hpos.ne', abs_sub_div_mul hpos, abs_sub_div_mul hpos] at h
  exact (roundDiv_error hd n j).2 (by exact_mod_cast h) hne

/-- What is rounded is as far from another number of 53 bits only if its significand is even. -/
theorem rounded_even (hn : n ≠ 0) (hd : d ≠ 0) (hw : Dyadic w)
    (hne : w ≠ rounded n d * 2 ^ place n d)
    (h : |w - n / d| = |(rounded n d : ℚ) * 2 ^ place n d - n / d|) : rounded n d % 2 = 0 := by
  rcases hw.grid_cases n d with ⟨j, rfl⟩ | ⟨hbinade, hlt⟩
  · have hpos : (0 : ℚ) < 2 ^ place n d := zpow_pos two_pos _
    refine roundDiv_even (j := j) (shiftLeft_ne_zero hd _) ?_ ?_
    · intro hj
      exact hne (by rw [hj]; rfl)
    · rw [← abs_sub_div_mul hpos, ← abs_sub_div_mul hpos] at h
      rw [div_shifted]
      exact mul_right_cancel₀ hpos.ne' h
  · exact absurd h (rounded_nearer hn hd hbinade hlt).ne'

theorem Dyadic.signed (h : Dyadic w) (negative : Bool) : Dyadic (signed negative w) := by
  cases negative
  · exact h
  · exact h.neg

theorem signed_signed (negative : Bool) (v : ℚ) : signed negative (signed negative v) = v := by
  cases negative <;> simp [signed]

theorem roundsTo_zero : RoundsTo 0 0 := by
  have hzero : value? 0 = some 0 := by
    have hvalue := value?_ofInt (n := 0) (by decide)
    rwa [show ofInt 0 = 0 from eq_of_unpack rfl, Int.cast_zero] at hvalue
  have hsign : ¬Negative 0 := by
    unfold Negative
    decide
  refine ⟨iff_of_false hsign (lt_irrefl 0), 0, hzero, ?_⟩
  intro y w _
  rw [sub_self, abs_zero, sub_zero]
  refine ⟨abs_nonneg w, ?_⟩
  intro hw hne
  exact absurd (abs_eq_zero.mp hw) hne

theorem bits_lt (hm : m ≤ 2 ^ 53) (hq : q ≤ 970) :
    ((q + 1074).toNat <<< 52) + m < 2047 * 2 ^ 52 := by
  rw [Nat.shiftLeft_eq]
  omega

theorem negative_ofMagnitude (negative : Bool) {bits : Nat} (h : bits < 2047 * 2 ^ 52) :
    Negative (ofMagnitude negative bits) ↔ negative = true := by
  rw [Negative, toBits_ofMagnitude negative h]
  split
  · rename_i hnegative
    exact iff_of_true (Nat.le_add_right _ _) hnegative
  · rename_i hpositive
    exact iff_of_false (by omega) hpositive

theorem even_ofMagnitude (negative : Bool) (hm : m ≤ 2 ^ 53) (hq : q ≤ 970) (heven : m % 2 = 0) :
    (ofMagnitude negative (((q + 1074).toNat <<< 52) + m)).toBits.toNat % 2 = 0 := by
  rw [toBits_ofMagnitude negative (bits_lt hm hq), Nat.shiftLeft_eq]
  split <;> omega

/-- Fractions in range are rounded correctly. -/
theorem ofRatio_roundsTo (hn : n ≠ 0) (hd : d ≠ 0) (h : (n / d : ℚ) < 2 ^ (1023 : Int)) :
    RoundsTo (signed negative (n / d)) (ofRatio negative n d) := by
  obtain ⟨hleast, hgreatest, hbits⟩ := ofRatio_bits negative hn hd h
  have hle := rounded_le hn hd
  have hpos : (0 : ℚ) < n / d := by positivity
  rw [hbits]
  constructor
  · rw [negative_ofMagnitude negative (bits_lt hle hgreatest)]
    cases negative <;> simp [signed, hpos, hpos.le]
  · refine ⟨_, value?_ofMagnitude negative hle hleast hgreatest (le_rounded hn hd), ?_⟩
    intro y w hw
    have hdyadic := value?_dyadic hw
    refine ⟨(nearest_rounded hn hd).signed negative w hdyadic, ?_⟩
    intro htie hne
    rw [abs_signed_sub, signed_signed, ← abs_signed_sub] at htie
    apply even_ofMagnitude negative hle hgreatest
    apply rounded_even hn hd (hdyadic.signed negative) ?_ htie
    intro heq
    exact hne (by rw [← heq, signed_signed])

/-- An integer is rounded to the float that it is to be rounded to. -/
theorem ofInt_roundsTo {i : Int} (h : i.natAbs < 2 ^ 64) : RoundsTo i (ofInt i) := by
  by_cases hi : i = 0
  · subst hi
    rw [Int.cast_zero, show ofInt 0 = 0 from eq_of_unpack rfl]
    exact roundsTo_zero
  · rw [← signed_natAbs]
    exact ofRatio_roundsTo (Int.natAbs_ne_zero.mpr hi) one_ne_zero (natAbs_in_range h)

end LineMachine.Binary64
