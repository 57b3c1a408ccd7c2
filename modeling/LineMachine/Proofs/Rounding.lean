import Mathlib.Algebra.Order.Field.Power
import LineMachine.Proofs.FloatFormats

/-! Rounding to floats. What a fraction is rounded to is nearest to it among all floats, so numbers that
are floats are not changed by it, the integers up to `2 ^ 53` among them. -/
namespace LineMachine.Binary64

open Float.Model Float.Model.UnpackedFloat

def signed (negative : Bool) (r : ℚ) : ℚ := if negative then -r else r

/-- The number that a finite float stands for. -/
def value? (x : Float) : Option ℚ :=
  match parts x with
  | .finite negative m e => some (signed negative (m * 2 ^ e))
  | _ => none

/-- The power of two at or below `n / d`. -/
def binade (n d : Nat) : Int :=
  let k : Int := (n.log2 : Int) - d.log2
  if d <<< k.toNat ≤ n <<< (-k).toNat then k else k - 1

/-- The exponent of the float that `n / d` is rounded to, before a carry. -/
def place (n d : Nat) : Int := if binade n d - 52 < -1074 then -1074 else binade n d - 52

/-- The significand of the float that `n / d` is rounded to, before a carry. -/
def rounded (n d : Nat) : Nat :=
  roundDiv (n <<< (-place n d).toNat) (d <<< (place n d).toNat)

variable {x y : Float} {negative : Bool} {n d m : Nat} {e q j : Int} {r v w : ℚ}

theorem toBits_ofBits {b : UInt64} (h : b.toNat / 2 ^ 52 % 2 ^ 11 ≠ 2047) :
    (Float.ofBits b).toBits = b := by
  have hvalid : Format.binary64.Valid b.toBitVec := by
    constructor
    intro hexp
    rw [← BitVec.toNat_inj, toNat_unpackExponent] at hexp
    exact absurd hexp h
  simp only [Float.ofBits, Float.toBits, Float.Model.ofBits, Float.Model.pack, pack_unpack hvalid]

theorem toBits_ofMagnitude (negative : Bool) {bits : Nat} (h : bits < 2047 * 2 ^ 52) :
    (ofMagnitude negative bits).toBits.toNat = (if negative then 2 ^ 63 else 0) + bits := by
  have hword : (UInt64.ofNat (if negative then (1 <<< 63) + bits else bits)).toNat =
      (if negative then 2 ^ 63 else 0) + bits := by
    rw [UInt64.toNat_ofNat']
    cases negative
    · simp
      omega
    · simp
      omega
  rw [ofMagnitude, toBits_ofBits, hword]
  rw [hword]
  cases negative <;> simp <;> omega

/-- Parts survive being put together and taken apart. -/
theorem parts_ofMagnitude (hc : Canonical m e) :
    parts (ofMagnitude negative (((e + 1074).toNat <<< 52) + m)) = .finite negative m e := by
  have hm := hc.significand_lt
  have hleast := hc.least
  have hgreatest := hc.greatest
  have hnormal := hc.normal
  generalize hbits : ((e + 1074).toNat <<< 52) + m = bits
  rw [Nat.shiftLeft_eq] at hbits
  have hbound : bits < 2047 * 2 ^ 52 := by omega
  have htoBits := toBits_ofMagnitude negative hbound
  have hhidden : hidden = 2 ^ 52 := rfl
  have hsign : decide (1 <<< 63 ≤ (if negative then 2 ^ 63 else 0) + bits) = negative := by
    cases negative
    · simp
      omega
    · simp
  have hfield : ((if negative then 2 ^ 63 else 0) + bits) / 2 ^ 52 % 2048 =
      if m < 2 ^ 52 then 0 else (e + 1075).toNat := by
    cases negative <;> simp <;> split <;> omega
  have hfraction : ((if negative then 2 ^ 63 else 0) + bits) % hidden =
      if m < 2 ^ 52 then m else m - 2 ^ 52 := by
    rw [hhidden]
    cases negative <;> simp <;> split <;> omega
  unfold parts
  simp only [htoBits, Nat.shiftRight_eq_div_pow, hsign, hfield, hfraction]
  by_cases hlow : m < 2 ^ 52
  · have he : e = -1074 := by omega
    simp only [if_pos hlow, he]
    rfl
  · have hsum : hidden + (m - 2 ^ 52) = m := by
      rw [hhidden]
      omega
    have hplace : ((e + 1075).toNat : Int) - 1075 = e := by omega
    have htop : (e + 1075).toNat ≠ 2047 := by omega
    have hbottom : (e + 1075).toNat ≠ 0 := by omega
    simp only [if_neg hlow, if_neg htop, if_neg hbottom, hsum, hplace]

/-- What is rounded up to a power of two is that power with the next exponent. -/
theorem value?_ofMagnitude (negative : Bool) (hm : m ≤ 2 ^ 53) (hleast : -1074 ≤ q)
    (hgreatest : q ≤ 970) (hnormal : q = -1074 ∨ 2 ^ 52 ≤ m) :
    value? (ofMagnitude negative (((q + 1074).toNat <<< 52) + m)) =
      some (signed negative (m * 2 ^ q)) := by
  rcases Nat.lt_or_eq_of_le hm with hlt | rfl
  · rw [value?, parts_ofMagnitude ⟨hlt, hleast, by omega, hnormal⟩]
  · have hcarry : ((q + 1074).toNat <<< 52) + 2 ^ 53 = ((q + 1 + 1074).toNat <<< 52) + 2 ^ 52 := by
      simp only [Nat.shiftLeft_eq]
      omega
    rw [hcarry, value?, parts_ofMagnitude ⟨by omega, by omega, by omega, Or.inr (Nat.le_refl _)⟩]
    have hpower : ((2 ^ 52 : Nat) : ℚ) * 2 ^ (q + 1) = (2 ^ 53 : Nat) * 2 ^ q := by
      rw [zpow_add_one₀ two_ne_zero]
      push_cast
      ring
    simp only [hpower]

/-- Numbers with 53 bits at any place that floats have, or a carry out of these bits. -/
def Dyadic (w : ℚ) : Prop := ∃ j e : Int, |j| ≤ 2 ^ 53 ∧ -1074 ≤ e ∧ w = j * 2 ^ e

/-- No such number is nearer to `r` than `v` is. -/
def Nearest (v r : ℚ) : Prop := ∀ w, Dyadic w → |v - r| ≤ |w - r|

theorem value?_dyadic (h : value? x = some v) : Dyadic v := by
  unfold value? at h
  split at h
  · rename_i negative m e hx
    have hc := canonical_parts hx
    have hm := hc.significand_lt
    cases h
    refine ⟨if negative then -m else m, e, ?_, hc.least, ?_⟩
    · cases negative <;> simp <;> omega
    · cases negative <;> simp [signed]
  · cases h

theorem Dyadic.neg (h : Dyadic w) : Dyadic (-w) := by
  obtain ⟨j, e, hj, he, rfl⟩ := h
  exact ⟨-j, e, by rwa [abs_neg], he, by push_cast; ring⟩

theorem Dyadic.of_abs_le (h : |j| ≤ 2 ^ 53) : Dyadic j :=
  ⟨j, 0, h, by decide, by simp⟩

theorem Nearest.refl (r : ℚ) : Nearest r r := by
  intro w _
  rw [sub_self, abs_zero]
  exact abs_nonneg _

theorem Nearest.eq_of_dyadic (h : Nearest v r) (hr : Dyadic r) : v = r := by
  have hdistance := h r hr
  rw [sub_self, abs_zero, abs_nonpos_iff, sub_eq_zero] at hdistance
  exact hdistance

theorem Nearest.signed (h : Nearest v r) (negative : Bool) :
    Nearest (signed negative v) (signed negative r) := by
  cases negative
  · exact h
  · intro w hw
    calc |-v - -r| = |v - r| := by rw [neg_sub_neg, abs_sub_comm]
      _ ≤ |-w - r| := h (-w) hw.neg
      _ = |w - -r| := by rw [← abs_neg, neg_sub, sub_neg_eq_add, sub_neg_eq_add, add_comm]

/-- Rounded division gives the quotient or the number after it, whichever is nearer, or else the even one. -/
theorem roundDiv_cases (n d : Nat) :
    roundDiv n d = n / d ∧ 2 * (n % d) ≤ d ∧ (2 * (n % d) = d → n / d % 2 = 0) ∨
      roundDiv n d = n / d + 1 ∧ d ≤ 2 * (n % d) ∧ (2 * (n % d) = d → (n / d + 1) % 2 = 0) := by
  simp only [roundDiv]
  split
  · omega
  · split <;> omega

theorem abs_sub_div_mul (hw : 0 < w) (v r : ℚ) : |v - r / w| * w = |v * w - r| := by
  rw [← abs_of_pos hw, ← abs_mul, abs_of_pos hw, sub_mul, div_mul_cancel₀ _ hw.ne']

/-- No multiple of the divisor comes nearer to the dividend, and another one as near only in a tie. -/
theorem roundDiv_error (hd : d ≠ 0) (n : Nat) (j : Int) :
    |(roundDiv n d : Int) * d - n| ≤ |j * d - n| ∧
      (|j * d - n| = |(roundDiv n d : Int) * d - n| → j ≠ roundDiv n d → roundDiv n d % 2 = 0) := by
  have hremainder : n % d < d := Nat.mod_lt n (Nat.pos_of_ne_zero hd)
  have hdivision : ((n / d : Nat) : Int) * d + (n % d : Nat) = n := by
    exact_mod_cast Nat.div_add_mod' n d
  obtain ⟨t, ht⟩ : ∃ t : Int, j = (n / d : Nat) + t := ⟨j - (n / d : Nat), by omega⟩
  have hother : j * d - n = t * d - (n % d : Nat) := by
    rw [ht]
    linarith
  have hside : t = 0 ∧ t * d = 0 ∨ t = 1 ∧ t * d = d ∨ t * d ≤ -d ∨ 2 * d ≤ t * d := by
    rcases (by omega : t = 0 ∨ t = 1 ∨ t ≤ -1 ∨ 2 ≤ t) with rfl | rfl | hlow | hhigh
    · exact Or.inl ⟨rfl, zero_mul _⟩
    · exact Or.inr (Or.inl ⟨rfl, one_mul _⟩)
    · have hle := Int.mul_le_mul_of_nonneg_right hlow (Int.natCast_nonneg d)
      omega
    · have hle := Int.mul_le_mul_of_nonneg_right hhigh (Int.natCast_nonneg d)
      omega
  generalize t * (d : Int) = u at hother hside
  rw [hother, Int.abs_eq_natAbs, Int.abs_eq_natAbs]
  rcases roundDiv_cases n d with ⟨hround, hhalf, heven⟩ | ⟨hround, hhalf, heven⟩
  · have herror : (roundDiv n d : Int) * d - n = -(n % d : Nat) := by
      rw [hround]
      omega
    rw [herror]
    omega
  · have herror : (roundDiv n d : Int) * d - n = d - (n % d : Nat) := by
      rw [hround, Nat.cast_succ, add_one_mul]
      omega
    rw [herror]
    omega

/-- Rounded division comes as near to the quotient as any integer. -/
theorem roundDiv_nearest (hd : d ≠ 0) (n : Nat) (j : Int) :
    |(roundDiv n d : ℚ) - n / d| ≤ |(j : ℚ) - n / d| := by
  have hpos : (0 : ℚ) < d := Nat.cast_pos.mpr (Nat.pos_of_ne_zero hd)
  rw [← mul_le_mul_iff_left₀ hpos, abs_sub_div_mul hpos, abs_sub_div_mul hpos]
  exact_mod_cast (roundDiv_error hd n j).1

theorem two_pow_toNat (q : Int) : (2 : ℚ) ^ q.toNat = 2 ^ q * 2 ^ (-q).toNat := by
  rw [← zpow_natCast, ← zpow_natCast, ← zpow_add₀ two_ne_zero]
  congr 1
  omega

theorem shiftLeft_ne_zero (hd : d ≠ 0) (k : Nat) : d <<< k ≠ 0 := by
  rw [Nat.shiftLeft_eq]
  exact Nat.mul_ne_zero hd (pow_ne_zero k two_ne_zero)

theorem div_shifted (n d : Nat) (q : Int) :
    ((n <<< (-q).toNat : Nat) : ℚ) / (d <<< q.toNat : Nat) = n / d / 2 ^ q := by
  have hpower : (2 : ℚ) ^ (-q).toNat ≠ 0 := pow_ne_zero _ two_ne_zero
  simp only [Nat.shiftLeft_eq, Nat.cast_mul, Nat.cast_pow, Nat.cast_ofNat]
  rw [two_pow_toNat q, ← mul_assoc, mul_div_mul_right _ _ hpower, div_div]

theorem shifted_le_iff (hd : d ≠ 0) (n : Nat) (k : Int) :
    d <<< k.toNat ≤ n <<< (-k).toNat ↔ (2 : ℚ) ^ k ≤ n / d := by
  have hpos : (0 : ℚ) < (d <<< k.toNat : Nat) :=
    Nat.cast_pos.mpr (Nat.pos_of_ne_zero (shiftLeft_ne_zero hd _))
  rw [← Nat.cast_le (α := ℚ), ← one_le_div hpos, div_shifted, one_le_div (zpow_pos two_pos k)]

theorem log2_spec (hn : n ≠ 0) :
    (2 : ℚ) ^ (n.log2 : Int) ≤ n ∧ (n : ℚ) < 2 ^ (n.log2 + 1 : Int) := by
  refine ⟨?_, ?_⟩
  · rw [zpow_natCast]
    exact_mod_cast Nat.log2_self_le hn
  · rw [← Nat.cast_succ, zpow_natCast]
    exact_mod_cast Nat.lt_log2_self

theorem binade_spec (hn : n ≠ 0) (hd : d ≠ 0) :
    (2 : ℚ) ^ binade n d ≤ n / d ∧ (n / d : ℚ) < 2 ^ (binade n d + 1) := by
  obtain ⟨hnle, hnlt⟩ := log2_spec hn
  obtain ⟨hdle, hdlt⟩ := log2_spec hd
  have hpos : (0 : ℚ) < d := Nat.cast_pos.mpr (Nat.pos_of_ne_zero hd)
  have hlow : (2 : ℚ) ^ (n.log2 - d.log2 - 1 : Int) ≤ n / d := by
    rw [le_div_iff₀ hpos]
    calc (2 : ℚ) ^ (n.log2 - d.log2 - 1 : Int) * d
        ≤ 2 ^ (n.log2 - d.log2 - 1 : Int) * 2 ^ (d.log2 + 1 : Int) := by gcongr
      _ = 2 ^ (n.log2 : Int) := by
        rw [← zpow_add₀ two_ne_zero]
        congr 1
        omega
      _ ≤ n := hnle
  have hhigh : (n / d : ℚ) < 2 ^ (n.log2 - d.log2 + 1 : Int) := by
    rw [div_lt_iff₀ hpos]
    calc (n : ℚ) < 2 ^ (n.log2 + 1 : Int) := hnlt
      _ = 2 ^ (n.log2 - d.log2 + 1 : Int) * 2 ^ (d.log2 : Int) := by
        rw [← zpow_add₀ two_ne_zero]
        congr 1
        omega
      _ ≤ 2 ^ (n.log2 - d.log2 + 1 : Int) * d := by gcongr
  simp only [binade, shifted_le_iff hd]
  split
  · rename_i hle
    exact ⟨hle, hhigh⟩
  · rename_i hnot
    exact ⟨hlow, by simpa using hnot⟩

/-- Rounding keeps what is nearest among the multiples of the place. -/
theorem rounded_nearest (hd : d ≠ 0) (n : Nat) (j : Int) :
    |(rounded n d : ℚ) * 2 ^ place n d - n / d| ≤ |(j : ℚ) * 2 ^ place n d - n / d| := by
  have hpos : (0 : ℚ) < 2 ^ place n d := zpow_pos two_pos _
  have hnearest := roundDiv_nearest (shiftLeft_ne_zero hd (place n d).toNat)
    (n <<< (-place n d).toNat) j
  rw [div_shifted] at hnearest
  rw [← abs_sub_div_mul hpos, ← abs_sub_div_mul hpos]
  exact mul_le_mul_of_nonneg_right hnearest hpos.le

theorem roundDiv_le (hd : d ≠ 0) (h : (n / d : ℚ) < m) : roundDiv n d ≤ m := by
  have hpos : (0 : ℚ) < d := Nat.cast_pos.mpr (Nat.pos_of_ne_zero hd)
  have hquotient : n / d < m := by
    rw [Nat.div_lt_iff_lt_mul (Nat.pos_of_ne_zero hd)]
    exact_mod_cast (div_lt_iff₀ hpos).mp h
  have hcases := roundDiv_cases n d
  omega

theorem le_roundDiv (hd : d ≠ 0) (h : (m : ℚ) ≤ n / d) : m ≤ roundDiv n d := by
  have hpos : (0 : ℚ) < d := Nat.cast_pos.mpr (Nat.pos_of_ne_zero hd)
  have hquotient : m ≤ n / d := by
    rw [Nat.le_div_iff_mul_le (Nat.pos_of_ne_zero hd)]
    exact_mod_cast (le_div_iff₀ hpos).mp h
  have hcases := roundDiv_cases n d
  omega

theorem rounded_le (hn : n ≠ 0) (hd : d ≠ 0) : rounded n d ≤ 2 ^ 53 := by
  obtain ⟨-, hhigh⟩ := binade_spec hn hd
  have hplace : binade n d + 1 ≤ (53 : Nat) + place n d := by
    unfold place
    split <;> omega
  refine roundDiv_le (shiftLeft_ne_zero hd _) ?_
  rw [div_shifted, div_lt_iff₀ (zpow_pos two_pos _), Nat.cast_pow, Nat.cast_two, ← zpow_natCast,
    ← zpow_add₀ two_ne_zero]
  exact hhigh.trans_le (zpow_le_zpow_right₀ one_le_two hplace)

theorem le_rounded (hn : n ≠ 0) (hd : d ≠ 0) : place n d = -1074 ∨ 2 ^ 52 ≤ rounded n d := by
  obtain ⟨hlow, -⟩ := binade_spec hn hd
  by_cases hplace : binade n d - 52 < -1074
  · exact Or.inl (if_pos hplace)
  right
  have hbinade : (52 : Nat) + place n d = binade n d := by
    rw [place, if_neg hplace]
    omega
  refine le_roundDiv (shiftLeft_ne_zero hd _) ?_
  rw [div_shifted, le_div_iff₀ (zpow_pos two_pos _), Nat.cast_pow, Nat.cast_two, ← zpow_natCast,
    ← zpow_add₀ two_ne_zero, hbinade]
  exact hlow

theorem binade_eq (h : e < place n d) (he : -1074 ≤ e) : binade n d = place n d + 52 := by
  unfold place at h ⊢
  split at h <;> split <;> omega

theorem two_pow_binade (h : binade n d = place n d + 52) :
    (2 : ℚ) ^ binade n d = (2 ^ 52 : Int) * 2 ^ place n d := by
  rw [h, zpow_add₀ two_ne_zero, mul_comm]
  norm_cast

/-- A number of 53 bits is a multiple of the place, or less than the power of two under the quotient. -/
theorem Dyadic.grid_cases (hw : Dyadic w) (n d : Nat) : (∃ j : Int, w = j * 2 ^ place n d) ∨
    binade n d = place n d + 52 ∧ w < 2 ^ binade n d := by
  obtain ⟨j, e, hj, he, rfl⟩ := hw
  by_cases hplace : place n d ≤ e
  · left
    refine ⟨j * 2 ^ (e - place n d).toNat, ?_⟩
    push_cast
    rw [mul_assoc, ← zpow_natCast, ← zpow_add₀ two_ne_zero]
    congr 2
    omega
  · have hbinade : binade n d = place n d + 52 := binade_eq (by omega) he
    have hj' : (j : ℚ) ≤ 2 ^ (53 : Int) := by exact_mod_cast (le_abs_self j).trans hj
    have hunder : (j * 2 ^ e : ℚ) ≤ 2 ^ binade n d := by
      calc (j * 2 ^ e : ℚ) ≤ 2 ^ (53 : Int) * 2 ^ e := by gcongr
        _ = 2 ^ (53 + e) := (zpow_add₀ two_ne_zero _ _).symm
        _ ≤ 2 ^ binade n d := zpow_le_zpow_right₀ one_le_two (by omega)
    rcases hunder.eq_or_lt with heq | hlt
    · exact Or.inl ⟨2 ^ 52, heq.trans (two_pow_binade hbinade)⟩
    · exact Or.inr ⟨hbinade, hlt⟩

/-- Less than the power of two under the quotient is farther away than what is rounded. -/
theorem rounded_nearer (hn : n ≠ 0) (hd : d ≠ 0) (hbinade : binade n d = place n d + 52)
    (hw : w < 2 ^ binade n d) :
    |(rounded n d : ℚ) * 2 ^ place n d - n / d| < |w - n / d| := by
  obtain ⟨hlow, -⟩ := binade_spec hn hd
  calc |(rounded n d : ℚ) * 2 ^ place n d - n / d|
      ≤ |((2 ^ 52 : Int) : ℚ) * 2 ^ place n d - n / d| := rounded_nearest hd n _
    _ = n / d - 2 ^ binade n d := by
      rw [← two_pow_binade hbinade, abs_of_nonpos (sub_nonpos.mpr hlow), neg_sub]
    _ < n / d - w := sub_lt_sub_left hw _
    _ ≤ |w - n / d| := by
      rw [abs_sub_comm]
      exact le_abs_self _

theorem nearest_rounded (hn : n ≠ 0) (hd : d ≠ 0) :
    Nearest (rounded n d * 2 ^ place n d) (n / d) := by
  intro w hw
  rcases hw.grid_cases n d with ⟨j, rfl⟩ | ⟨hbinade, hlt⟩
  · exact rounded_nearest hd n j
  · exact (rounded_nearer hn hd hbinade hlt).le

theorem ofRatio_eq (hn : n ≠ 0) : ofRatio negative n d =
    if 2047 <<< 52 ≤ ((place n d + 1074).toNat <<< 52) + rounded n d then infinity negative
    else ofMagnitude negative (((place n d + 1074).toNat <<< 52) + rounded n d) := by
  simp only [ofRatio, if_neg hn]
  rfl

/-- A fraction in range is not rounded to infinity. -/
theorem ofRatio_bits (negative : Bool) (hn : n ≠ 0) (hd : d ≠ 0)
    (h : (n / d : ℚ) < 2 ^ (1023 : Int)) :
    -1074 ≤ place n d ∧ place n d ≤ 970 ∧ ofRatio negative n d =
      ofMagnitude negative (((place n d + 1074).toNat <<< 52) + rounded n d) := by
  obtain ⟨hlow, -⟩ := binade_spec hn hd
  have hbinade : binade n d < 1023 :=
    (zpow_lt_zpow_iff_right₀ one_lt_two).mp (hlow.trans_lt h)
  have hplace : -1074 ≤ place n d ∧ place n d ≤ 970 := by
    unfold place
    split <;> omega
  have hle := rounded_le hn hd
  have hfinite : ¬ 2047 <<< 52 ≤ ((place n d + 1074).toNat <<< 52) + rounded n d := by
    rw [Nat.shiftLeft_eq]
    omega
  rw [ofRatio_eq hn, if_neg hfinite]
  exact ⟨hplace.1, hplace.2, rfl⟩

/-- The float that a fraction in range is rounded to is finite, and no float is nearer to it. -/
theorem ofRatio_nearest (hd : d ≠ 0) (h : (n / d : ℚ) < 2 ^ (1023 : Int)) :
    ∃ v, value? (ofRatio negative n d) = some v ∧ Nearest v (signed negative (n / d)) := by
  by_cases hn : n = 0
  · have hzero : value? (ofMagnitude negative 0) = some (signed negative (n / d)) := by
      have hbits := value?_ofMagnitude negative (m := 0) (q := -1074) (by decide) (by decide)
        (by decide) (Or.inl rfl)
      simpa [hn] using hbits
    rw [ofRatio, if_pos hn]
    exact ⟨_, hzero, Nearest.refl _⟩
  obtain ⟨hleast, hgreatest, hbits⟩ := ofRatio_bits negative hn hd h
  refine ⟨signed negative (rounded n d * 2 ^ place n d), ?_, (nearest_rounded hn hd).signed negative⟩
  rw [hbits, value?_ofMagnitude negative (rounded_le hn hd) hleast hgreatest (le_rounded hn hd)]

theorem signed_natAbs (n : Int) : signed (n < 0) ((n.natAbs : ℚ) / (1 : Nat)) = n := by
  rw [Nat.cast_one, div_one]
  by_cases hn : n < 0
  · rw [signed, if_pos (decide_eq_true hn), Nat.cast_natAbs, abs_of_neg hn, Int.cast_neg, neg_neg]
  · rw [signed, if_neg (by simpa using hn), Nat.cast_natAbs, abs_of_nonneg (Int.not_lt.mp hn)]

theorem natAbs_in_range {n : Int} (h : n.natAbs < 2 ^ 64) :
    (n.natAbs / (1 : Nat) : ℚ) < 2 ^ (1023 : Int) := by
  rw [Nat.cast_one, div_one]
  calc (n.natAbs : ℚ) < 2 ^ (64 : Int) := by exact_mod_cast h
    _ ≤ 2 ^ (1023 : Int) := zpow_le_zpow_right₀ one_le_two (by decide)

/-- The float nearest to an integer is finite, and no float is nearer. -/
theorem ofInt_nearest {n : Int} (h : n.natAbs < 2 ^ 64) :
    ∃ v, value? (ofInt n) = some v ∧ Nearest v n := by
  rw [← signed_natAbs]
  exact ofRatio_nearest one_ne_zero (natAbs_in_range h)

/-- Floats that compare equal stand for the same number. -/
theorem value?_eq_of_beq (h : (x == y) = true) : value? x = value? y := by
  rcases beq_iff.mp h with ⟨rfl, -⟩ | ⟨hx, hy⟩
  · rfl
  · have hzero : ∀ {z : Float}, (z == 0) = true → value? z = some 0 := by
      intro z hz
      obtain ⟨s, hs⟩ := beq_zero_iff.mp hz
      rw [value?, parts_eq, hs]
      simp [partsOf, signed]
    rw [hzero hx, hzero hy]

theorem isNaN_of_value? (h : value? x = some v) : isNaN x = false := by
  unfold value? at h
  unfold isNaN
  cases hx : parts x <;> simp [hx] at h ⊢

theorem beq_trans {z : Float} (h : (x == y) = true) (h' : (y == z) = true) : (x == z) = true := by
  rcases beq_iff.mp h with ⟨rfl, -⟩ | ⟨hx, hy⟩
  · exact h'
  · rcases beq_iff.mp h' with ⟨rfl, -⟩ | ⟨-, hz⟩
    · exact h
    · exact beq_iff.mpr (Or.inr ⟨hx, hz⟩)

/-- Integers up to `2 ^ 53` are not rounded. -/
theorem value?_ofInt {n : Int} (h : |n| ≤ 2 ^ 53) : value? (ofInt n) = some (n : ℚ) := by
  rw [Int.abs_eq_natAbs] at h
  obtain ⟨v, hv, hnearest⟩ := ofInt_nearest (n := n) (by omega)
  rw [hv, hnearest.eq_of_dyadic (Dyadic.of_abs_le (by rwa [Int.abs_eq_natAbs]))]

/-- Of different integers that are rounded to the same float, one is beyond `2 ^ 53`. -/
theorem long_of_ofInt_beq {m n : Int} (h : (ofInt m == ofInt n) = true) (hne : m ≠ n) :
    2 ^ 53 < |m| ∨ 2 ^ 53 < |n| := by
  by_contra hshort
  rw [not_or, not_lt, not_lt] at hshort
  have hvalue := value?_eq_of_beq h
  rw [value?_ofInt hshort.1, value?_ofInt hshort.2, Option.some_inj, Int.cast_inj] at hvalue
  exact hne hvalue

end LineMachine.Binary64
