import LineMachine.Cbor.Item
import LineMachine.Proofs.FloatBits

/-! Exact numbers and floats. Rounding a number that is a float gives that float, so a narrower
format that holds a float exactly can be widened again without loss. -/
namespace LineMachine.Binary64

variable {x : Float} {negative : Bool} {m s : Nat} {e q : Int}

/-- The parts that finite floats have: below the least normal float there is one exponent only. -/
structure Canonical (m : Nat) (e : Int) : Prop where
  significand_lt : m < 2 ^ 53
  least : -1074 ≤ e
  greatest : e ≤ 971
  normal : e = -1074 ∨ 2 ^ 52 ≤ m

theorem eq_ofBits {bits : Nat} (h : x.toBits.toNat = bits) :
    x = Float.ofBits (UInt64.ofNat bits) := by
  rw [← h, UInt64.ofNat_toNat, ofBits_toBits]

theorem canonical_parts (h : parts x = .finite negative m e) : Canonical m e := by
  have hhidden : hidden = 2 ^ 52 := rfl
  have hfraction : x.toBits.toNat % hidden < hidden := Nat.mod_lt _ (by decide)
  have hfield : (x.toBits.toNat >>> 52) % 2048 < 2048 := Nat.mod_lt _ (by decide)
  unfold parts at h
  dsimp only at h
  split at h
  · split at h <;> cases h
  · split at h
    · cases h
      exact ⟨by omega, by omega, by omega, Or.inl rfl⟩
    · cases h
      exact ⟨by omega, by omega, by omega, Or.inr (by omega)⟩

theorem eq_ofMagnitude (h : parts x = .finite negative m e) :
    x = ofMagnitude negative (((e + 1074).toNat <<< 52) + m) := by
  have hb : x.toBits.toNat < 2 ^ 64 := x.toBits.toNat_lt
  apply eq_ofBits
  unfold parts hidden at h
  simp only [Nat.shiftRight_eq_div_pow, Nat.shiftLeft_eq] at h ⊢
  split at h
  · split at h <;> cases h
  · split at h <;> cases h <;> by_cases hn : 1 * 2 ^ 63 ≤ x.toBits.toNat <;>
      simp only [hn, decide_true, decide_false, if_true, Bool.false_eq_true, if_false] <;> omega

theorem eq_infinity (h : parts x = .infinite negative) : x = infinity negative := by
  apply eq_of_unpack
  rw [parts_eq] at h
  cases hx : x.toModel.unpack with
  | infinity s =>
    rw [hx] at h
    cases h
    cases s <;> rfl
  | notANumber | zero s | finite s => rw [hx] at h; cases h

theorem eq_nan (h : parts x = .nan) : x = nan := by
  apply eq_of_unpack
  have hx : isNaN x = true := by simp [isNaN, h]
  rw [isNaN_iff.mp hx]
  rfl

theorem roundDiv_exact {d : Nat} (hd : 0 < d) (m : Nat) : roundDiv (m * d) d = m := by
  simp [roundDiv, Nat.mul_div_cancel m hd, hd]

theorem log2_mul_two_pow (h : m ≠ 0) (k : Nat) : (m * 2 ^ k).log2 = m.log2 + k := by
  induction k with
  | zero => simp
  | succ k ih =>
    rw [Nat.pow_succ, ← Nat.mul_assoc, Nat.mul_comm _ 2, Nat.log2_two_mul, ih]
    · omega
    · have := Nat.two_pow_pos k
      exact Nat.mul_ne_zero h (by omega)

/-- `s * 2 ^ q` and `m * 2 ^ e` are the same number. -/
def SameNumber (s : Nat) (q : Int) (m : Nat) (e : Int) : Prop :=
  s * 2 ^ (q - e).toNat = m * 2 ^ (e - q).toNat

namespace SameNumber

variable (h : SameNumber s q m e)
include h

theorem eq_zero_iff : s = 0 ↔ m = 0 := by
  have hq := Nat.two_pow_pos (q - e).toNat
  have he := Nat.two_pow_pos (e - q).toNat
  unfold SameNumber at h
  constructor
  · rintro rfl
    rw [Nat.zero_mul] at h
    rcases Nat.mul_eq_zero.mp h.symm with hm | hm
    · exact hm
    · omega
  · rintro rfl
    rw [Nat.zero_mul] at h
    rcases Nat.mul_eq_zero.mp h with hs | hs
    · exact hs
    · omega

theorem log2_add (hm : m ≠ 0) : (s.log2 : Int) + q = m.log2 + e := by
  have hs : s ≠ 0 := fun hs => hm (h.eq_zero_iff.mp hs)
  have hlog := congrArg Nat.log2 h
  rw [log2_mul_two_pow hs, log2_mul_two_pow hm] at hlog
  omega

/-- Exponents of both signs, as factors on the two sides. -/
theorem mul_two_pow :
    s * 2 ^ (q.toNat + (-e).toNat) = m * 2 ^ ((-q).toNat + e.toNat) := by
  unfold SameNumber at h
  rcases Int.le_total e q with heq | hqe
  · have hzero : (e - q).toNat = 0 := by omega
    have hsplit : q.toNat + (-e).toNat = (q - e).toNat + ((-q).toNat + e.toNat) := by omega
    rw [hsplit, Nat.pow_add, ← Nat.mul_assoc, h, hzero, Nat.pow_zero, Nat.mul_one]
  · have hzero : (q - e).toNat = 0 := by omega
    have hsplit : (-q).toNat + e.toNat = (e - q).toNat + (q.toNat + (-e).toNat) := by omega
    rw [hsplit, Nat.pow_add 2 (e - q).toNat, ← Nat.mul_assoc, ← h, hzero, Nat.pow_zero,
      Nat.mul_one]

end SameNumber

/-- A number between two powers of two that are next to each other is not rounded to a power. -/
theorem ofBinary_leading (hs : s ≠ 0) (k : Int) (hk : k = s.log2 + q) :
    (1 <<< (-q).toNat) <<< k.toNat ≤ (s <<< q.toNat) <<< (-k).toNat := by
  have hlow := Nat.log2_self_le hs
  simp only [Nat.shiftLeft_eq, Nat.one_mul, Nat.mul_assoc, ← Nat.pow_add]
  calc 2 ^ ((-q).toNat + k.toNat) = 2 ^ (s.log2 + (q.toNat + (-k).toNat)) := by congr 1; omega
    _ = 2 ^ s.log2 * 2 ^ (q.toNat + (-k).toNat) := Nat.pow_add ..
    _ ≤ s * 2 ^ (q.toNat + (-k).toNat) := Nat.mul_le_mul_right _ hlow

/-- The power of two that a number is compared to when it is rounded as a fraction. -/
theorem log2_fraction (hs : s ≠ 0) (q : Int) :
    ((s <<< q.toNat).log2 : Int) - ((1 <<< (-q).toNat).log2 : Int) = s.log2 + q := by
  have hone : Nat.log2 1 = 0 := by decide
  rw [Nat.shiftLeft_eq, Nat.shiftLeft_eq, log2_mul_two_pow hs, log2_mul_two_pow (by decide)]
  omega

theorem SameNumber.roundDiv_eq (h : SameNumber s q m e) :
    roundDiv ((s <<< q.toNat) <<< (-e).toNat) ((1 <<< (-q).toNat) <<< e.toNat) = m := by
  simp only [Nat.shiftLeft_eq, Nat.one_mul, Nat.mul_assoc, ← Nat.pow_add]
  rw [h.mul_two_pow]
  exact roundDiv_exact (Nat.two_pow_pos _) m

namespace Canonical

variable (hc : Canonical m e)
include hc

theorem exponent_of_zero (hm : m = 0) : e = -1074 := by
  rcases hc.normal with he | hnormal
  · exact he
  · omega

/-- The exponent is the one that leaves 53 bits, or the least one. -/
theorem exponent_eq (hm : m ≠ 0) :
    (if (m.log2 : Int) + e - 52 < -1074 then -1074 else (m.log2 : Int) + e - 52) = e := by
  have hlog : m.log2 < 53 := (Nat.log2_lt hm).mpr hc.significand_lt
  have hleast := hc.least
  rcases hc.normal with he | hnormal
  · split <;> omega
  · have := (Nat.le_log2 hm).mpr hnormal
    split <;> omega

theorem not_infinite : ¬ 2047 <<< 52 ≤ ((e + 1074).toNat <<< 52) + m := by
  have := hc.significand_lt
  have := hc.greatest
  simp only [Nat.shiftLeft_eq]
  omega

end Canonical

/-- Rounding does not change a number that is a float already. -/
theorem ofBinary_exact (hc : Canonical m e) (h : SameNumber s q m e) :
    ofBinary negative s q = ofMagnitude negative (((e + 1074).toNat <<< 52) + m) := by
  unfold ofBinary ofRatio
  by_cases hs : s = 0
  · have hm : m = 0 := h.eq_zero_iff.mp hs
    simp [hs, hm, hc.exponent_of_zero hm]
  · have hm : m ≠ 0 := fun hm => hs (h.eq_zero_iff.mpr hm)
    have hn : s <<< q.toNat ≠ 0 := by
      rw [Nat.shiftLeft_eq]
      exact Nat.mul_ne_zero hs (by simp)
    have hexponent := hc.exponent_eq hm
    rw [← h.log2_add hm] at hexponent
    simp only [if_neg hn, log2_fraction hs, if_pos (ofBinary_leading hs _ rfl), hexponent,
      h.roundDiv_eq, if_neg hc.not_infinite]

end LineMachine.Binary64

namespace LineMachine.Cbor.FloatFormat

open Binary64

/-- The number `s * 2 ^ q` as a format holds it: only the least exponent has significands with
fewer bits than the others. -/
structure Holds (f : FloatFormat) (s : Nat) (q : Int) : Prop where
  significand_lt : s < 2 ^ f.precision
  least : f.least ≤ q
  greatest : q ≤ f.greatest
  normal : q = f.least ∨ 2 ^ (f.precision - 1) ≤ s

/-- The bits of a number without its sign. -/
def magnitude (f : FloatFormat) (s : Nat) (q : Int) : Nat :=
  ((q - f.least).toNat <<< (f.precision - 1)) + s

variable {f : FloatFormat} {x : Float} {negative : Bool} {m s bits : Nat} {e q : Int}

theorem two_pow_precision (hp : 0 < f.precision) :
    2 ^ f.precision = 2 * 2 ^ (f.precision - 1) := by
  rw [← Nat.pow_succ']
  congr 1
  omega

theorem Holds.magnitude_lt (h : f.Holds s q) (hp : 0 < f.precision) :
    f.magnitude s q < f.topField * 2 ^ (f.precision - 1) := by
  have hs := h.significand_lt
  have hfield : (q - f.least).toNat + 2 ≤ f.topField := by
    have := h.greatest
    have := h.least
    unfold topField
    omega
  have hmul := Nat.mul_le_mul_right (2 ^ (f.precision - 1)) hfield
  rw [two_pow_precision hp] at hs
  rw [Nat.add_mul] at hmul
  unfold magnitude
  rw [Nat.shiftLeft_eq]
  omega

theorem sign_eq (negative : Bool) :
    f.sign negative = (if negative then f.topField + 1 else 0) * 2 ^ (f.precision - 1) := by
  unfold sign
  rw [Nat.shiftLeft_eq]
  split <;> simp

theorem magnitude_div (f : FloatFormat) (s : Nat) (q : Int) :
    f.magnitude s q / 2 ^ (f.precision - 1) = s / 2 ^ (f.precision - 1) + (q - f.least).toNat := by
  rw [magnitude, Nat.shiftLeft_eq, Nat.add_comm,
    Nat.add_mul_div_right _ _ (Nat.two_pow_pos (f.precision - 1))]

theorem fraction_bits (f : FloatFormat) (negative : Bool) (s : Nat) (q : Int) :
    (f.sign negative + f.magnitude s q) % (1 <<< (f.precision - 1)) =
      s % 2 ^ (f.precision - 1) := by
  rw [Nat.shiftLeft_eq, Nat.one_mul, sign_eq, magnitude, Nat.shiftLeft_eq, ← Nat.add_assoc,
    ← Nat.add_mul, Nat.add_comm, Nat.add_mul_mod_self_right]

section Fields

variable (h : f.Holds s q) (hp : 0 < f.precision)
include h hp

theorem field_lt : s / 2 ^ (f.precision - 1) + (q - f.least).toNat < f.topField := by
  rw [← magnitude_div]
  exact (Nat.div_lt_iff_lt_mul (Nat.two_pow_pos _)).mpr (h.magnitude_lt hp)

theorem sign_bits (negative : Bool) :
    decide (f.sign true ≤ f.sign negative + f.magnitude s q) = negative := by
  have hlt := h.magnitude_lt hp
  rw [sign_eq, sign_eq]
  cases negative with
  | true => simp
  | false =>
    rw [if_pos rfl, if_neg Bool.false_ne_true, Nat.add_mul]
    simp only [Nat.zero_mul, Nat.zero_add, decide_eq_false_iff_not]
    omega

theorem field_bits (negative : Bool) :
    ((f.sign negative + f.magnitude s q) >>> (f.precision - 1)) % (f.topField + 1) =
      s / 2 ^ (f.precision - 1) + (q - f.least).toNat := by
  have hlt := field_lt h hp
  rw [Nat.shiftRight_eq_div_pow, sign_eq, Nat.add_comm,
    Nat.add_mul_div_right _ _ (Nat.two_pow_pos _), magnitude_div]
  cases negative with
  | true => rw [if_pos rfl, Nat.add_mod_right, Nat.mod_eq_of_lt (by omega)]
  | false => rw [if_neg Bool.false_ne_true, Nat.add_zero, Nat.mod_eq_of_lt (by omega)]

/-- The leading bit is not written. It is there if the field of the exponent is not zero. -/
theorem widen_magnitude :
    f.widen (f.sign negative + f.magnitude s q) = ofBinary negative s q := by
  have hpos := Nat.two_pow_pos (f.precision - 1)
  have hlt := field_lt h hp
  have hs := h.significand_lt
  have hleast := h.least
  rw [two_pow_precision hp] at hs
  unfold widen
  simp only [sign_bits h hp, field_bits h hp, fraction_bits]
  by_cases hnormal : 2 ^ (f.precision - 1) ≤ s
  · have hone : s / 2 ^ (f.precision - 1) = 1 := Nat.div_eq_of_lt_le (by omega) (by omega)
    have hrest : 1 <<< (f.precision - 1) + s % 2 ^ (f.precision - 1) = s := by
      have := Nat.div_add_mod s (2 ^ (f.precision - 1))
      rw [hone] at this
      rw [Nat.shiftLeft_eq]
      omega
    rw [hone] at hlt ⊢
    rw [if_neg (by omega), if_neg (by omega), hrest]
    congr 1
    omega
  · have hzero : s / 2 ^ (f.precision - 1) = 0 := Nat.div_eq_of_lt (by omega)
    have hq : q = f.least := h.normal.resolve_right hnormal
    rw [hzero] at hlt ⊢
    rw [if_neg (by omega), if_pos (by omega), Nat.mod_eq_of_lt (by omega), hq]

end Fields

/-- Dropping zeros at the end of a significand, or adding some, keeps the number. -/
theorem sameNumber_shifted (h : m % (1 <<< (q - e).toNat) = 0) :
    SameNumber ((m >>> (q - e).toNat) <<< (e - q).toNat) q m e := by
  rw [Nat.shiftLeft_eq, Nat.one_mul] at h
  unfold SameNumber
  rw [Nat.shiftRight_eq_div_pow, Nat.shiftLeft_eq, Nat.mul_right_comm,
    Nat.div_mul_cancel (Nat.dvd_of_mod_eq_zero h)]

/-- The exponent with which a format holds a number is the one that makes its significand as long
as it can be. -/
theorem holds_of_exponent (hp : 0 < f.precision) (hzero : m = 0 → e ≤ f.least)
    (hq : q = max f.least (e + (if m = 0 then 0 else m.log2 + 1 : Nat) - f.precision))
    (hle : q ≤ f.greatest) (h : SameNumber s q m e) : f.Holds s q := by
  have hleast : f.least ≤ q := by omega
  have hpos := Nat.two_pow_pos f.precision
  by_cases hm : m = 0
  · have hs : s = 0 := h.eq_zero_iff.mpr hm
    have he := hzero hm
    rw [if_pos hm] at hq
    exact ⟨by omega, hleast, hle, Or.inl (by omega)⟩
  · have hs : s ≠ 0 := fun hs => hm (h.eq_zero_iff.mp hs)
    have hlog := h.log2_add hm
    rw [if_neg hm] at hq
    refine ⟨(Nat.log2_lt hs).mp (by omega), hleast, hle, ?_⟩
    by_cases hlow : q = f.least
    · exact Or.inl hlow
    · exact Or.inr ((Nat.le_log2 hs).mp (by omega))

/-- What a format is given the bits of is the very number, perhaps with another exponent. -/
theorem bitsOf?_eq_some (hp : 0 < f.precision) (hzero : m = 0 → e ≤ f.least)
    (h : f.bitsOf? negative m e = some bits) :
    ∃ s q, SameNumber s q m e ∧ f.Holds s q ∧ bits = f.sign negative + f.magnitude s q := by
  unfold bitsOf? at h
  dsimp only at h
  generalize hq : (if e + (if m = 0 then 0 else m.log2 + 1 : Nat) - f.precision < f.least then f.least
    else e + (if m = 0 then 0 else m.log2 + 1 : Nat) - f.precision) = q at h
  split at h
  · cases h
  · rename_i hfits
    rw [not_or, Decidable.not_not] at hfits
    cases h
    have hsame := sameNumber_shifted hfits.2
    refine ⟨_, q, hsame, holds_of_exponent hp hzero ?_ (by omega) hsame, Nat.add_assoc ..⟩
    omega

/-- A format that holds a float exactly gives it back. -/
theorem widen_bitsOf? (hp : 0 < f.precision) (hleast : -1074 ≤ f.least)
    (hx : parts x = .finite negative m e) (h : f.bitsOf? negative m e = some bits) :
    f.widen bits = x ∧ bits < 2 * f.sign true := by
  have hc := canonical_parts hx
  have hzero (hm : m = 0) : e ≤ f.least := by
    rw [hc.exponent_of_zero hm]
    exact hleast
  obtain ⟨s, q, hsame, hholds, rfl⟩ := bitsOf?_eq_some hp hzero h
  constructor
  · rw [widen_magnitude hholds hp, ofBinary_exact hc hsame, ← eq_ofMagnitude hx]
  · have hlt := hholds.magnitude_lt hp
    have hpos := Nat.two_pow_pos (f.precision - 1)
    rw [sign_eq, sign_eq, if_pos rfl, Nat.add_mul]
    cases negative <;> simp only [Bool.false_eq_true, if_true, if_false, Nat.add_mul] <;> omega

end LineMachine.Cbor.FloatFormat
