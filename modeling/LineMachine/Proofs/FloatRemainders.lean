import Mathlib.Data.Rat.Floor
import LineMachine.Number.Floor
import LineMachine.Proofs.CorrectRounding

/-! Floor division of floats. The floor of a float and the remainder of two are exact; the remainder gets the
sign of the divisor by one addition, which is the only rounding. -/
namespace LineMachine.Binary64

open Float.Model

variable {x y z r : Float} {negative : Bool} {m k : Nat} {e f q : Int} {a b c v w : ℚ}

/-- The largest whole number not above `x`, with the sign of `x`. -/
def IsFloor (x z : Float) : Prop :=
  match value? x with
  | some v => value? z = some (⌊v⌋ : ℚ) ∧ (Negative z ↔ Negative x)
  | none => z = x

/-- What division of `x` by `y` leaves when it rounds toward zero, with the sign of `x`. Not-a-number is alone
in not being equal to itself. -/
inductive IsRemainder : Float → Float → Float → Prop
  | exact {x y r : Float} {a b c : ℚ} (k : Int) : value? x = some a → value? y = some b →
      value? r = some c → a = k * b + c → |c| < |b| → (Negative r ↔ Negative x) → IsRemainder x y r
  | infinite {x y : Float} {a : ℚ} : value? x = some a → value? y = none → (y == y) = true →
      IsRemainder x y x
  | nan {x y r : Float} : value? x = none ∨ (y == y) = false → (r == r) = false → IsRemainder x y r

/-- The remainder with the sign of the divisor, which is added to one that has the other sign. -/
def IsModulo (x y z : Float) : Prop :=
  ∃ r, IsRemainder x y r ∧ z = if (r == 0) = false ∧ ¬(r < 0 ↔ y < 0) then r + y else r

theorem exists_canonical (hm : m < 2 ^ 53) (hleast : -1074 ≤ q) (hgreatest : q ≤ 971) :
    ∃ k e, Canonical k e ∧ SameNumber m q k e := by
  by_cases hzero : m = 0
  · subst hzero
    exact ⟨0, -1074, ⟨by decide, by decide, by decide, Or.inl rfl⟩, by simp [SameNumber]⟩
  · obtain ⟨s, hs⟩ : ∃ s, s = min (52 - m.log2) (q + 1074).toNat := ⟨_, rfl⟩
    have hlog : m.log2 < 53 := (Nat.log2_lt hzero).mpr hm
    have hshifted : m * 2 ^ s ≠ 0 := Nat.mul_ne_zero hzero (Nat.two_pow_pos s).ne'
    have hlength : (m * 2 ^ s).log2 = m.log2 + s := log2_mul_two_pow hzero s
    have hbelow : m * 2 ^ s < 2 ^ 53 := (Nat.log2_lt hshifted).mp (by omega)
    have hnormal : q - s = -1074 ∨ 2 ^ 52 ≤ m * 2 ^ s := by
      rw [← Nat.le_log2 hshifted]
      omega
    have hsame : (q - (q - s)).toNat = s ∧ (q - s - q).toNat = 0 := by omega
    refine ⟨m * 2 ^ s, q - s, ⟨hbelow, by omega, by omega, hnormal⟩, ?_⟩
    rw [SameNumber, hsame.1, hsame.2, Nat.pow_zero, Nat.mul_one]

/-- Numbers of 53 bits are floats, so nothing is lost when they are written as floats. -/
theorem ofBinary_short (negative : Bool) (hm : m < 2 ^ 53) (hleast : -1074 ≤ q) (hgreatest : q ≤ 971) :
    value? (ofBinary negative m q) = some (signed negative (m * 2 ^ q)) ∧
      (Negative (ofBinary negative m q) ↔ negative = true) := by
  obtain ⟨k, e, hc, hsame⟩ := exists_canonical hm hleast hgreatest
  have hparts : parts (ofBinary negative m q) = .finite negative k e := by
    rw [ofBinary_exact hc hsame, parts_ofMagnitude hc]
  refine ⟨?_, negative_iff hparts⟩
  rw [value?, hparts, sameNumber_iff.mp hsame]

theorem IsFloor.unique (h : IsFloor x y) (h' : IsFloor x z) : y = z := by
  unfold IsFloor at h h'
  cases hx : value? x with
  | none =>
    rw [hx] at h h'
    exact h.trans h'.symm
  | some v =>
    rw [hx] at h h'
    exact eq_of_value? h.1 h'.1 (h.2.trans h'.2.symm)

theorem floor_signed_natCast (negative : Bool) (n : Nat) :
    (⌊signed negative (n : ℚ)⌋ : ℚ) = signed negative n := by
  cases negative with
  | false => rw [signed, if_neg Bool.false_ne_true, Int.floor_natCast, Int.cast_natCast]
  | true =>
    have hcast : -(n : ℚ) = (-n : Int) := by push_cast; rfl
    rw [signed, if_pos rfl, hcast, Int.floor_intCast]

theorem natCast_mul_zpow (h : m = 0 ∨ 0 ≤ e) : (m * 2 ^ e : ℚ) = (m * 2 ^ e.toNat : Nat) := by
  rcases h with rfl | he
  · simp
  · obtain ⟨k, rfl⟩ := Int.eq_ofNat_of_zero_le he
    push_cast
    rw [zpow_natCast, Int.toNat_natCast]

theorem mul_zpow_eq_div (he : e < 0) : (m * 2 ^ e : ℚ) = m / (2 ^ (-e).toNat : Nat) := by
  obtain ⟨k, hk⟩ := Int.eq_ofNat_of_zero_le (show 0 ≤ -e by omega)
  obtain rfl : e = -(k : Int) := by omega
  rw [zpow_neg, zpow_natCast, neg_neg, Int.toNat_natCast, div_eq_mul_inv]
  push_cast
  rfl

/-- Away from zero by one if the number is negative and not whole. -/
theorem floor_signed_div {d : Nat} (hd : d ≠ 0) (negative : Bool) (m : Nat) :
    (⌊signed negative (m / d : ℚ)⌋ : ℚ) =
      signed negative (if negative ∧ ¬m / d * d = m then m / d + 1 else m / d : Nat) := by
  cases negative with
  | false =>
    have hfloor := Rat.floor_intCast_div_natCast m d
    rw [Int.cast_natCast, ← Int.natCast_ediv] at hfloor
    simp only [signed, Bool.false_eq_true, false_and, if_false]
    rw [hfloor, Int.cast_natCast]
  | true =>
    have hfloor := Rat.floor_intCast_div_natCast (-m) d
    have hsign : (d : Int).sign = 1 := Int.sign_eq_one_of_pos (by omega)
    have hdvd : m / d * d = m ↔ (d : Int) ∣ m := by
      rw [Int.natCast_dvd_natCast, Nat.dvd_iff_div_mul_eq]
    rw [Int.cast_neg, Int.cast_natCast, Int.neg_ediv, hsign, neg_div, ← Int.natCast_ediv] at hfloor
    simp only [signed, if_true, true_and]
    rw [hfloor]
    by_cases hexact : m / d * d = m
    · rw [if_pos (hdvd.mp hexact), if_neg (not_not.mpr hexact), sub_zero, Int.cast_neg,
        Int.cast_natCast]
    · rw [if_neg (mt hdvd.mpr hexact), if_pos hexact, Int.cast_sub, Int.cast_neg, Int.cast_natCast,
        Int.cast_one, Nat.cast_add, Nat.cast_one, neg_add, sub_eq_add_neg]

theorem whole_lt (hm : m < 2 ^ 53) (he : e < 0) : m / 2 ^ (-e).toNat < 2 ^ 52 := by
  have htwo : 2 ^ 1 ≤ 2 ^ (-e).toNat := Nat.pow_le_pow_right (by decide) (by omega)
  rw [Nat.div_lt_iff_lt_mul (Nat.two_pow_pos _)]
  omega

theorem floor_isFloor (x : Float) : IsFloor x (Floor.floor x) := by
  unfold IsFloor Floor.floor
  cases hx : parts x with
  | nan | infinite s => simp [value?, hx]
  | finite s m e =>
    have hc := canonical_parts hx
    have hvalue : value? x = some (signed s (m * 2 ^ e)) := by rw [value?, hx]
    simp only [hvalue]
    by_cases hinteger : m = 0 ∨ 0 ≤ e
    · rw [if_pos hinteger, natCast_mul_zpow hinteger, floor_signed_natCast, hvalue,
        natCast_mul_zpow hinteger]
      exact ⟨rfl, Iff.rfl⟩
    · have he : e < 0 := by omega
      have hwhole := whole_lt hc.significand_lt he
      obtain ⟨w, hw⟩ : ∃ w, w = if s = true ∧ ¬m / 2 ^ (-e).toNat * 2 ^ (-e).toNat = m then
          m / 2 ^ (-e).toNat + 1 else m / 2 ^ (-e).toNat := ⟨_, rfl⟩
      have hshort : w < 2 ^ 53 := by
        rw [hw]
        split <;> omega
      obtain ⟨hz, hsign⟩ := ofBinary_short s hshort (q := 0) (by decide) (by decide)
      rw [zpow_zero, mul_one] at hz
      rw [if_neg hinteger, mul_zpow_eq_div he, floor_signed_div (by simp)]
      simp only [Nat.shiftRight_eq_div_pow, Nat.shiftLeft_eq, ← hw]
      exact ⟨hz, hsign.trans (negative_iff hx).symm⟩

theorem abs_signed (negative : Bool) (v : ℚ) : |signed negative v| = |v| := by
  cases negative <;> simp [signed]

theorem beq_self_iff : (x == x) = true ↔ isNaN x = false := by
  rw [beq_iff]
  constructor
  · rintro (⟨-, h⟩ | ⟨h, -⟩)
    · exact h
    · rcases beq_zero_cases h with rfl | rfl <;> decide
  · intro h
    exact Or.inl ⟨rfl, h⟩

theorem significand_ne_zero (hy : ¬y == 0) (h : parts y = .finite negative k f) : k ≠ 0 := by
  rintro rfl
  have hf : f = -1074 := (canonical_parts h).exponent_of_zero rfl
  subst hf
  rw [eq_ofMagnitude h] at hy
  cases negative <;> exact hy (by decide)

/-- A multiple of one power of two, as a multiple of a smaller one. -/
theorem shiftLeft_mul_zpow (h : q ≤ e) (m : Nat) :
    ((m <<< (e - q).toNat : Nat) * 2 ^ q : ℚ) = m * 2 ^ e := by
  rw [Nat.shiftLeft_eq, Nat.cast_mul, mul_assoc, Nat.cast_pow, Nat.cast_ofNat, ← zpow_natCast,
    ← zpow_add₀ two_ne_zero]
  congr 2
  omega

theorem signed_div_mod (s t : Bool) (m k : Nat) (u : ℚ) : ∃ j : Int,
    signed s (m * u) = j * signed t (k * u) + signed s ((m % k : Nat) * u) := by
  have hdivision : (m : ℚ) = (m / k : Nat) * k + (m % k : Nat) := by
    exact_mod_cast (Nat.div_add_mod' m k).symm
  obtain ⟨j, hj⟩ : ∃ j : Int, (j : ℚ) = (m / k : Nat) := ⟨(m / k : Nat), Int.cast_natCast _⟩
  refine ⟨if s = t then j else -j, ?_⟩
  rw [hdivision, ← hj]
  cases s <;> cases t <;> simp [signed] <;> ring

/-- At the lower of two exponents, what is left has no more than 53 bits. -/
theorem remainder_lt (hm : m < 2 ^ 53) (hk : k < 2 ^ 53) (hzero : k ≠ 0) (hq : q = e ∨ q = f) :
    (m <<< (e - q).toNat) % (k <<< (f - q).toNat) < 2 ^ 53 := by
  rcases hq with rfl | rfl
  · rw [sub_self, Int.toNat_zero, Nat.shiftLeft_zero]
    exact (Nat.mod_le _ _).trans_lt hm
  · rw [sub_self, Int.toNat_zero, Nat.shiftLeft_zero]
    exact (Nat.mod_lt _ (Nat.pos_of_ne_zero hzero)).trans hk

theorem remainder_exact (hx : parts x = .finite negative m e) {t : Bool}
    (hy : parts y = .finite t k f) (hk : k ≠ 0) : IsRemainder x y (Floor.remainder x y) := by
  have hc := canonical_parts hx
  have hc' := canonical_parts hy
  obtain ⟨q, hq⟩ : ∃ q, q = if e < f then e else f := ⟨_, rfl⟩
  have hlower : (q = e ∨ q = f) ∧ q ≤ e ∧ q ≤ f := by omega
  obtain ⟨hqef, hqe, hqf⟩ := hlower
  have hshort := remainder_lt hc.significand_lt hc'.significand_lt hk hqef
  have hlast : k <<< (f - q).toNat ≠ 0 := shiftLeft_ne_zero hk _
  have hleast : -1074 ≤ q := by
    rcases hqef with rfl | rfl
    · exact hc.least
    · exact hc'.least
  obtain ⟨hr, hsign⟩ := ofBinary_short negative hshort hleast (hqe.trans hc.greatest)
  have hremainder : Floor.remainder x y =
      ofBinary negative ((m <<< (e - q).toNat) % (k <<< (f - q).toNat)) q := by
    unfold Floor.remainder
    rw [hx, hy, hq]
    exact if_neg hk
  obtain ⟨j, hj⟩ := signed_div_mod negative t (m <<< (e - q).toNat) (k <<< (f - q).toNat) (2 ^ q)
  rw [shiftLeft_mul_zpow hqe, shiftLeft_mul_zpow hqf] at hj
  rw [hremainder]
  refine .exact j (value?_eq_some_iff.mpr ⟨_, _, _, hx, rfl⟩)
    (value?_eq_some_iff.mpr ⟨_, _, _, hy, rfl⟩) hr hj ?_ (hsign.trans (negative_iff hx).symm)
  have hpos : (0 : ℚ) < 2 ^ q := zpow_pos two_pos q
  have hlt := Nat.mod_lt (m <<< (e - q).toNat) (Nat.pos_of_ne_zero hlast)
  rw [abs_signed, abs_signed, ← shiftLeft_mul_zpow hqf, abs_mul, abs_mul, Nat.abs_cast, Nat.abs_cast]
  exact mul_lt_mul_of_pos_right (by exact_mod_cast hlt) (abs_pos.mpr hpos.ne')

theorem remainder_isRemainder (hy : ¬y == 0) : IsRemainder x y (Floor.remainder x y) := by
  have hnan : (nan == nan) = false := by decide
  cases hpx : parts x with
  | nan | infinite s =>
    have hremainder : Floor.remainder x y = nan := by
      unfold Floor.remainder
      rw [hpx]
    rw [hremainder]
    exact .nan (Or.inl (by rw [value?, hpx])) hnan
  | finite s m e =>
    have hvalue : value? x = some (signed s (m * 2 ^ e)) := by rw [value?, hpx]
    cases hpy : parts y with
    | finite t k f => exact remainder_exact hpx hpy (significand_ne_zero hy hpy)
    | infinite t =>
      have hremainder : Floor.remainder x y = x := by
        unfold Floor.remainder
        rw [hpx, hpy]
      rw [hremainder]
      exact .infinite hvalue (by rw [value?, hpy]) (beq_self_iff.mpr (by simp [isNaN, hpy]))
    | nan =>
      have hremainder : Floor.remainder x y = nan := by
        unfold Floor.remainder
        rw [hpx, hpy]
      have hself : (y == y) = false := by
        rw [← Bool.not_eq_true, beq_self_iff]
        simp [isNaN, hpy]
      rw [hremainder]
      exact .nan (Or.inr hself) hnan

theorem nonneg_or_nonpos (hx : value? x = some v) (hy : value? y = some w)
    (h : Negative x ↔ Negative y) : 0 ≤ v ∧ 0 ≤ w ∨ v ≤ 0 ∧ w ≤ 0 := by
  obtain ⟨s, m, e, hpx, rfl⟩ := value?_eq_some_iff.mp hx
  obtain ⟨t, k, f, hpy, rfl⟩ := value?_eq_some_iff.mp hy
  obtain rfl : s = t := by
    rwa [negative_iff hpx, negative_iff hpy, ← Bool.eq_iff_iff] at h
  have hv : (0 : ℚ) ≤ m * 2 ^ e := by positivity
  have hw : (0 : ℚ) ≤ k * 2 ^ f := by positivity
  cases s
  · exact Or.inl ⟨hv, hw⟩
  · exact Or.inr ⟨neg_nonpos.mpr hv, neg_nonpos.mpr hw⟩

/-- There is one remainder of each sign. -/
theorem eq_of_remainders {i j : Int} (h : i * b + v = j * b + w) (hv : |v| < |b|) (hw : |w| < |b|)
    (hsign : 0 ≤ v ∧ 0 ≤ w ∨ v ≤ 0 ∧ w ≤ 0) : v = w := by
  have hdifference : v - w = (j - i : Int) * b := by
    push_cast
    linarith
  have hshort : |v - w| < |b| := by
    rcases hsign with ⟨hv', hw'⟩ | ⟨hv', hw'⟩
    · rw [abs_of_nonneg hv'] at hv
      rw [abs_of_nonneg hw'] at hw
      exact abs_sub_lt_of_nonneg_of_lt hv' hv hw' hw
    · rw [abs_of_nonpos hv'] at hv
      rw [abs_of_nonpos hw'] at hw
      rw [← neg_sub_neg]
      exact abs_sub_lt_of_nonneg_of_lt (neg_nonneg.mpr hw') hw (neg_nonneg.mpr hv') hv
  have hzero : j - i = 0 := by
    by_contra hne
    have hone : (1 : ℚ) ≤ |((j - i : Int) : ℚ)| := by
      exact_mod_cast Int.one_le_abs hne
    rw [hdifference, abs_mul] at hshort
    exact absurd hshort (not_lt.mpr (le_mul_of_one_le_left (abs_nonneg b) hone))
  rw [hzero, Int.cast_zero, zero_mul, sub_eq_zero] at hdifference
  exact hdifference

theorem beq_self_of_value? (h : value? x = some v) : (x == x) = true :=
  beq_self_iff.mpr (isNaN_of_value? h)

theorem eq_of_not_beq_self (hx : (x == x) = false) (hy : (y == y) = false) : x = y := by
  rw [← Bool.not_eq_true, beq_self_iff, Bool.not_eq_false] at hx hy
  exact eq_of_isNaN hx hy

theorem IsRemainder.unique (h : IsRemainder x y r) (h' : IsRemainder x y z) : r = z := by
  cases h with
  | exact i hx hy hr hi hlt hsign =>
    cases h' with
    | exact j hx' hy' hz hj hlt' hsign' =>
      obtain rfl := Option.some.inj (hx.symm.trans hx')
      obtain rfl := Option.some.inj (hy.symm.trans hy')
      have hsame := hsign.trans hsign'.symm
      have heq := eq_of_remainders (hi.symm.trans hj) hlt hlt' (nonneg_or_nonpos hr hz hsame)
      exact eq_of_value? hr (heq ▸ hz) hsame
    | infinite hx' hy' => simp [hy] at hy'
    | nan hnone => simp [hx, beq_self_of_value? hy] at hnone
  | infinite hx hy hself =>
    cases h' with
    | exact j hx' hy' => simp [hy] at hy'
    | infinite => rfl
    | nan hnone => simp [hx, hself] at hnone
  | nan hnone hr =>
    cases h' with
    | exact j hx hy => simp [hx, beq_self_of_value? hy] at hnone
    | infinite hx hy hself => simp [hx, hself] at hnone
    | nan hnone' hz => exact eq_of_not_beq_self hr hz

theorem IsModulo.unique (h : IsModulo x y r) (h' : IsModulo x y z) : r = z := by
  obtain ⟨u, hu, rfl⟩ := h
  obtain ⟨u', hu', rfl⟩ := h'
  rw [hu.unique hu']

theorem modulo_isModulo (hy : ¬y == 0) : IsModulo x y (Floor.modulo x y) := by
  refine ⟨Floor.remainder x y, remainder_isRemainder hy, ?_⟩
  have hcorrects : (Floor.remainder x y != 0 && (Floor.remainder x y < 0) != (y < 0)) = true ↔
      (Floor.remainder x y == 0) = false ∧ ¬(Floor.remainder x y < 0 ↔ y < 0) := by
    simp [bne]
  unfold Floor.modulo
  simp only [hcorrects]

theorem lt_eq_unpacked (x y : Float) : x < y ↔ x.toModel.unpack.lt y.toModel.unpack = true := by
  change Float.lt x y = true ↔ _
  unfold Float.lt
  rw [decide_eq_true_iff]
  exact Iff.rfl

/-- The unpacked form shows the sign of the number. -/
theorem unpack_of_value? (h : value? x = some v) :
    (∃ s, x.toModel.unpack = .zero s ∧ v = 0) ∨
      ∃ m e hm, x.toModel.unpack = .finite .positive m e hm ∧ 0 < v ∨
        x.toModel.unpack = .finite .negative m e hm ∧ v < 0 := by
  rw [value?, parts_eq] at h
  cases hx : x.toModel.unpack with
  | notANumber | infinity s =>
    rw [hx] at h
    cases h
  | zero s =>
    rw [hx] at h
    cases h
    exact Or.inl ⟨s, rfl, by simp [signed]⟩
  | finite s m e hm =>
    rw [hx] at h
    cases h
    have hpos : (0 : ℚ) < m * 2 ^ e := mul_pos (Nat.cast_pos.mpr hm) (zpow_pos two_pos e)
    cases s with
    | positive => exact Or.inr ⟨m, e, hm, Or.inl ⟨rfl, hpos⟩⟩
    | negative => exact Or.inr ⟨m, e, hm, Or.inr ⟨rfl, neg_neg_iff_pos.mpr hpos⟩⟩

theorem lt_zero_iff (h : value? x = some v) : x < 0 ↔ v < 0 := by
  have hzero : (0 : Float).toModel.unpack = .zero .positive := by rfl
  rw [lt_eq_unpacked, hzero]
  rcases unpack_of_value? h with ⟨s, hx, rfl⟩ | ⟨m, e, hm, ⟨hx, hv⟩ | ⟨hx, hv⟩⟩
  · cases s <;> simp [hx, UnpackedFloat.lt, UnpackedFloat.compare]
  · simp [hx, UnpackedFloat.lt, UnpackedFloat.compare, hv.le]
  · simp [hx, UnpackedFloat.lt, UnpackedFloat.compare, hv]

theorem beq_zero_iff_value (h : value? x = some v) : (x == 0) = true ↔ v = 0 := by
  rw [beq_zero_iff]
  rcases unpack_of_value? h with ⟨s, hx, rfl⟩ | ⟨m, e, hm, ⟨hx, hv⟩ | ⟨hx, hv⟩⟩
  · exact iff_of_true ⟨s, hx⟩ rfl
  · simp [hx, hv.ne']
  · simp [hx, hv.ne]

theorem floor_div_of_lt (h : |c| < |b|) : ⌊c / b⌋ = if c / b < 0 then -1 else 0 := by
  have hshort : |c / b| < 1 := by
    rw [abs_div]
    exact (div_lt_one ((abs_nonneg c).trans_lt h)).mpr h
  obtain ⟨hlow, hhigh⟩ := abs_lt.mp hshort
  split
  · rename_i hneg
    rw [Int.floor_eq_iff]
    push_cast
    constructor <;> linarith
  · rename_i hnonneg
    exact Int.floor_eq_zero_iff.mpr ⟨not_lt.mp hnonneg, hhigh⟩

/-- From a remainder that rounds toward zero to the one that goes with the floor. -/
theorem floor_remainder {i : Int} (h : a = i * b + c) (hlt : |c| < |b|) :
    a - b * ⌊a / b⌋ = if c / b < 0 then c + b else c := by
  have hb : b ≠ 0 := abs_pos.mp ((abs_nonneg c).trans_lt hlt)
  have hquotient : a / b = i + c / b := by
    rw [h, add_div, mul_div_cancel_right₀ _ hb]
  rw [hquotient, Int.floor_intCast_add, floor_div_of_lt hlt, h]
  split
  · push_cast
    ring
  · push_cast
    ring

theorem signs_differ_iff (hr : value? r = some c) (hy : value? y = some b) (hb : b ≠ 0) :
    (r == 0) = false ∧ ¬(r < 0 ↔ y < 0) ↔ c / b < 0 := by
  rw [← Bool.not_eq_true, beq_zero_iff_value hr, lt_zero_iff hr, lt_zero_iff hy, div_neg_iff]
  rcases lt_trichotomy c 0 with hc | rfl | hc
  · rcases lt_or_gt_of_ne hb with hb | hb <;> simp [hc, hc.ne, hc.not_gt, hb, hb.not_gt]
  · simp
  · rcases lt_or_gt_of_ne hb with hb | hb <;> simp [hc, hc.ne', hc.not_gt, hb, hb.not_gt]

/-- The remainder of floor division, but for the rounding of one addition. -/
theorem modulo_floor (hx : value? x = some a) (hy : value? y = some b) (hb : b ≠ 0) :
    ∃ r c, value? r = some c ∧
      (Floor.modulo x y = r ∧ c = a - b * ⌊a / b⌋ ∨
        Floor.modulo x y = r + y ∧ c + b = a - b * ⌊a / b⌋) := by
  have hy' : ¬y == 0 := mt (beq_zero_iff_value hy).mp hb
  obtain ⟨r, hr, hmodulo⟩ := modulo_isModulo (x := x) hy'
  cases hr with
  | infinite _ hnone => simp [hy] at hnone
  | nan hnone => simp [hx, beq_self_of_value? hy] at hnone
  | exact i hx' hy' hr hi hlt hsign =>
    rename_i c
    obtain rfl := Option.some.inj (hx.symm.trans hx')
    obtain rfl := Option.some.inj (hy.symm.trans hy')
    rw [floor_remainder hi hlt]
    refine ⟨r, c, hr, ?_⟩
    by_cases hsigns : c / b < 0
    · rw [if_pos ((signs_differ_iff hr hy hb).mpr hsigns)] at hmodulo
      exact Or.inr ⟨hmodulo, (if_pos hsigns).symm⟩
    · rw [if_neg (mt (signs_differ_iff hr hy hb).mp hsigns)] at hmodulo
      exact Or.inl ⟨hmodulo, (if_neg hsigns).symm⟩

end LineMachine.Binary64
