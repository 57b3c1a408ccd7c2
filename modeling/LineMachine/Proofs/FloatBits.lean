import Mathlib
import LineMachine.Number.Binary64

/-! Floats and their bits. A float is determined by its bits and by its parts, and two floats that
compare equal are the same or both zero. -/
namespace LineMachine.Binary64

open Float.Model Float.Model.UnpackedFloat

variable {b : BitVec 64} {x y : Float} {negative : Bool} {m : Nat} {e : Int}

theorem toNat_unpackExponent (b : BitVec 64) :
    (@unpackExponent .binary64 b).toNat = b.toNat / 2 ^ 52 % 2 ^ 11 := by
  simp [unpackExponent, Nat.shiftRight_eq_div_pow]

theorem toNat_unpackMantissa (b : BitVec 64) :
    (@unpackMantissa .binary64 b).toNat = b.toNat % 2 ^ 52 := by
  simp [unpackMantissa]

theorem toNat_unpackSign (b : BitVec 64) :
    (@unpackSign .binary64 b).toNat = b.toNat / 2 ^ 63 := by
  have hb : b.toNat < 2 ^ 64 := b.isLt
  simp only [unpackSign, BitVec.toNat_cast, BitVec.extractLsb_toNat, Nat.shiftRight_eq_div_pow]
  omega

theorem toNat_packComponents (s : Sign) (e : BitVec 11) (m : BitVec 52) :
    (packComponents .binary64 s e m).toNat =
      s.toBitVec.toNat * 2 ^ 63 + e.toNat * 2 ^ 52 + m.toNat := by
  simp only [packComponents, BitVec.toNat_append]
  rw [← Nat.shiftLeft_add_eq_or_of_lt m.isLt, ← Nat.shiftLeft_add_eq_or_of_lt e.isLt]
  simp only [Nat.shiftLeft_eq]
  omega

theorem toBitVec_ofBitVec (v : BitVec 1) : (Sign.ofBitVec v).toBitVec = v := by
  revert v
  decide

theorem packComponents_unpacked (b : BitVec 64) :
    packComponents .binary64 (Sign.ofBitVec (@unpackSign .binary64 b))
      (@unpackExponent .binary64 b) (@unpackMantissa .binary64 b) = b := by
  have hb : b.toNat < 2 ^ 64 := b.isLt
  apply BitVec.eq_of_toNat_eq
  rw [toNat_packComponents, toBitVec_ofBitVec, toNat_unpackSign, toNat_unpackExponent,
    toNat_unpackMantissa]
  omega

theorem pack_subnormal (s : Sign) (m : BitVec 52) {h : 0 < m.toNat} :
    UnpackedFloat.pack .binary64 (.finite s m.toNat (-1074) h) =
      packComponents .binary64 s 0#11 m := by
  have hlog : m.toNat.log2 < 52 := (Nat.log2_lt (by omega)).mpr m.isLt
  unfold UnpackedFloat.pack
  dsimp only
  rw [if_neg (by decide), if_neg, BitVec.ofNat_toNat, BitVec.setWidth_eq]
  change ¬ m.toNat.log2 + 1 = 53
  omega

theorem toNat_implicit (m : BitVec 52) : (1#1 ++ m).toNat = 2 ^ 52 + m.toNat := by
  rw [BitVec.toNat_append, ← Nat.shiftLeft_add_eq_or_of_lt m.isLt]
  rfl

theorem pack_normal (s : Sign) (e : BitVec 11) (m : BitVec 52) (he : e ≠ -1#11)
    {h : 0 < (1#1 ++ m).toNat} :
    UnpackedFloat.pack .binary64 (.finite s (1#1 ++ m).toNat (e.toNat - 1075) h) =
      packComponents .binary64 s e m := by
  have hm : m.toNat < 2 ^ 52 := m.isLt
  have htop : e.toNat ≠ 2047 := fun h => he (BitVec.eq_of_toNat_eq h)
  have hval := toNat_implicit m
  have hlog : (1#1 ++ m).toNat.log2 = 52 := by
    rw [hval, Nat.log2_eq_iff (by omega)]
    omega
  have hbias : ((e.toNat : Int) - 1075 + Format.binary64.exponentBias +
      Format.binary64.mantissaBitsWithoutImplicit).toNat = e.toNat := by
    change ((e.toNat : Int) - 1075 + 1023 + 52).toNat = _
    omega
  unfold UnpackedFloat.pack
  dsimp only
  rw [hbias, hlog, if_neg, if_pos]
  · congr 1
    · simp
    · apply BitVec.eq_of_toNat_eq
      rw [BitVec.toNat_ofNat, hval]
      omega
  · rfl
  · change ¬ 2048 ≤ e.toNat + 1
    omega

/-- Bits survive being taken apart and put together; only one not-a-number is valid. -/
theorem pack_unpack (hb : Format.binary64.Valid b) :
    UnpackedFloat.pack .binary64 (UnpackedFloat.unpack .binary64 b) = b := by
  have hparts := packComponents_unpacked b
  unfold UnpackedFloat.unpack
  dsimp only
  split
  · rename_i hexp
    split
    · rename_i hman
      rw [hexp, hman] at hparts
      exact hparts
    · rename_i hman
      exact (hb.eq_packedNaN hexp hman).symm
  · rename_i htop
    split
    · rename_i hexp
      rw [hexp] at hparts ⊢
      split
      · rename_i hman
        rw [hman] at hparts
        exact hparts
      · exact (pack_subnormal _ _).trans hparts
    · exact (pack_normal _ _ _ htop).trans hparts

theorem ofBits_toBits (x : Float) : Float.ofBits x.toBits = x := by
  obtain ⟨⟨bits, hvalid⟩⟩ := x
  simp only [Float.ofBits, Float.toBits, Float.Model.ofBits, Float.Model.pack, pack_unpack hvalid]

theorem eq_of_unpack (h : x.toModel.unpack = y.toModel.unpack) : x = y := by
  have hx := ofBits_toBits x
  have hy := ofBits_toBits y
  rw [← hx, ← hy]
  exact congrArg (fun u => Float.ofModel (Float.Model.pack u)) h

/-- The parts of a float that is already taken apart. -/
def partsOf : UnpackedFloat → Parts
  | .notANumber => .nan
  | .infinity s => .infinite (s == .negative)
  | .zero s => .finite (s == .negative) 0 (-1074)
  | .finite s m e _ => .finite (s == .negative) m e

theorem ofBitVec_negative (v : BitVec 1) :
    (Sign.ofBitVec v == .negative) = decide (v.toNat = 1) := by
  revert v
  decide

theorem parts_eq (x : Float) : parts x = partsOf x.toModel.unpack := by
  have hb : x.toBits.toNat < 2 ^ 64 := x.toBits.toNat_lt
  have hsign : (@unpackSign .binary64 x.toModel.toBits.toBitVec).toNat = x.toBits.toNat / 2 ^ 63 :=
    toNat_unpackSign x.toBits.toBitVec
  have hexp : (@unpackExponent .binary64 x.toModel.toBits.toBitVec).toNat =
      (x.toBits.toNat >>> 52) % 2048 := by
    rw [Nat.shiftRight_eq_div_pow]
    exact toNat_unpackExponent x.toBits.toBitVec
  have hman : (@unpackMantissa .binary64 x.toModel.toBits.toBitVec).toNat =
      x.toBits.toNat % hidden := toNat_unpackMantissa x.toBits.toBitVec
  have hnegative : (Sign.ofBitVec (@unpackSign .binary64 x.toModel.toBits.toBitVec) == .negative) =
      decide (1 <<< 63 ≤ x.toBits.toNat) := by
    rw [ofBitVec_negative, hsign]
    apply decide_eq_decide.mpr
    change _ ↔ 2 ^ 63 ≤ _
    omega
  have hbias : Format.binary64.exponentBias = 1023 := by decide
  have htop (v : BitVec 11) : v = -1#11 ↔ v.toNat = 2047 := BitVec.toNat_inj.symm
  have hlow (v : BitVec 11) : v = 0#11 ↔ v.toNat = 0 := BitVec.toNat_inj.symm
  have hnone (v : BitVec 52) : v = 0#52 ↔ v.toNat = 0 := BitVec.toNat_inj.symm
  unfold Float.Model.unpack UnpackedFloat.unpack parts
  simp only [htop, hlow, hnone, hexp, hman, toNat_implicit, hbias]
  split
  · split
    · exact congrArg Parts.infinite hnegative.symm
    · rfl
  · split
    · rename_i hfield
      rw [← hnegative]
      split
      · rename_i hfraction
        rw [hfraction]
        rfl
      · rw [hfield]
        rfl
    · rw [← hnegative]
      rfl

theorem compare_sign (s t : Sign) : compare s t = .eq ↔ s = t := by
  cases s <;> cases t <;> simp <;> decide

/-- Zeros are equal whatever their signs, and not-a-number equals nothing. -/
theorem unpacked_beq_iff (u v : UnpackedFloat) : u.beq v = true ↔
    (u = v ∧ u ≠ .notANumber) ∨ (∃ s, u = .zero s) ∧ ∃ t, v = .zero t := by
  unfold UnpackedFloat.beq
  rw [beq_iff_eq]
  cases u with
  | notANumber => cases v <;> simp [UnpackedFloat.compare]
  | infinity s =>
    cases v with
    | infinity t => simpa [UnpackedFloat.compare] using compare_sign s t
    | _ => cases s <;> simp [UnpackedFloat.compare]
  | zero s =>
    cases v with
    | infinity t | finite t => cases t <;> simp [UnpackedFloat.compare]
    | notANumber | zero t => simp [UnpackedFloat.compare]
  | finite s m e h =>
    cases v with
    | infinity t => cases t <;> simp [UnpackedFloat.compare]
    | notANumber | zero t => cases s <;> simp [UnpackedFloat.compare]
    | finite t m e h =>
      cases s <;> cases t <;> simp [UnpackedFloat.compare, Ordering.then_eq_eq, and_comm]

theorem beq_eq_unpacked (x y : Float) : (x == y) = x.toModel.unpack.beq y.toModel.unpack := rfl

theorem isNaN_iff : isNaN x = true ↔ x.toModel.unpack = .notANumber := by
  rw [isNaN, parts_eq, decide_eq_true_iff]
  cases x.toModel.unpack <;> simp [partsOf]

theorem beq_zero_iff : (x == 0) = true ↔ ∃ s, x.toModel.unpack = .zero s := by
  have hzero : (0 : Float).toModel.unpack = .zero .positive := by rfl
  rw [beq_eq_unpacked, unpacked_beq_iff, hzero]
  constructor
  · rintro (⟨h, -⟩ | ⟨h, -⟩)
    · exact ⟨_, h⟩
    · exact h
  · intro h
    exact Or.inr ⟨h, _, rfl⟩

/-- Floats that compare equal are the same, or both are zero. -/
theorem beq_iff : (x == y) = true ↔
    (x = y ∧ isNaN x = false) ∨ (x == 0) = true ∧ (y == 0) = true := by
  rw [beq_eq_unpacked, unpacked_beq_iff, beq_zero_iff, beq_zero_iff, ← Bool.not_eq_true, isNaN_iff]
  constructor
  · rintro (⟨h, hx⟩ | h)
    · exact Or.inl ⟨eq_of_unpack h, hx⟩
    · exact Or.inr h
  · rintro (⟨rfl, hx⟩ | h)
    · exact Or.inl ⟨rfl, hx⟩
    · exact Or.inr h

def negativeZero : Float := ofMagnitude true 0

theorem beq_zero_cases (h : (x == 0) = true) : x = 0 ∨ x = negativeZero := by
  obtain ⟨s, hs⟩ := beq_zero_iff.mp h
  cases s with
  | positive => exact Or.inl (eq_of_unpack (hs.trans rfl))
  | negative => exact Or.inr (eq_of_unpack (hs.trans rfl))

/-- The two zeros are the same, and so is not-a-number with itself. -/
def Same (x y : Float) : Prop := (x == y) = true ∨ isNaN x = true ∧ isNaN y = true

/-- The positive zero for both zeros. -/
def canonical (x : Float) : Float := if x == 0 then 0 else x

theorem canonical_cases (x : Float) : canonical x = x ∨ x = negativeZero ∧ canonical x = 0 := by
  unfold canonical
  split
  · rename_i hx
    rcases beq_zero_cases hx with rfl | rfl
    · exact Or.inl rfl
    · exact Or.inr ⟨rfl, rfl⟩
  · exact Or.inl rfl

theorem eq_of_isNaN (hx : isNaN x = true) (hy : isNaN y = true) : x = y :=
  eq_of_unpack ((isNaN_iff.mp hx).trans (isNaN_iff.mp hy).symm)

theorem same_refl (x : Float) : Same x x := by
  cases hx : isNaN x with
  | true => exact Or.inr ⟨hx, hx⟩
  | false => exact Or.inl (beq_iff.mpr (Or.inl ⟨rfl, hx⟩))

theorem same_canonical (x : Float) : Same x (canonical x) := by
  unfold canonical
  split
  · rename_i hx
    exact Or.inl hx
  · exact same_refl x

theorem canonical_eq_iff : canonical x = canonical y ↔ Same x y := by
  have hzero : ((0 : Float) == 0) = true := by decide
  constructor
  · unfold canonical
    intro h
    split at h <;> split at h
    · exact Or.inl (beq_iff.mpr (Or.inr ⟨‹_›, ‹_›⟩))
    · subst h
      contradiction
    · subst h
      contradiction
    · subst h
      exact same_refl x
  · rintro (h | ⟨hx, hy⟩)
    · rcases beq_iff.mp h with ⟨rfl, -⟩ | ⟨hx, hy⟩
      · rfl
      · rw [canonical, canonical, if_pos hx, if_pos hy]
    · rw [eq_of_isNaN hx hy]

end LineMachine.Binary64
