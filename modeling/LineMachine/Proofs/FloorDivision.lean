import Mathlib.Data.Rat.Floor
import LineMachine.Proofs.StackLocality

/-! Floor division of words. Division that rounds toward zero and its remainder are corrected where the
signs differ. What comes out is the quotient of the integers, rounded down, and the remainder that goes
with it; only the quotient of the least word by minus one does not fit a word. -/
namespace LineMachine

namespace Floor

section Integers

variable {x y : Int}

/-- Rounding down differs from rounding toward zero where the quotient is negative and not whole. -/
theorem fdiv_eq_corrected (hy : y ≠ 0) : x.fdiv y =
    if ¬y ∣ x ∧ ¬(x < 0 ↔ y < 0) then x.tdiv y - 1 else x.tdiv y := by
  rw [Int.fdiv_eq_tdiv]
  by_cases hdvd : y ∣ x
  · simp [hdvd]
  · rcases Int.lt_or_gt_of_ne hy with hneg | hpos
    · by_cases hx : 0 ≤ x <;> simp [hdvd, hneg, hx, Int.sign_eq_neg_one_of_neg]
    · by_cases hx : 0 ≤ x <;> simp [hdvd, hpos, hx, Int.sign_eq_one_of_pos] <;> omega

theorem fmod_eq_corrected (hy : y ≠ 0) : x.fmod y =
    if ¬y ∣ x ∧ ¬(x < 0 ↔ y < 0) then x.tmod y + y else x.tmod y := by
  have hdiv := fdiv_eq_corrected (x := x) hy
  rw [Int.fmod_def, Int.tmod_def, hdiv]
  split
  · rw [Int.mul_sub]
    omega
  · rfl

/-- A remainder that rounds toward zero has the sign of the dividend. -/
theorem tmod_lt_zero_iff (hdvd : ¬y ∣ x) : x.tmod y < 0 ↔ x < 0 := by
  have hsign := Int.sign_tmod x y
  rw [if_neg hdvd] at hsign
  rw [← Int.sign_eq_neg_one_iff_neg, hsign, Int.sign_eq_neg_one_iff_neg]

theorem fmod_bounds_of_neg (x : Int) (hy : y < 0) : y < x.fmod y ∧ x.fmod y ≤ 0 := by
  have hpos : 0 < -y := by omega
  have hlower := Int.fmod_nonneg_of_pos (-x) hpos
  have hupper := Int.fmod_lt_of_pos (-x) hpos
  rw [Int.neg_fmod_neg] at hlower hupper
  omega

/-- Of words, one quotient is no word. -/
theorem fdiv_bounds (hy : y ≠ 0) (hlower : -2 ^ 63 ≤ x) (hupper : x < 2 ^ 63)
    (hfits : ¬(x = -2 ^ 63 ∧ y = -1)) : -2 ^ 63 ≤ x.fdiv y ∧ x.fdiv y < 2 ^ 63 := by
  rcases Int.lt_or_gt_of_ne hy with hneg | hpos
  · have hpos : 0 < -y := by omega
    rw [← Int.neg_fdiv_neg, Int.fdiv_eq_ediv_of_nonneg _ (Int.le_of_lt hpos),
      Int.le_ediv_iff_mul_le hpos, Int.ediv_lt_iff_lt_mul hpos]
    omega
  · rw [Int.fdiv_eq_ediv_of_nonneg _ (Int.le_of_lt hpos), Int.le_ediv_iff_mul_le hpos,
      Int.ediv_lt_iff_lt_mul hpos]
    omega

theorem fdiv_eq_floor (hy : y ≠ 0) : x.fdiv y = ⌊(x : ℚ) / y⌋ := by
  rcases Int.lt_or_gt_of_ne hy with hneg | hpos
  · obtain ⟨d, hd⟩ : ∃ d : Nat, -y = d := Int.eq_ofNat_of_zero_le (by omega)
    have hy' : y = -(d : Int) := by omega
    rw [← Int.neg_fdiv_neg, hd, Int.fdiv_eq_ediv_of_nonneg _ (Int.natCast_nonneg d),
      ← Rat.floor_intCast_div_natCast, hy']
    push_cast
    rw [neg_div, div_neg]
  · obtain ⟨d, rfl⟩ : ∃ d : Nat, y = d := Int.eq_ofNat_of_zero_le (by omega)
    rw [Int.fdiv_eq_ediv_of_nonneg _ (Int.natCast_nonneg d), ← Rat.floor_intCast_div_natCast]
    push_cast
    rfl

end Integers

variable {a b : Int64}

theorem toInt_ne_zero (hb : b ≠ 0) : b.toInt ≠ 0 := by
  intro h
  exact hb (Int64.toInt_inj.mp h)

theorem lt_zero_iff : a < 0 ↔ a.toInt < 0 := Int64.lt_iff_toInt_lt

theorem mod_ne_zero_iff : a % b ≠ 0 ↔ ¬b.toInt ∣ a.toInt := by
  rw [Int.dvd_iff_tmod_eq_zero, ← Int64.toInt_mod, ← Int64.toInt_zero, Int64.toInt_inj]

theorem div_eq_ofInt_tdiv (a b : Int64) : a / b = Int64.ofInt (a.toInt.tdiv b.toInt) := by
  rw [← Int64.toInt_inj, Int64.toInt_div, Int64.toInt_ofInt]

theorem mod_eq_ofInt_tmod (a b : Int64) : a % b = Int64.ofInt (a.toInt.tmod b.toInt) := by
  rw [← Int64.toInt_mod, Int64.ofInt_toInt]

theorem div_corrects_iff : (a % b ≠ 0 ∧ decide (a < 0) ≠ decide (b < 0)) ↔
    ¬b.toInt ∣ a.toInt ∧ ¬(a.toInt < 0 ↔ b.toInt < 0) := by
  rw [mod_ne_zero_iff, ← lt_zero_iff, ← lt_zero_iff, ne_eq, decide_eq_decide]

/-- The sign that is tested is that of the remainder, which is that of the dividend. -/
theorem mod_corrects_iff : (a % b ≠ 0 ∧ decide (a % b < 0) ≠ decide (b < 0)) ↔
    ¬b.toInt ∣ a.toInt ∧ ¬(a.toInt < 0 ↔ b.toInt < 0) := by
  rw [mod_ne_zero_iff, ne_eq, decide_eq_decide, lt_zero_iff, lt_zero_iff, Int64.toInt_mod]
  refine and_congr_right fun hdvd => ?_
  rw [tmod_lt_zero_iff hdvd]

theorem div_eq_ofInt (hb : b ≠ 0) : div a b = Int64.ofInt (a.toInt.fdiv b.toInt) := by
  unfold div
  rw [fdiv_eq_corrected (toInt_ne_zero hb), div_eq_ofInt_tdiv]
  simp only [div_corrects_iff]
  split
  · exact (Int64.ofInt_sub _ 1).symm
  · rfl

theorem mod_eq_ofInt (hb : b ≠ 0) : mod a b = Int64.ofInt (a.toInt.fmod b.toInt) := by
  unfold mod
  rw [fmod_eq_corrected (toInt_ne_zero hb)]
  simp only [mod_corrects_iff]
  split
  · rw [Int64.ofInt_add, Int64.ofInt_toInt, mod_eq_ofInt_tmod]
  · exact mod_eq_ofInt_tmod a b

/-- The remainder lies between zero and the divisor, so it is a word. -/
theorem toInt_mod (hb : b ≠ 0) : (mod a b).toInt = a.toInt.fmod b.toInt := by
  have hlower := b.le_toInt
  have hupper := b.toInt_lt
  rw [mod_eq_ofInt hb]
  rcases Int.lt_or_gt_of_ne (toInt_ne_zero hb) with hneg | hpos
  · have hbounds := fmod_bounds_of_neg a.toInt hneg
    exact Int64.toInt_ofInt_of_le (by omega) (by omega)
  · have hnonneg := Int.fmod_nonneg_of_pos a.toInt hpos
    have hlt := Int.fmod_lt_of_pos a.toInt hpos
    exact Int64.toInt_ofInt_of_le (by omega) (by omega)

/-- The correction of the remainder is an addition that does not wrap. -/
theorem mod_cases (hb : b ≠ 0) : mod a b = a % b ∨
    mod a b = a % b + b ∧ (a % b + b).toInt = (a % b).toInt + b.toInt := by
  by_cases hc : a % b ≠ 0 ∧ decide (a % b < 0) ≠ decide (b < 0)
  · have hsum : mod a b = a % b + b := if_pos hc
    refine Or.inr ⟨hsum, ?_⟩
    rw [← hsum, toInt_mod hb, Int64.toInt_mod, fmod_eq_corrected (toInt_ne_zero hb),
      if_pos (mod_corrects_iff.mp hc)]
  · exact Or.inl (if_neg hc)

theorem toInt_div (hb : b ≠ 0) (hfits : ¬(a = Int64.minValue ∧ b = -1)) :
    (div a b).toInt = a.toInt.fdiv b.toInt := by
  have hfits' : ¬(a.toInt = -2 ^ 63 ∧ b.toInt = -1) := by
    rintro ⟨ha, hb⟩
    exact hfits ⟨Int64.toInt_inj.mp ha, Int64.toInt_inj.mp hb⟩
  have hbounds := fdiv_bounds (toInt_ne_zero hb) a.le_toInt a.toInt_lt hfits'
  rw [div_eq_ofInt hb, Int64.toInt_ofInt_of_le hbounds.1 hbounds.2]

theorem div_mul_add_mod (hb : b ≠ 0) : div a b * b + mod a b = a := by
  calc div a b * b + mod a b
    _ = Int64.ofInt (a.toInt.fdiv b.toInt * b.toInt + a.toInt.fmod b.toInt) := by
      rw [Int64.ofInt_add, Int64.ofInt_mul, Int64.ofInt_toInt, div_eq_ofInt hb, mod_eq_ofInt hb]
    _ = a := by rw [Int.fdiv_mul_add_fmod, Int64.ofInt_toInt]

end Floor

namespace Machine

variable {m : Machine} {i : Instruction} {a b : Int64} {rest : List Value}

/-- Arithmetic on two words replaces them by a word. -/
theorem stack_arith_words {op : Arith} (hop : i.op = .arith op)
    (hs : m.stack = .int b :: .int a :: rest) :
    (m.execute i).stack = .int (op.onWords a b) :: rest := by
  have hresult : op.result? (.int a) (.int b) = some (.int (op.onWords a b)) := by
    cases op <;> rfl
  have hchange : m.change i = { takes := 2, pushes := [.int (op.onWords a b)] } := by
    simp only [change, hop, binaryChange, valueAt, hs, List.getD_cons_zero, List.getD_cons_succ,
      hresult]
    rfl
  rw [execute_stack, hchange, hs]
  rfl

end Machine

open Floor in
/-- The quotient is the largest integer not above the exact one, unless that is no word; the remainder is
smaller than the divisor and has its sign, and its correction does not wrap. They give the dividend again, and
so do the results that a machine pushes. -/
theorem floor_division_recombines (a b : Int64) (hb : b ≠ 0) :
    (0 < b → 0 ≤ (mod a b).toInt ∧ (mod a b).toInt < b.toInt) ∧
      (b < 0 → b.toInt < (mod a b).toInt ∧ (mod a b).toInt ≤ 0) ∧
      b.toInt ∣ a.toInt - (mod a b).toInt ∧
      (mod a b = a % b ∨
        mod a b = a % b + b ∧ (a % b + b).toInt = (a % b).toInt + b.toInt) ∧
      (¬(a = Int64.minValue ∧ b = -1) → (div a b).toInt = ⌊(a.toInt : ℚ) / b.toInt⌋) ∧
      (a = Int64.minValue → b = -1 → div a b = Int64.minValue) ∧
      div a b * b + mod a b = a ∧
      ∀ (m : Machine) (i j : Instruction) (rest : List Value),
        m.stack = .int b :: .int a :: rest → i.op = .arith .div → j.op = .arith .mod →
          ∃ q r : Int64, (m.execute i).stack = .int q :: rest ∧
            (m.execute j).stack = .int r :: rest ∧ q * b + r = a := by
  have hmod := toInt_mod (a := a) hb
  refine ⟨?_, ?_, ?_, mod_cases hb, ?_, ?_, div_mul_add_mod hb, ?_⟩
  · intro hpos
    have hpos : 0 < b.toInt := Int64.lt_iff_toInt_lt.mp hpos
    rw [hmod]
    exact ⟨Int.fmod_nonneg_of_pos _ hpos, Int.fmod_lt_of_pos _ hpos⟩
  · intro hneg
    rw [hmod]
    exact fmod_bounds_of_neg _ (lt_zero_iff.mp hneg)
  · rw [hmod]
    exact Int.dvd_self_sub_fmod
  · intro hfits
    rw [toInt_div hb hfits, fdiv_eq_floor (toInt_ne_zero hb)]
  · rintro rfl rfl
    decide
  · intro m i j rest hs hi hj
    refine ⟨_, _, Machine.stack_arith_words hi hs, Machine.stack_arith_words hj hs, ?_⟩
    simp only [Arith.onWords, if_neg hb]
    exact div_mul_add_mod hb

/-- The quotient that is no word, and a remainder that has to be corrected. -/
theorem floor_division_recombines_corrected :
    let m : Machine := { program := ⟨[], #[], ∅⟩, stack := [.int (-2), .int 7, .str []] }
    let i : Instruction := ⟨.arith .div, text "/", [], text "/", 1, []⟩
    let j : Instruction := ⟨.arith .mod, text "%", [], text "%", 2, []⟩
    (-1 : Int64) ≠ 0 ∧ Floor.div Int64.minValue (-1) = Int64.minValue ∧
      (-2 : Int64) ≠ 0 ∧ (-2 : Int64) < 0 ∧
      (-2 : Int64).toInt < (Floor.mod 7 (-2)).toInt ∧ (Floor.mod 7 (-2)).toInt ≤ 0 ∧
      (Floor.div 7 (-2)).toInt = ⌊((7 : Int64).toInt : ℚ) / (-2 : Int64).toInt⌋ ∧
      ∃ q r : Int64, (m.execute i).stack = [.int q, .str []] ∧
        (m.execute j).stack = [.int r, .str []] ∧ q * -2 + r = 7 := by
  intro m i j
  have hleast : (-1 : Int64) ≠ 0 := by decide
  have hodd : (-2 : Int64) ≠ 0 := by decide
  obtain ⟨-, -, -, -, -, hexception, -⟩ := floor_division_recombines Int64.minValue (-1) hleast
  obtain ⟨-, hneg, -, -, hfloor, -, -, hpushed⟩ := floor_division_recombines 7 (-2) hodd
  obtain ⟨hlower, hupper⟩ := hneg (by decide)
  exact ⟨hleast, hexception rfl rfl, hodd, by decide, hlower, hupper, hfloor (by decide),
    hpushed m i j [.str []] rfl rfl rfl⟩

end LineMachine
