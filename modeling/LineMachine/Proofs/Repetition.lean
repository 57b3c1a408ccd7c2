import LineMachine.Proofs.OperatorTable

/-! Strings are repeated up to a length, which is compared with the exact product of count and length. The
order of the operands does not matter, and the copies of a sum of counts are those of the one after those
of the other. -/
namespace LineMachine

open Value (IsInteger)

/-- The copies of a string one after the other, if they are not too long together. -/
def Bytes.copies? (s : Bytes) (n : Int) : Option Bytes :=
  if n ≤ 0 ∨ s = [] then some []
  else if n * s.length ≤ 2 ^ 24 then some (List.replicate n.toNat s).flatten
  else none

namespace Bytes

variable {s : Bytes} {m n : Int}

/-- The same with a count that is cut off at zero. -/
theorem copies?_eq (s : Bytes) (n : Int) : s.copies? n =
    if n.toNat * s.length ≤ 2 ^ 24 then some (List.replicate n.toNat s).flatten else none := by
  unfold copies?
  by_cases hnone : n ≤ 0 ∨ s = []
  · have hempty : n.toNat * s.length = 0 ∧ (List.replicate n.toNat s).flatten = [] := by
      rcases hnone with hn | rfl
      · simp [Int.toNat_of_nonpos hn]
      · simp
    obtain ⟨hzero, hnil⟩ := hempty
    rw [if_pos hnone, hzero, hnil, if_pos (Nat.zero_le _)]
  · obtain ⟨k, rfl⟩ := Int.eq_ofNat_of_zero_le (show 0 ≤ n by omega)
    rw [if_neg hnone, Int.toNat_natCast]
    norm_cast

theorem length_copies (s : Bytes) (k : Nat) :
    (List.replicate k s).flatten.length = k * s.length := by
  simp

theorem copies?_of_fits (hn : 0 ≤ n) (h : n * s.length ≤ 2 ^ 24) :
    s.copies? n = some (List.replicate n.toNat s).flatten := by
  obtain ⟨k, rfl⟩ := Int.eq_ofNat_of_zero_le hn
  rw [copies?_eq, if_pos (by exact_mod_cast h)]

theorem copies?_add (hm : 0 ≤ m) (hn : 0 ≤ n) (h : (m + n) * s.length ≤ 2 ^ 24) :
    ∃ x y, s.copies? m = some x ∧ s.copies? n = some y ∧ s.copies? (m + n) = some (x ++ y) := by
  have hsum : m * s.length + n * s.length ≤ 2 ^ 24 := by rwa [← Int.add_mul]
  have hleft : 0 ≤ m * s.length := Int.mul_nonneg hm (Int.natCast_nonneg _)
  have hright : 0 ≤ n * s.length := Int.mul_nonneg hn (Int.natCast_nonneg _)
  refine ⟨_, _, copies?_of_fits hm (by omega), copies?_of_fits hn (by omega), ?_⟩
  rw [copies?_of_fits (Int.add_nonneg hm hn) h, Int.toNat_add hm hn, List.replicate_add,
    List.flatten_append]

end Bytes

namespace Operator

variable {a b v : Value} {s t : Bytes} {n : Int}

/-- Only repetition makes strings by multiplication. -/
theorem length_le_of_gives (h : Gives (.arith .mul) a b (.str t)) : t.length ≤ 2 ^ 24 := by
  cases h with
  | repeat_left hn hfits => rwa [Bytes.length_copies]
  | repeat_right hn hfits => rwa [Bytes.length_copies]

theorem result?_repeat_left (h : IsInteger v n) :
    (arith .mul).result? (.str s) v = (s.copies? n).map .str := by
  rw [result?, Arith.result?_repeat_left h, Value.repeated?_eq, h.toInt_ofInt, Bytes.copies?_eq]
  split <;> rfl

theorem result?_repeat_right (h : IsInteger v n) :
    (arith .mul).result? v (.str s) = (s.copies? n).map .str := by
  rw [← result?_repeat_left h, result?, Arith.result?_repeat_right h, Arith.result?_repeat_left h]

theorem length_le_of_yields (h : Yields (.arith .mul) a b (some (.str t))) : t.length ≤ 2 ^ 24 := by
  have hresult := yields_iff.mp h
  rcases gives_or_mismatched (.arith .mul) a b with ⟨v, hv⟩ | hmismatched
  · rw [result?_of_gives hv] at hresult
    cases hresult
    exact length_le_of_gives hv
  · rw [result?_of_mismatched hmismatched] at hresult
    cases hresult

/-- A string times an integer or a truth value, in either order, is the copies of the string if they have at
most `2 ^ 24` bytes together, and a mismatch otherwise; no multiplication at all makes a longer string. The
copies for two counts that are not negative, one after the other, are those for their sum. -/
theorem repetition_is_bounded :
    (∀ (s : Bytes) (v : Value) (n : Int), IsInteger v n → ∀ r : Option Value,
      (Yields (.arith .mul) (.str s) v r ↔ r = (s.copies? n).map .str) ∧
      (Yields (.arith .mul) v (.str s) r ↔ r = (s.copies? n).map .str)) ∧
    (∀ (a b : Value) (t : Bytes), Yields (.arith .mul) a b (some (.str t)) → t.length ≤ 2 ^ 24) ∧
    ∀ (s : Bytes) (u v w : Value) (m n : Int), IsInteger u m → IsInteger v n → IsInteger w (m + n) →
      0 ≤ m → 0 ≤ n → (m + n) * s.length ≤ 2 ^ 24 → ∃ x y z : Bytes,
        Yields (.arith .mul) (.str s) u (some (.str x)) ∧
        Yields (.arith .mul) (.str s) v (some (.str y)) ∧
        Yields (.arith .mul) (.str s) w (some (.str z)) ∧
        Yields (.arith .add) (.str x) (.str y) (some (.str z)) := by
  refine ⟨?_, fun a b t => length_le_of_yields, ?_⟩
  · intro s v n hv r
    rw [yields_iff, yields_iff, result?_repeat_left hv, result?_repeat_right hv]
    exact ⟨Iff.rfl, Iff.rfl⟩
  · intro s u v w m n hu hv hw hm hn hfits
    obtain ⟨x, y, hx, hy, hz⟩ := Bytes.copies?_add hm hn hfits
    refine ⟨x, y, x ++ y, ?_, ?_, ?_, ?_⟩
    · rw [yields_iff, result?_repeat_left hu, hx, Option.map_some]
    · rw [yields_iff, result?_repeat_left hv, hy, Option.map_some]
    · rw [yields_iff, result?_repeat_left hw, hz, Option.map_some]
    · exact yields_iff.mpr rfl

/-- A truth value as a count, the least count, copies that are two bytes too long, and a sum. -/
theorem repetition_is_bounded_limits :
    Yields (.arith .mul) (.bool true) (.str (text "ab")) (some (.str (text "ab"))) ∧
    Yields (.arith .mul) (.str (text "ab")) (.int Int64.minValue) (some (.str [])) ∧
    Yields (.arith .mul) (.str (text "abc")) (.int 5592406) none ∧
    (∀ a b t, Yields (.arith .mul) a b (some (.str t)) → t.length ≤ 2 ^ 24) ∧
    ∃ x y z : Bytes, Yields (.arith .mul) (.str (text "ab")) (.int 2) (some (.str x)) ∧
      Yields (.arith .mul) (.str (text "ab")) (.bool true) (some (.str y)) ∧
      Yields (.arith .mul) (.str (text "ab")) (.int 3) (some (.str z)) ∧
      Yields (.arith .add) (.str x) (.str y) (some (.str z)) := by
  obtain ⟨hrepeat, hbound, hsum⟩ := repetition_is_bounded
  refine ⟨?_, ?_, ?_, hbound, ?_⟩
  · exact (hrepeat _ _ _ (.bool true) _).2.mpr (by decide)
  · exact (hrepeat _ _ _ (.int Int64.minValue) _).1.mpr (by decide)
  · exact (hrepeat _ _ _ (.int 5592406) _).1.mpr (by decide)
  · exact hsum _ _ _ _ _ _ (.int 2) (.bool true) (.int 3) (by decide) (by decide) (by decide)

end Operator

end LineMachine
