import LineMachine.Proofs.FloatRemainders
import LineMachine.Proofs.FloorDivision
import LineMachine.Proofs.Reporting

/-! The table of the operators on two values: which kinds of values go together, and what comes out. Every
pair of values has either one result or a mismatch, and a machine pushes the one or reports the other. -/
namespace LineMachine

/-- The operators that take two values from the stack. -/
inductive Operator where
  | arith (op : Arith)
  | bitwise (op : Bitwise)
  | compare (op : Comparison)
  deriving DecidableEq

namespace Operator

def opcode : Operator → Opcode
  | arith op => .arith op
  | bitwise op => .bitwise op
  | compare op => .compare op

def result? : Operator → Value → Value → Option Value
  | arith op => op.result?
  | bitwise op => op.result?
  | compare op => op.result?

end Operator

/-- What arithmetic on integers would give without a limit to their size. -/
def Arith.exact (op : Arith) (m n : Int) : Int :=
  match op with
  | add => m + n
  | sub => m - n
  | mul => m * n
  | div => m.fdiv n
  | mod => m.fmod n

/-- What arithmetic on floats gives. Only floors and remainders are more than one operation. -/
def Arith.Makes (op : Arith) (x y z : Float) : Prop :=
  match op with
  | add => z = x + y
  | sub => z = x - y
  | mul => z = x * y
  | div => Binary64.IsFloor (x / y) z
  | mod => Binary64.IsModulo x y z

def Bitwise.onBits (op : Bitwise) (p q : Bool) : Bool :=
  match op with
  | and => p && q
  | or => p || q
  | xor => p != q

/-- The relation that a comparison asks for. Lists of bytes are ordered like words in a dictionary. -/
def Comparison.Asks {α : Type} [LT α] (op : Comparison) (x y : α) : Prop :=
  match op with
  | greater => y < x
  | less => x < y
  | equal => x = y

instance {α : Type} [LT α] [DecidableLT α] [DecidableEq α] (op : Comparison) (x y : α) :
    Decidable (op.Asks x y) :=
  match op with
  | .greater => inferInstanceAs (Decidable (y < x))
  | .less => inferInstanceAs (Decidable (x < y))
  | .equal => inferInstanceAs (Decidable (x = y))

/-- The relation between floats. Not-a-number is in none with any float. -/
def Comparison.AsksFloats (op : Comparison) (x y : Float) : Prop :=
  match op with
  | greater => y < x
  | less => x < y
  | equal => (x == y) = true

instance (op : Comparison) (x y : Float) : Decidable (op.AsksFloats x y) :=
  match op with
  | .greater => inferInstanceAs (Decidable (y < x))
  | .less => inferInstanceAs (Decidable (x < y))
  | .equal => inferInstanceAs (Decidable ((x == y) = true))

namespace Value

/-- Integers, and truth values as zero and one. -/
inductive IsInteger : Value → Int → Prop
  | int (n : Int64) : IsInteger (.int n) n.toInt
  | bool (b : Bool) : IsInteger (.bool b) (if b then 1 else 0)

/-- Numbers in floating point. Integers are rounded. -/
inductive IsReal : Value → Float → Prop
  | float (x : Float) : IsReal (.float x) x
  | integer {v : Value} {n : Int} {x : Float} :
      IsInteger v n → Binary64.RoundsTo n x → IsReal v x

/-- One of two values is a float. -/
def SomeFloat (a b : Value) : Prop := a.kind = .float ∨ b.kind = .float

/-- One of two values is a string, and the other is not. -/
def Mixed (a b : Value) : Prop := a.kind = .str ↔ b.kind ≠ .str

instance (a b : Value) : Decidable (Mixed a b) := inferInstanceAs (Decidable (_ ↔ _))

def ofTruth (p : Prop) [Decidable p] : Value := .int (if p then 1 else 0)

end Value

open Value (IsInteger IsReal SomeFloat Mixed)

/-- What the operators give, rule by rule. -/
inductive Gives : Operator → Value → Value → Value → Prop
  | concat (s t : Bytes) : Gives (.arith .add) (.str s) (.str t) (.str (s ++ t))
  /-- A count below one gives the empty string. -/
  | repeat_left {s : Bytes} {v : Value} {n : Int} :
      IsInteger v n → n.toNat * s.length ≤ 2 ^ 24 →
      Gives (.arith .mul) (.str s) v (.str (List.replicate n.toNat s).flatten)
  | repeat_right {s : Bytes} {v : Value} {n : Int} :
      IsInteger v n → n.toNat * s.length ≤ 2 ^ 24 →
      Gives (.arith .mul) v (.str s) (.str (List.replicate n.toNat s).flatten)
  /-- The word that agrees with the exact result modulo `2 ^ 64`. -/
  | integers {op : Arith} {a b : Value} {m n : Int} :
      IsInteger a m → IsInteger b n → (op = .div ∨ op = .mod → n ≠ 0) →
      Gives (.arith op) a b (.int (Int64.ofInt (op.exact m n)))
  | integers_by_zero {op : Arith} {a b : Value} {m : Int} :
      IsInteger a m → IsInteger b 0 → op = .div ∨ op = .mod → Gives (.arith op) a b (.int 0)
  | reals {op : Arith} {a b : Value} {x y z : Float} :
      IsReal a x → IsReal b y → SomeFloat a b → (op = .div ∨ op = .mod → ¬y == 0) →
      op.Makes x y z → Gives (.arith op) a b (.float z)
  | reals_by_zero {op : Arith} {a b : Value} {x y : Float} :
      IsReal a x → IsReal b y → SomeFloat a b → op = .div ∨ op = .mod → y == 0 →
      Gives (.arith op) a b (.int 0)
  /-- Bit by bit, in two's complement. -/
  | bits {op : Bitwise} {a b : Value} {m n : Int} {k : Int64} : IsInteger a m → IsInteger b n →
      (∀ j < 64, k.toBitVec.getLsbD j =
        op.onBits ((BitVec.ofInt 64 m).getLsbD j) ((BitVec.ofInt 64 n).getLsbD j)) →
      Gives (.bitwise op) a b (.int k)
  | compare_integers {op : Comparison} {a b : Value} {m n : Int} :
      IsInteger a m → IsInteger b n → Gives (.compare op) a b (.ofTruth (op.Asks m n))
  | compare_reals {op : Comparison} {a b : Value} {x y : Float} :
      IsReal a x → IsReal b y → SomeFloat a b →
      Gives (.compare op) a b (.ofTruth (op.AsksFloats x y))
  | compare_strings (op : Comparison) (s t : Bytes) :
      Gives (.compare op) (.str s) (.str t) (.ofTruth (op.Asks s t))
  | unequal {a b : Value} : Mixed a b → Gives (.compare .equal) a b (.int 0)

/-- The pairs of values that an operator is not for. -/
inductive Mismatched : Operator → Value → Value → Prop
  | long_left {s : Bytes} {v : Value} {n : Int} : IsInteger v n → 2 ^ 24 < n.toNat * s.length →
      Mismatched (.arith .mul) (.str s) v
  | long_right {s : Bytes} {v : Value} {n : Int} : IsInteger v n → 2 ^ 24 < n.toNat * s.length →
      Mismatched (.arith .mul) v (.str s)
  | strings {op : Arith} (s t : Bytes) : op ≠ .add → Mismatched (.arith op) (.str s) (.str t)
  | mixed {op : Arith} {a b : Value} : Mixed a b → (op = .mul → SomeFloat a b) →
      Mismatched (.arith op) a b
  | bits {op : Bitwise} {a b : Value} {v : Value} : v = a ∨ v = b →
      v.kind = .str ∨ v.kind = .float → Mismatched (.bitwise op) a b
  | order {op : Comparison} {a b : Value} : op ≠ .equal → Mixed a b → Mismatched (.compare op) a b

variable {op : Operator} {a b v w : Value} {m n : Int} {x y z : Float} {s t : Bytes}

namespace Value

theorem IsInteger.number?_eq (h : IsInteger v n) : v.number? = some (.int (Int64.ofInt n)) := by
  cases h with
  | int k => rw [number?, Int64.ofInt_toInt]
  | bool b => cases b <;> rfl

theorem IsInteger.word?_eq (h : IsInteger v n) : v.word? = some (Int64.ofInt n) := by
  rw [word?, h.number?_eq]
  rfl

theorem IsInteger.toInt_ofInt (h : IsInteger v n) : (Int64.ofInt n).toInt = n := by
  cases h with
  | int k => rw [Int64.ofInt_toInt]
  | bool b => cases b <;> decide

theorem IsInteger.natAbs_lt (h : IsInteger v n) : n.natAbs < 2 ^ 64 := by
  cases h with
  | int k =>
    have hleast := k.le_toInt
    have hgreatest := k.toInt_lt
    omega
  | bool b => cases b <;> decide

theorem IsInteger.isReal (h : IsInteger v n) : IsReal v (Binary64.ofInt n) :=
  .integer h (Binary64.ofInt_roundsTo h.natAbs_lt)

theorem IsReal.number?_eq (h : IsReal v x) : ∃ k, v.number? = some k ∧ k.toFloat = x := by
  cases h with
  | float x => exact ⟨.float x, rfl, rfl⟩
  | integer h hx =>
    refine ⟨_, h.number?_eq, ?_⟩
    rw [Number.toFloat, h.toInt_ofInt]
    exact (Binary64.ofInt_roundsTo h.natAbs_lt).unique hx

/-- Values are strings, floats or integers. -/
theorem trichotomy (v : Value) :
    (∃ s, v = .str s) ∨ (∃ x, v = .float x) ∨ ∃ n, IsInteger v n := by
  cases v with
  | int n => exact Or.inr (Or.inr ⟨_, .int n⟩)
  | float x => exact Or.inr (Or.inl ⟨x, rfl⟩)
  | str s => exact Or.inl ⟨s, rfl⟩
  | bool b => exact Or.inr (Or.inr ⟨_, .bool b⟩)

theorem exists_isReal (h : v.kind ≠ .str) : ∃ x, IsReal v x := by
  rcases v.trichotomy with ⟨s, rfl⟩ | ⟨x, rfl⟩ | ⟨n, hn⟩
  · exact absurd rfl h
  · exact ⟨x, .float x⟩
  · exact ⟨_, hn.isReal⟩

/-- Two numbers are two integers unless one is a float. -/
theorem someFloat_or_integers (ha : a.kind ≠ .str) (hb : b.kind ≠ .str) :
    SomeFloat a b ∨ ∃ m n, IsInteger a m ∧ IsInteger b n := by
  rcases a.trichotomy with ⟨s, rfl⟩ | ⟨x, rfl⟩ | ⟨m, hm⟩
  · exact absurd rfl ha
  · exact Or.inl (Or.inl rfl)
  · rcases b.trichotomy with ⟨t, rfl⟩ | ⟨y, rfl⟩ | ⟨n, hn⟩
    · exact absurd rfl hb
    · exact Or.inl (Or.inr rfl)
    · exact Or.inr ⟨m, n, hm, hn⟩

theorem Mixed.cases (h : Mixed a b) :
    (∃ s, a = .str s ∧ b.kind ≠ .str) ∨ ∃ s, b = .str s ∧ a.kind ≠ .str := by
  cases a <;> cases b <;> simp_all [Mixed, kind]

theorem pair_cases (a b : Value) : (∃ s t, a = .str s ∧ b = .str t) ∨ Mixed a b ∨
    a.kind ≠ .str ∧ b.kind ≠ .str := by
  cases a <;> cases b <;> simp [Mixed, kind]

theorem repeat_append (s : Bytes) (n : Nat) :
    Nat.repeat (s ++ ·) n [] = (List.replicate n s).flatten := by
  induction n with
  | zero => rfl
  | succ n ih => rw [Nat.repeat, ih, List.replicate_succ, List.flatten_cons]

/-- Repetition has a result as long as it is not too long, counted without a limit to integers. -/
theorem repeated?_eq (s : Bytes) (n : Int64) : repeated? s n =
    if n.toInt.toNat * s.length ≤ 2 ^ 24 then
      some (.str (List.replicate n.toInt.toNat s).flatten)
    else none := by
  unfold repeated?
  by_cases hnone : n ≤ 0 ∨ s = []
  · have hempty : n.toInt.toNat * s.length = 0 ∧ (List.replicate n.toInt.toNat s).flatten = [] := by
      rcases hnone with hn | rfl
      · have hzero : n.toInt.toNat = 0 := Int.toNat_eq_zero.mpr (Int64.le_iff_toInt_le.mp hn)
        simp [hzero]
      · simp
    rw [if_pos hnone, hempty.1, hempty.2, if_pos (Nat.zero_le _)]
  · have hlength : 0 < s.length := List.length_pos_iff.mpr fun hs => hnone (Or.inr hs)
    have hlong : maxRepeated / s.length < n.toInt.toNat ↔ ¬n.toInt.toNat * s.length ≤ 2 ^ 24 := by
      rw [Nat.div_lt_iff_lt_mul hlength, Nat.not_le]
      rfl
    rw [if_neg hnone, repeat_append]
    by_cases hfits : n.toInt.toNat * s.length ≤ 2 ^ 24
    · rw [if_neg fun h => hlong.mp h hfits, if_pos hfits]
    · rw [if_pos (hlong.mpr hfits), if_neg hfits]

/-- A float is only a number in its own form. -/
theorem SomeFloat.number?_cases {j k : Number} (h : SomeFloat a b) (ha : a.number? = some j)
    (hb : b.number? = some k) : (∃ x, j = .float x) ∨ ∃ y, k = .float y := by
  rcases h with h | h
  · cases a <;> cases h
    cases ha
    exact Or.inl ⟨_, rfl⟩
  · cases b <;> cases h
    cases hb
    exact Or.inr ⟨_, rfl⟩

end Value

namespace Arith

variable {op : Arith} {j k : Number}

theorem result?_numbers (ha : a.number? = some j) (hb : b.number? = some k) :
    op.result? a b = some (op.onNumbers j k) := by
  cases a <;> cases ha <;> cases b <;> cases hb <;> cases op <;> rfl

theorem result?_reals (ha : IsReal a x) (hb : IsReal b y) (h : SomeFloat a b) :
    op.result? a b = some (op.onFloats x y) := by
  obtain ⟨j, hj, rfl⟩ := ha.number?_eq
  obtain ⟨k, hk, rfl⟩ := hb.number?_eq
  rw [result?_numbers hj hk]
  rcases h.number?_cases hj hk with ⟨x, rfl⟩ | ⟨y, rfl⟩
  · rfl
  · cases j <;> rfl

theorem result?_repeat_left (h : IsInteger v n) :
    mul.result? (.str s) v = Value.repeated? s (Int64.ofInt n) := by
  have hword := h.word?_eq
  cases h <;> exact congrArg (Option.bind · (Value.repeated? s)) hword

theorem result?_repeat_right (h : IsInteger v n) :
    mul.result? v (.str s) = Value.repeated? s (Int64.ofInt n) := by
  have hword := h.word?_eq
  cases h <;> exact congrArg (Option.bind · (Value.repeated? s)) hword

/-- Word arithmetic is that of integers, taken modulo `2 ^ 64`. -/
theorem onWords_ofInt (hm : (Int64.ofInt m).toInt = m) (hn : (Int64.ofInt n).toInt = n)
    (hzero : op = .div ∨ op = .mod → n ≠ 0) :
    op.onWords (Int64.ofInt m) (Int64.ofInt n) = Int64.ofInt (op.exact m n) := by
  have hdivisor : n ≠ 0 → Int64.ofInt n ≠ 0 := by
    intro hne heq
    rw [heq] at hn
    exact hne hn.symm
  cases op with
  | add => exact (Int64.ofInt_add m n).symm
  | sub => exact (Int64.ofInt_sub m n).symm
  | mul => exact (Int64.ofInt_mul m n).symm
  | div =>
    have hne := hdivisor (hzero (Or.inl rfl))
    rw [onWords, if_neg hne, Floor.div_eq_ofInt hne, hm, hn, exact]
  | mod =>
    have hne := hdivisor (hzero (Or.inr rfl))
    rw [onWords, if_neg hne, Floor.mod_eq_ofInt hne, hm, hn, exact]

theorem exists_makes (op : Arith) (x : Float) (hzero : op = .div ∨ op = .mod → ¬y == 0) :
    ∃ z, op.Makes x y z := by
  cases op with
  | add | sub | mul => exact ⟨_, rfl⟩
  | div => exact ⟨_, Binary64.floor_isFloor (x / y)⟩
  | mod => exact ⟨_, Binary64.modulo_isModulo (hzero (Or.inr rfl))⟩

theorem onFloats_eq (hzero : op = .div ∨ op = .mod → ¬y == 0) (h : op.Makes x y z) :
    op.onFloats x y = .float z := by
  cases op with
  | add | sub | mul => exact congrArg Value.float h.symm
  | div =>
    rw [onFloats, if_neg (hzero (Or.inl rfl)), (Binary64.floor_isFloor (x / y)).unique h]
  | mod =>
    have hy := hzero (Or.inr rfl)
    rw [onFloats, if_neg hy, (Binary64.modulo_isModulo hy).unique h]

theorem result?_mixed (h : Mixed a b) (hop : op = .mul → SomeFloat a b) :
    op.result? a b = none := by
  by_cases hmul : op = .mul
  · subst hmul
    rcases h.cases with ⟨s, rfl, -⟩ | ⟨s, rfl, -⟩
    · rcases hop rfl with hfloat | hfloat
      · cases hfloat
      · cases b <;> cases hfloat
        rfl
    · rcases hop rfl with hfloat | hfloat
      · cases a <;> cases hfloat
        rfl
      · cases hfloat
  · rcases h.cases with ⟨s, rfl, hkind⟩ | ⟨s, rfl, hkind⟩
    · cases op <;> cases b <;> first | rfl | exact absurd rfl hmul | exact absurd rfl hkind
    · cases op <;> cases a <;> first | rfl | exact absurd rfl hmul | exact absurd rfl hkind

end Arith

namespace Comparison

variable {op : Comparison}

theorem onWords_ofInt (hm : (Int64.ofInt m).toInt = m) (hn : (Int64.ofInt n).toInt = n) :
    op.onWords (Int64.ofInt m) (Int64.ofInt n) = decide (op.Asks m n) := by
  rw [Bool.eq_iff_iff, decide_eq_true_iff]
  cases op with
  | greater | less =>
    rw [onWords, decide_eq_true_iff, Int64.lt_iff_toInt_lt, hm, hn]
    rfl
  | equal =>
    rw [onWords, decide_eq_true_iff, ← Int64.toInt_inj, hm, hn]
    rfl

theorem onFloats_eq (op : Comparison) (x y : Float) : op.onFloats x y = decide (op.AsksFloats x y) := by
  cases op with
  | greater | less => rfl
  | equal => exact Bool.decide_eq_true.symm

theorem onStrings_eq (op : Comparison) (s t : Bytes) : op.onStrings s t = decide (op.Asks s t) := by
  rw [Bool.eq_iff_iff, decide_eq_true_iff]
  cases op with
  | greater | less => exact Bytes.less_iff
  | equal => exact beq_iff_eq

theorem holds?_numbers {j k : Number} (ha : a.number? = some j) (hb : b.number? = some k) :
    op.holds? a b = some (op.onNumbers j k) := by
  cases a <;> cases ha <;> cases b <;> cases hb <;> rfl

theorem holds?_reals (ha : IsReal a x) (hb : IsReal b y) (h : SomeFloat a b) :
    op.holds? a b = some (op.onFloats x y) := by
  obtain ⟨j, hj, rfl⟩ := ha.number?_eq
  obtain ⟨k, hk, rfl⟩ := hb.number?_eq
  rw [holds?_numbers hj hk]
  rcases h.number?_cases hj hk with ⟨x, rfl⟩ | ⟨y, rfl⟩
  · rfl
  · cases j <;> rfl

theorem holds?_mixed (h : Mixed a b) :
    op.holds? a b = if op = equal then some false else none := by
  rcases h.cases with ⟨s, rfl, hkind⟩ | ⟨s, rfl, hkind⟩
  · cases b <;> first | rfl | exact absurd rfl hkind
  · cases a <;> first | rfl | exact absurd rfl hkind

theorem result?_of_holds? {p : Prop} [Decidable p] (h : op.holds? a b = some (decide p)) :
    op.result? a b = some (.ofTruth p) := by
  rw [result?, h, Option.map_some, Value.ofTruth]
  simp only [decide_eq_true_eq]

end Comparison

/-- Words are combined bit by bit. -/
theorem Bitwise.getLsbD_onWords (op : Bitwise) (m n : Int) {j : Nat} (hj : j < 64) :
    (op.onWords (Int64.ofInt m) (Int64.ofInt n)).toBitVec.getLsbD j =
      op.onBits ((BitVec.ofInt 64 m).getLsbD j) ((BitVec.ofInt 64 n).getLsbD j) := by
  cases op <;> simp [onWords, onBits, Int64.toBitVec_ofInt, hj]

theorem Bitwise.onWords_eq {op : Bitwise} {k : Int64} (h : ∀ j < 64, k.toBitVec.getLsbD j =
    op.onBits ((BitVec.ofInt 64 m).getLsbD j) ((BitVec.ofInt 64 n).getLsbD j)) :
    op.onWords (Int64.ofInt m) (Int64.ofInt n) = k := by
  apply Int64.toBitVec_inj.mp
  apply BitVec.eq_of_getLsbD_eq
  intro j hj
  rw [h j hj, getLsbD_onWords op m n hj]

theorem Bitwise.result?_eq_none {op : Bitwise} (h : a.word? = none ∨ b.word? = none) :
    op.result? a b = none := by
  unfold result?
  rcases h with h | h
  · rw [h]
  · rw [h]
    cases a.word? <;> rfl

namespace Operator

theorem result?_of_gives (h : Gives op a b v) : op.result? a b = some v := by
  cases h with
  | concat => rfl
  | repeat_left h hfits =>
    rw [result?, Arith.result?_repeat_left h, Value.repeated?_eq, h.toInt_ofInt, if_pos hfits]
  | repeat_right h hfits =>
    rw [result?, Arith.result?_repeat_right h, Value.repeated?_eq, h.toInt_ofInt, if_pos hfits]
  | integers ha hb hzero =>
    rw [result?, Arith.result?_numbers ha.number?_eq hb.number?_eq, Arith.onNumbers,
      Arith.onWords_ofInt ha.toInt_ofInt hb.toInt_ofInt hzero]
  | integers_by_zero ha hb hop =>
    rw [result?, Arith.result?_numbers ha.number?_eq hb.number?_eq]
    rcases hop with rfl | rfl <;> rfl
  | reals ha hb hfloat hzero hz =>
    rw [result?, Arith.result?_reals ha hb hfloat, Arith.onFloats_eq hzero hz]
  | reals_by_zero ha hb hfloat hop hzero =>
    rw [result?, Arith.result?_reals ha hb hfloat]
    rcases hop with rfl | rfl <;> exact congrArg some (if_pos hzero)
  | bits ha hb hk =>
    rw [result?, Bitwise.result?, ha.word?_eq, hb.word?_eq, ← Bitwise.onWords_eq hk]
  | compare_integers ha hb =>
    apply Comparison.result?_of_holds?
    rw [Comparison.holds?_numbers ha.number?_eq hb.number?_eq, Comparison.onNumbers,
      Comparison.onWords_ofInt ha.toInt_ofInt hb.toInt_ofInt]
  | compare_reals ha hb hfloat =>
    apply Comparison.result?_of_holds?
    rw [Comparison.holds?_reals ha hb hfloat, Comparison.onFloats_eq]
  | compare_strings op s t =>
    apply Comparison.result?_of_holds?
    rw [← Comparison.onStrings_eq]
    rfl
  | unequal hmixed =>
    rw [result?, Comparison.result?, Comparison.holds?_mixed hmixed]
    rfl

theorem result?_of_mismatched (h : Mismatched op a b) : op.result? a b = none := by
  cases h with
  | long_left h hlong =>
    rw [result?, Arith.result?_repeat_left h, Value.repeated?_eq, h.toInt_ofInt,
      if_neg (Nat.not_le_of_lt hlong)]
  | long_right h hlong =>
    rw [result?, Arith.result?_repeat_right h, Value.repeated?_eq, h.toInt_ofInt,
      if_neg (Nat.not_le_of_lt hlong)]
  | @strings op s t hop => cases op <;> first | rfl | exact absurd rfl hop
  | mixed hmixed hop => exact Arith.result?_mixed hmixed hop
  | bits hv hkind =>
    have hword : ∀ {w : Value}, w.kind = .str ∨ w.kind = .float → w.word? = none := by
      intro w hw
      rcases hw with hw | hw <;> cases w <;> cases hw <;> rfl
    apply Bitwise.result?_eq_none
    rcases hv with rfl | rfl
    · exact Or.inl (hword hkind)
    · exact Or.inr (hword hkind)
  | order hop hmixed =>
    rw [result?, Comparison.result?, Comparison.holds?_mixed hmixed, if_neg hop]
    rfl

theorem exists_gives_numbers {op : Arith} (ha : a.kind ≠ .str) (hb : b.kind ≠ .str) :
    ∃ v, Gives (.arith op) a b v := by
  rcases Value.someFloat_or_integers ha hb with hfloat | ⟨m, n, hm, hn⟩
  · obtain ⟨x, hx⟩ := Value.exists_isReal ha
    obtain ⟨y, hy⟩ := Value.exists_isReal hb
    by_cases hzero : (op = .div ∨ op = .mod) ∧ y == 0
    · exact ⟨_, .reals_by_zero hx hy hfloat hzero.1 hzero.2⟩
    · have hnonzero (hop : op = .div ∨ op = .mod) : ¬y == 0 := fun hy => hzero ⟨hop, hy⟩
      obtain ⟨z, hz⟩ := op.exists_makes x hnonzero
      exact ⟨_, .reals hx hy hfloat hnonzero hz⟩
  · by_cases hzero : (op = .div ∨ op = .mod) ∧ n = 0
    · obtain ⟨hop, rfl⟩ := hzero
      exact ⟨_, .integers_by_zero hm hn hop⟩
    · exact ⟨_, .integers hm hn fun hop hn => hzero ⟨hop, hn⟩⟩

theorem arith_total (op : Arith) (a b : Value) :
    (∃ v, Gives (.arith op) a b v) ∨ Mismatched (.arith op) a b := by
  rcases Value.pair_cases a b with ⟨s, t, rfl, rfl⟩ | hmixed | ⟨ha, hb⟩
  · by_cases hop : op = .add
    · subst hop
      exact Or.inl ⟨_, .concat s t⟩
    · exact Or.inr (.strings s t hop)
  · by_cases hop : op = .mul → SomeFloat a b
    · exact Or.inr (.mixed hmixed hop)
    · obtain ⟨rfl, hfloat⟩ := Classical.not_imp.mp hop
      rcases hmixed.cases with ⟨s, rfl, hkind⟩ | ⟨s, rfl, hkind⟩
      · rcases b.trichotomy with ⟨t, rfl⟩ | ⟨y, rfl⟩ | ⟨n, hn⟩
        · exact absurd rfl hkind
        · exact absurd (Or.inr rfl) hfloat
        · rcases Nat.lt_or_ge (2 ^ 24) (n.toNat * s.length) with hlong | hfits
          · exact Or.inr (.long_left hn hlong)
          · exact Or.inl ⟨_, .repeat_left hn hfits⟩
      · rcases a.trichotomy with ⟨t, rfl⟩ | ⟨x, rfl⟩ | ⟨n, hn⟩
        · exact absurd rfl hkind
        · exact absurd (Or.inl rfl) hfloat
        · rcases Nat.lt_or_ge (2 ^ 24) (n.toNat * s.length) with hlong | hfits
          · exact Or.inr (.long_right hn hlong)
          · exact Or.inl ⟨_, .repeat_right hn hfits⟩
  · exact Or.inl (exists_gives_numbers ha hb)

theorem bitwise_total (op : Bitwise) (a b : Value) :
    (∃ v, Gives (.bitwise op) a b v) ∨ Mismatched (.bitwise op) a b := by
  rcases a.trichotomy with ⟨s, rfl⟩ | ⟨x, rfl⟩ | ⟨m, hm⟩
  · exact Or.inr (.bits (Or.inl rfl) (Or.inl rfl))
  · exact Or.inr (.bits (Or.inl rfl) (Or.inr rfl))
  · rcases b.trichotomy with ⟨s, rfl⟩ | ⟨y, rfl⟩ | ⟨n, hn⟩
    · exact Or.inr (.bits (Or.inr rfl) (Or.inl rfl))
    · exact Or.inr (.bits (Or.inr rfl) (Or.inr rfl))
    · exact Or.inl ⟨_, .bits hm hn fun _ => op.getLsbD_onWords m n⟩

theorem compare_total (op : Comparison) (a b : Value) :
    (∃ v, Gives (.compare op) a b v) ∨ Mismatched (.compare op) a b := by
  rcases Value.pair_cases a b with ⟨s, t, rfl, rfl⟩ | hmixed | ⟨ha, hb⟩
  · exact Or.inl ⟨_, .compare_strings op s t⟩
  · by_cases hop : op = .equal
    · subst hop
      exact Or.inl ⟨_, .unequal hmixed⟩
    · exact Or.inr (.order hop hmixed)
  · rcases Value.someFloat_or_integers ha hb with hfloat | ⟨m, n, hm, hn⟩
    · obtain ⟨x, hx⟩ := Value.exists_isReal ha
      obtain ⟨y, hy⟩ := Value.exists_isReal hb
      exact Or.inl ⟨_, .compare_reals hx hy hfloat⟩
    · exact Or.inl ⟨_, .compare_integers hm hn⟩

theorem gives_or_mismatched (op : Operator) (a b : Value) :
    (∃ v, Gives op a b v) ∨ Mismatched op a b := by
  cases op with
  | arith op => exact arith_total op a b
  | bitwise op => exact bitwise_total op a b
  | compare op => exact compare_total op a b

theorem gives_unique (h : Gives op a b v) (h' : Gives op a b w) : w = v := by
  have hresult := result?_of_gives h
  rw [result?_of_gives h'] at hresult
  exact Option.some.inj hresult

theorem not_mismatched_of_gives (h : Gives op a b v) : ¬Mismatched op a b := by
  intro hm
  have hresult := result?_of_gives h
  rw [result?_of_mismatched hm] at hresult
  cases hresult

/-- What is reported of two values that do not go together, the topmost of which is `b`. Exclusive or is
alone in naming that one first. -/
def mismatch (op : Operator) (mnemonic : Bytes) (a b : Value) : Cause :=
  if op = .bitwise .xor then .mismatch b.kind mnemonic a.kind
  else .mismatch a.kind mnemonic b.kind

theorem code_mismatch {mnemonic : Bytes} : (op.mismatch mnemonic a b).code = 5 := by
  unfold mismatch
  split <;> rfl

theorem xor_result?_comm (a b : Value) :
    Bitwise.xor.result? b a = Bitwise.xor.result? a b := by
  unfold Bitwise.result?
  cases a.word? <;> cases b.word? <;> simp [Bitwise.onWords, Int64.xor_comm]

end Operator

namespace Machine

variable {m : Machine} {i : Instruction}

theorem change_operator (hop : i.op = op.opcode) : m.change i =
    .result 2 (op.mismatch i.mnemonic (m.valueAt 1) (m.valueAt 0))
      (op.result? (m.valueAt 1) (m.valueAt 0)) := by
  unfold change
  rw [hop]
  cases op with
  | arith op | compare op => rfl
  | bitwise op =>
    cases op with
    | and | or => rfl
    | xor =>
      change Change.result 2 _ (Bitwise.xor.result? (m.valueAt 0) (m.valueAt 1)) = _
      rw [Operator.xor_result?_comm]
      rfl

theorem straight_operator (hop : i.op = op.opcode) : m.control i = m ∧ m.next i = m.pc + 1 := by
  unfold control next jump?
  rw [hop]
  cases op <;> exact ⟨rfl, rfl⟩

/-- An operator pushes its result, or zero if it has none, and reports the mismatch then. -/
theorem step?_operator (hi : m.current? = some i) (hop : i.op = op.opcode) :
    m.step? = some { m with
      stack := (op.result? (m.valueAt 1) (m.valueAt 0)).getD (.int 0) :: m.stack.drop 2
      pc := m.pc + 1
      steps := m.steps + 1
      faults := m.faults ++ (if (op.result? (m.valueAt 1) (m.valueAt 0)).isSome then []
        else [⟨op.mismatch i.mnemonic (m.valueAt 1) (m.valueAt 0), m.pc, i.text⟩] : List Fault)
      journal := (m.execute i).journal } := by
  obtain ⟨hcontrol, hnext⟩ := straight_operator (m := m) hop
  rw [step?, hi, Option.map_some, execute_change, change_operator hop, hcontrol, hnext]
  cases op.result? (m.valueAt 1) (m.valueAt 0) with
  | none => simp [Change.result, faultAt_current hi]
  | some v => simp [Change.result]

end Machine

namespace Operator

variable {r r' : Option Value}

/-- At this operator, whatever the rest of the machine is like, a step takes `b` and the value `a` below it
from the stack and moves on. It pushes `r` and reports no fault, or without a value it pushes zero and
reports the mismatch. -/
def Yields (op : Operator) (a b : Value) (r : Option Value) : Prop :=
  ∀ (m : Machine) (i : Instruction) (rest : List Value),
    m.current? = some i → i.op = op.opcode → m.stack = b :: a :: rest →
    let faults : List Fault :=
      if r.isSome then [] else [⟨op.mismatch i.mnemonic a b, m.pc, i.text⟩]
    m.step? = some { m with
      stack := r.getD (.int 0) :: rest
      pc := m.pc + 1
      steps := m.steps + 1
      faults := m.faults ++ faults
      journal := (m.trace i).journal ++ faults.map Machine.faultRecord }

/-- A machine with nothing but an operator and two values for it. -/
def machine (op : Operator) (a b : Value) : Machine where
  program := ⟨[], #[⟨op.opcode, [], [], [], 1, []⟩], ∅⟩
  stack := [b, a]

theorem yields_result (op : Operator) (a b : Value) : op.Yields a b (op.result? a b) := by
  intro m i rest hi hop hstack faults
  have hvalues : m.valueAt 1 = a ∧ m.valueAt 0 = b := by
    simp [Machine.valueAt, hstack]
  obtain ⟨ha, hb⟩ := hvalues
  have hjournal : (m.execute i).journal =
      (m.trace i).journal ++ faults.map Machine.faultRecord := by
    rw [Machine.execute_change, Machine.change_operator hop, ha, hb]
    cases hresult : op.result? a b with
    | none => simp [Change.result, faults, hresult, Machine.faultAt_current hi]
    | some v => simp [Change.result, faults, hresult]
  rw [Machine.step?_operator hi hop, hjournal, ha, hb, hstack]
  rfl

theorem Yields.unique (h : op.Yields a b r) (h' : op.Yields a b r') : r = r' := by
  have hi : (op.machine a b).current? = some ⟨op.opcode, [], [], [], 1, []⟩ := rfl
  have hstep := (h _ _ [] hi rfl rfl).symm.trans (h' _ _ [] hi rfl rfl)
  rw [Option.some_inj, Machine.mk.injEq] at hstep
  obtain ⟨-, hstack, -, -, -, -, -, -, -, -, hfaults, -⟩ := hstep
  cases r <;> cases r' <;> simp_all

theorem yields_iff : op.Yields a b r ↔ r = op.result? a b := by
  constructor
  · intro h
    exact h.unique (yields_result op a b)
  · rintro rfl
    exact yields_result op a b

end Operator

namespace Machine

variable {m : Machine} {i : Instruction}

/-- A step of an operator takes the two topmost values, with zeros for missing ones, and pushes one: the only
result that the table gives them, without a fault, or for a mismatch zero, and the mismatch is reported. -/
theorem operators_follow_the_table (hi : m.current? = some i) (hop : i.op = op.opcode) :
    let b := m.stack.getD 0 (.int 0)
    let a := m.stack.getD 1 (.int 0)
    ∃ (v : Value) (faults : List Fault), m.step? = some { m with
        stack := v :: m.stack.drop 2
        pc := m.pc + 1
        steps := m.steps + 1
        faults := m.faults ++ faults
        journal := (m.execute i).journal } ∧
      ((Gives op a b v ∧ (∀ w, Gives op a b w → w = v) ∧ ¬Mismatched op a b ∧ faults = []) ∨
        (Mismatched op a b ∧ (∀ w, ¬Gives op a b w) ∧ v = .int 0 ∧
          faults = [⟨op.mismatch i.mnemonic a b, m.pc, i.text⟩] ∧
          (op.mismatch i.mnemonic a b).code = 5)) := by
  intro b a
  have hstep := step?_operator hi hop
  rcases Operator.gives_or_mismatched op a b with ⟨v, hv⟩ | hm
  · have hresult : op.result? (m.valueAt 1) (m.valueAt 0) = some v := Operator.result?_of_gives hv
    rw [hresult] at hstep
    exact ⟨v, [], hstep, Or.inl ⟨hv, fun w => Operator.gives_unique hv,
      Operator.not_mismatched_of_gives hv, rfl⟩⟩
  · have hresult : op.result? (m.valueAt 1) (m.valueAt 0) = none :=
      Operator.result?_of_mismatched hm
    rw [hresult] at hstep
    exact ⟨_, _, hstep, Or.inr ⟨hm, fun w hw => Operator.not_mismatched_of_gives hw hm, rfl, rfl,
      Operator.code_mismatch⟩⟩

theorem gives_minus_half : Gives (.arith .mod) (.float (Binary64.ofRatio false 15 2)) (.int (-2))
    (.float (Binary64.ofRatio true 1 2)) := by
  have hdivisor : IsReal (.int (-2)) (Binary64.ofInt (-2)) := (IsInteger.int (-2)).isReal
  have hnonzero : ¬Binary64.ofInt (-2) == 0 := by decide +kernel
  have hresult : Floor.modulo (Binary64.ofRatio false 15 2) (Binary64.ofInt (-2)) =
      Binary64.ofRatio true 1 2 := by decide +kernel
  have hmodulo := Binary64.modulo_isModulo (x := Binary64.ofRatio false 15 2) hnonzero
  rw [hresult] at hmodulo
  exact .reals (.float _) hdivisor (Or.inl rfl) (fun _ => hnonzero) hmodulo

theorem gives_greater : Gives (.compare .greater) (.int 0) (.float (Binary64.ofRatio true 1 2))
    (.int 1) := by
  have hzero : IsReal (.int 0) 0 := .integer (.int 0) Binary64.roundsTo_zero
  have hasks : Comparison.greater.AsksFloats 0 (Binary64.ofRatio true 1 2) := by decide +kernel
  have hgives : Gives (.compare .greater) (.int 0) (.float (Binary64.ofRatio true 1 2)) _ :=
    .compare_reals hzero (.float _) (Or.inr rfl)
  rwa [Value.ofTruth, if_pos hasks] at hgives

/-- A repetition, an order that is asked for between a string and an integer, a remainder of floats that is
then compared with an integer, and an exclusive or. -/
theorem operators_follow_the_table_repeat :
    let s : Setup := ⟨⟨[], none⟩, .scripted [], text "> ", false⟩
    ∃ p, Program.load (text "table")
        (text "P ab\nP 3\n*\nP 1\n<\nFL x 7.5\nP $x\nP -2\n%\n>\nP 12\nXX") = .ok p ∧
      let pushed n := ((new p s).runFor n).2.step?.map fun t =>
        (t.stack, t.faults.toList.map (·.cause.code))
      pushed 2 = some ([.str (text "ababab")], []) ∧
      pushed 4 = some ([.int 0], [5]) ∧
      pushed 8 = some ([.float (Binary64.ofRatio true 1 2), .int 0], [5]) ∧
      pushed 9 = some ([.int 1], [5]) ∧
      pushed 11 = some ([.int 13], [5]) := by
  intro s
  let minusHalf := Binary64.ofRatio true 1 2
  let dividend := Binary64.ofRatio false 15 2
  let shown (m : Machine) :=
    (m.current?.map Instruction.op, m.stack, m.faults.toList.map (·.cause.code))
  obtain ⟨p, hp, hmul, hless, hmod, hgreater, hxor⟩ := Program.exists_of_loads
    (P := fun p =>
      let before n := ((new p s).runFor n).2
      shown (before 2) = (some (.arith .mul), [.int 3, .str (text "ab")], []) ∧
        shown (before 4) = (some (.compare .less), [.int 1, .str (text "ababab")], []) ∧
        shown (before 8) = (some (.arith .mod), [.int (-2), .float dividend, .int 0], [5]) ∧
        shown (before 9) = (some (.compare .greater), [.float minusHalf, .int 0], [5]) ∧
        shown (before 11) = (some (.bitwise .xor), [.int 12, .int 1], [5]))
    (text "table") (text "P ab\nP 3\n*\nP 1\n<\nFL x 7.5\nP $x\nP -2\n%\n>\nP 12\nXX")
    (by decide +kernel)
  have hgiven {m : Machine} {a b v : Value} {rest : List Value} {codes : List Int} (op : Operator)
      (hm : shown m = (some op.opcode, b :: a :: rest, codes)) (hv : Gives op a b v) :
      m.step?.map (fun t => (t.stack, t.faults.toList.map (·.cause.code))) =
        some (v :: rest, codes) := by
    simp only [shown, Prod.mk.injEq] at hm
    obtain ⟨hcurrent, hstack, hcodes⟩ := hm
    obtain ⟨i, hi, hop⟩ := Option.map_eq_some_iff.mp hcurrent
    obtain ⟨w, faults, hstep, htable⟩ := operators_follow_the_table hi hop
    rw [hstack] at hstep htable
    rcases htable with ⟨-, hunique, -, rfl⟩ | ⟨-, hnone, -, -, -⟩
    · rw [hstep, ← hunique v hv, ← hcodes]
      simp
    · exact absurd hv (hnone v)
  have hmismatched {m : Machine} {a b : Value} {rest : List Value} {codes : List Int} (op : Operator)
      (hm : shown m = (some op.opcode, b :: a :: rest, codes)) (hab : Mismatched op a b) :
      m.step?.map (fun t => (t.stack, t.faults.toList.map (·.cause.code))) =
        some (.int 0 :: rest, codes ++ [5]) := by
    simp only [shown, Prod.mk.injEq] at hm
    obtain ⟨hcurrent, hstack, hcodes⟩ := hm
    obtain ⟨i, hi, hop⟩ := Option.map_eq_some_iff.mp hcurrent
    obtain ⟨w, faults, hstep, htable⟩ := operators_follow_the_table hi hop
    rw [hstack] at hstep htable
    rcases htable with ⟨-, -, hfits, -⟩ | ⟨-, -, rfl, rfl, hcode⟩
    · exact absurd hab hfits
    · rw [hstep, ← hcodes]
      simpa using hcode
  refine ⟨p, hp, hgiven (.arith .mul) hmul ?_, hmismatched (.compare .less) hless ?_,
    hgiven (.arith .mod) hmod gives_minus_half, hgiven (.compare .greater) hgreater gives_greater,
    hgiven (.bitwise .xor) hxor ?_⟩
  · exact .repeat_left (.int 3) (by decide)
  · exact .order (by decide) (by decide)
  · exact .bits (.int 1) (.int 12) (by decide)

end Machine

end LineMachine
