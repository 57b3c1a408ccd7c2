import LineMachine.Proofs.Branching
import LineMachine.Proofs.OperatorTable
import LineMachine.Proofs.Rounding

/-! What comparisons push. Integers and strings are each ordered by them, and zero is what branches take it
for. Integers are compared with floats by rounding, so that equality passes from one value to the next
unless different integers round to the float between them. -/
namespace LineMachine

open Value (IsInteger IsReal SomeFloat Mixed)

/-- The order of dictionaries: a proper beginning comes first, and else the first difference decides. -/
inductive Bytes.Before : Bytes → Bytes → Prop
  | beginning (s : Bytes) (b : UInt8) (t : Bytes) : Before s (s ++ b :: t)
  | difference (p : Bytes) {a b : UInt8} (s t : Bytes) : a < b → Before (p ++ a :: s) (p ++ b :: t)

theorem Bytes.before_cons {s t : Bytes} (a : UInt8) (h : Before s t) : Before (a :: s) (a :: t) := by
  cases h with
  | beginning s b t => exact .beginning (a :: s) b t
  | difference p s t hlt => exact .difference (a :: p) s t hlt

theorem Bytes.before_iff_lt {s t : Bytes} : Before s t ↔ s < t := by
  constructor
  · rintro (⟨s, b, t⟩ | ⟨p, s, t, hlt⟩)
    · induction s with
      | nil => exact List.nil_lt_cons b t
      | cons a s ih => exact List.cons_lt_cons_iff.mpr (Or.inr ⟨rfl, ih⟩)
    · induction p with
      | nil => exact List.cons_lt_cons_iff.mpr (Or.inl hlt)
      | cons c p ih => exact List.cons_lt_cons_iff.mpr (Or.inr ⟨rfl, ih⟩)
  · intro h
    induction s generalizing t with
    | nil =>
      cases t with
      | nil => exact absurd h (List.lt_irrefl [])
      | cons b t => exact .beginning [] b t
    | cons a s ih =>
      cases t with
      | nil => exact absurd h (List.not_lt_nil _)
      | cons b t =>
        rcases List.cons_lt_cons_iff.mp h with hlt | ⟨rfl, hrest⟩
        · exact .difference [] s t hlt
        · exact before_cons a (ih hrest)

namespace Comparison

/-- At this comparison, whatever the rest of the machine is like, a step takes `b` and the value `a` below
it from the stack, pushes `n` and moves on, and reports no fault. -/
def Pushes (op : Comparison) (a b : Value) (n : Int64) : Prop :=
  ∀ (m : Machine) (i : Instruction) (rest : List Value),
    m.current? = some i → i.op = .compare op → m.stack = b :: a :: rest →
    m.step? = some { m with
      stack := .int n :: rest
      pc := m.pc + 1
      steps := m.steps + 1
      journal := (m.trace i).journal }

/-- These values are totally ordered by the comparisons. -/
structure Orders (S : Value → Prop) : Prop where
  one {a b : Value} : S a → S b → ∃ op : Comparison, op.Pushes a b 1 ∧
    ∀ o : Comparison, o ≠ op → o.Pushes a b 0 ∧ ¬o.Pushes a b 1
  converse {a b : Value} : S a → S b → (greater.Pushes a b 1 ↔ less.Pushes b a 1)
  symm {a b : Value} : S a → S b → equal.Pushes a b 1 → equal.Pushes b a 1
  equal_trans {a b c : Value} : S a → S b → S c →
    equal.Pushes a b 1 → equal.Pushes b c 1 → equal.Pushes a c 1
  less_trans {a b c : Value} : S a → S b → S c →
    less.Pushes a b 1 → less.Pushes b c 1 → less.Pushes a c 1
  less_congr {a b c d : Value} : S a → S b → S c → S d →
    equal.Pushes a c 1 → equal.Pushes b d 1 → (less.Pushes a b 1 ↔ less.Pushes c d 1)

variable {op : Comparison} {a b c v : Value} {m n : Int} {k : Int64} {x y : Float}

theorem pushes_iff_yields :
    op.Pushes a b k ↔ Operator.Yields (.compare op) a b (some (.int k)) := by
  simp [Pushes, Operator.Yields, Operator.opcode]

theorem pushes_iff : op.Pushes a b k ↔ op.result? a b = some (.int k) := by
  rw [pushes_iff_yields, Operator.yields_iff, eq_comm]
  exact Iff.rfl

theorem pushes_truth_iff {p : Prop} [Decidable p]
    (h : Gives (.compare op) a b (.ofTruth p)) : op.Pushes a b 1 ↔ p := by
  have hresult : op.result? a b = _ := Operator.result?_of_gives h
  rw [pushes_iff, hresult]
  by_cases hp : p <;> simp [Value.ofTruth, hp]

theorem pushes_truth {p : Prop} [Decidable p]
    (h : Gives (.compare op) a b (.ofTruth p)) : op.Pushes a b (if p then 1 else 0) := by
  rw [pushes_iff]
  exact Operator.result?_of_gives h

theorem exists_asks_iff {α : Type} [LT α] [Std.Trichotomous (α := α) (· < ·)]
    [Std.Asymm (α := α) (· < ·)] (x y : α) :
    ∃ op : Comparison, ∀ o : Comparison, o.Asks x y ↔ o = op := by
  rcases Std.lt_trichotomy x y with hlt | rfl | hgt
  · have hne : x ≠ y := fun heq => Std.Irrefl.irrefl y (heq ▸ hlt)
    exact ⟨less, fun o => by cases o <;> simp [Asks, hlt, hne, Std.Asymm.asymm _ _ hlt]⟩
  · exact ⟨equal, fun o => by cases o <;> simp [Asks, Std.Irrefl.irrefl]⟩
  · have hne : x ≠ y := fun heq => Std.Irrefl.irrefl y (heq ▸ hgt)
    exact ⟨greater, fun o => by cases o <;> simp [Asks, hgt, hne, Std.Asymm.asymm _ _ hgt]⟩

section Keys

variable {α : Type} [LT α] [DecidableLT α] [DecidableEq α]
  [Std.Trichotomous (α := α) (· < ·)] [Std.Asymm (α := α) (· < ·)]
  [Trans (α := α) (· < ·) (· < ·) (· < ·)]

/-- Values are ordered by the comparisons as what they stand for is. -/
theorem Orders.of_keys {S : Value → α → Prop}
    (h : ∀ {op a b x y}, S a x → S b y → Gives (.compare op) a b (.ofTruth (op.Asks x y))) :
    Orders fun v => ∃ x, S v x where
  one := by
    rintro a b ⟨x, ha⟩ ⟨y, hb⟩
    obtain ⟨op, hop⟩ := exists_asks_iff x y
    refine ⟨op, (pushes_truth_iff (h ha hb)).mpr ((hop op).mpr rfl), ?_⟩
    intro o hne
    have hasks : ¬o.Asks x y := fun hasks => hne ((hop o).mp hasks)
    have hgives : Gives (.compare o) a b (.ofTruth (o.Asks x y)) := h ha hb
    have hpushes := pushes_truth hgives
    rw [if_neg hasks] at hpushes
    exact ⟨hpushes, fun hone => hasks ((pushes_truth_iff hgives).mp hone)⟩
  converse := by
    rintro a b ⟨x, ha⟩ ⟨y, hb⟩
    rw [pushes_truth_iff (h ha hb), pushes_truth_iff (h hb ha)]
    exact Iff.rfl
  symm := by
    rintro a b ⟨x, ha⟩ ⟨y, hb⟩
    rw [pushes_truth_iff (h ha hb), pushes_truth_iff (h hb ha)]
    exact Eq.symm
  equal_trans := by
    rintro a b c ⟨x, ha⟩ ⟨y, hb⟩ ⟨z, hc⟩
    rw [pushes_truth_iff (h ha hb), pushes_truth_iff (h hb hc), pushes_truth_iff (h ha hc)]
    exact Eq.trans
  less_trans := by
    rintro a b c ⟨x, ha⟩ ⟨y, hb⟩ ⟨z, hc⟩
    rw [pushes_truth_iff (h ha hb), pushes_truth_iff (h hb hc), pushes_truth_iff (h ha hc)]
    exact Std.lt_trans
  less_congr := by
    rintro a b c d ⟨x, ha⟩ ⟨y, hb⟩ ⟨z, hc⟩ ⟨w, hd⟩
    rw [pushes_truth_iff (h ha hc), pushes_truth_iff (h hb hd), pushes_truth_iff (h ha hb),
      pushes_truth_iff (h hc hd)]
    rintro (rfl : x = z) (rfl : y = w)
    exact Iff.rfl

end Keys

theorem Orders.mono {S T : Value → Prop} (h : Orders S) (hsub : ∀ {v}, T v → S v) : Orders T where
  one ha hb := h.one (hsub ha) (hsub hb)
  converse ha hb := h.converse (hsub ha) (hsub hb)
  symm ha hb := h.symm (hsub ha) (hsub hb)
  equal_trans ha hb hc := h.equal_trans (hsub ha) (hsub hb) (hsub hc)
  less_trans ha hb hc := h.less_trans (hsub ha) (hsub hb) (hsub hc)
  less_congr ha hb hc hd := h.less_congr (hsub ha) (hsub hb) (hsub hc) (hsub hd)

theorem orders_strings : Orders fun v => v.kind = .str := by
  have hkeys : Orders fun v => ∃ s, v = .str s := by
    refine Orders.of_keys (S := fun v s => v = .str s) ?_
    rintro op a b s t rfl rfl
    exact .compare_strings op s t
  refine hkeys.mono ?_
  intro v hv
  cases v <;> cases hv
  exact ⟨_, rfl⟩

theorem orders_integers : Orders fun v => v.kind = .int ∨ v.kind = .bool := by
  have hkeys : Orders fun v => ∃ n, IsInteger v n := Orders.of_keys .compare_integers
  refine hkeys.mono ?_
  rintro v (hv | hv)
  · cases v <;> cases hv
    exact ⟨_, .int _⟩
  · cases v <;> cases hv
    exact ⟨_, .bool _⟩

theorem isZero_iff_pushes (hv : v.kind ≠ .str) :
    v.isZero = true ↔ equal.Pushes v (.int 0) 1 := by
  have hzero : IsReal (.int 0) 0 := .integer (.int 0) Binary64.roundsTo_zero
  rcases v.trichotomy with ⟨s, rfl⟩ | ⟨x, rfl⟩ | ⟨n, hn⟩
  · exact absurd rfl hv
  · rw [pushes_truth_iff (.compare_reals (.float x) hzero (Or.inl rfl))]
    exact Iff.rfl
  · rw [pushes_truth_iff (.compare_integers hn (.int 0))]
    cases hn with
    | int n =>
      rw [Value.isZero, decide_eq_true_iff, ← Int64.toInt_inj]
      exact Iff.rfl
    | bool b => cases b <;> decide

/-- A branch jumps on the values that are equal to zero, or on all others. -/
theorem jump?_branch_iff {m : Machine} {i : Instruction} {zero : Bool} {j : Nat}
    (hop : i.op = Opcode.branch zero) : m.jump? i = some j ↔
      m.branchTarget? i = some j ∧ ((m.stack.headD (.int 0)).isZero = true ↔ zero = true) := by
  unfold Machine.jump?
  rw [hop, Machine.pop_fst]
  cases zero <;> cases (m.stack.headD (.int 0)).isZero <;> simp [Opcode.branch]

/-- Of two strings, and likewise of two values that are integers or truth values, exactly one comparison
holds, and the comparisons are those of a total order. For strings it is that of dictionaries. A value
other than a string is zero for the branches if it is equal to zero. -/
theorem comparisons_order_values :
    Orders (fun v => v.kind = .str) ∧ Orders (fun v => v.kind = .int ∨ v.kind = .bool) ∧
    (∀ s t : Bytes, less.Pushes (.str s) (.str t) 1 ↔ Bytes.Before s t) ∧
    ∀ v : Value, v.kind ≠ .str → (v.isZero = true ↔ equal.Pushes v (.int 0) 1) ∧
      ∀ (m : Machine) (i : Instruction) (rest : List Value) (zero : Bool) (j : Nat),
        m.stack = v :: rest → i.op = Opcode.branch zero → (m.jump? i = some j ↔
          m.branchTarget? i = some j ∧ (equal.Pushes v (.int 0) 1 ↔ zero = true)) := by
  refine ⟨orders_strings, orders_integers, ?_, ?_⟩
  · intro s t
    rw [pushes_truth_iff (.compare_strings less s t), Bytes.before_iff_lt]
    exact Iff.rfl
  · intro v hv
    refine ⟨isZero_iff_pushes hv, ?_⟩
    intro m i rest zero j hstack hop
    rw [jump?_branch_iff hop, hstack, ← isZero_iff_pushes hv]
    exact Iff.rfl

/-- Strings that differ and strings that begin others, a truth value beside an integer, and a branch on
zero. -/
theorem comparisons_order_values_mixed :
    less.Pushes (.str (text "ab")) (.str (text "b")) 1 ∧
    (∃ op : Comparison, op.Pushes (.bool true) (.int 1) 1 ∧ ∀ o : Comparison, o ≠ op →
      o.Pushes (.bool true) (.int 1) 0 ∧ ¬o.Pushes (.bool true) (.int 1) 1) ∧
    ∃ p, Program.load (text "branch") (text "BO b no\nP $b\n? end\nP 1\nend:") = .ok p ∧
      let m := ((Machine.new p ⟨⟨[], none⟩, .scripted [], text "> ", false⟩).runFor 2).2
      ∃ i, m.current? = some i ∧ m.jump? i = some 5 := by
  obtain ⟨hstrings, hintegers, hbefore, hzero⟩ := comparisons_order_values
  have hbeginning : less.Pushes (.str (text "ab")) (.str (text "abc")) 1 :=
    (hbefore _ _).mpr (.beginning (text "ab") 99 [])
  have hdifference : less.Pushes (.str (text "abc")) (.str (text "b")) 1 :=
    (hbefore _ _).mpr (.difference [] (text "bc") [] (by decide))
  obtain ⟨p, hp, hbranch, hstack⟩ := Program.exists_of_loads
    (P := fun p =>
      let m := ((Machine.new p ⟨⟨[], none⟩, .scripted [], text "> ", false⟩).runFor 2).2
      m.current?.map (fun i => (i.op, m.branchTarget? i)) = some (Opcode.branch true, some 5) ∧
        m.stack = [.bool false])
    (text "branch") (text "BO b no\nP $b\n? end\nP 1\nend:") (by decide +kernel)
  obtain ⟨i, hi, htarget⟩ := Option.map_eq_some_iff.mp hbranch
  obtain ⟨hop, htarget⟩ := Prod.mk.inj htarget
  obtain ⟨hfalse, hjump⟩ := hzero (.bool false) (by decide)
  refine ⟨hstrings.less_trans rfl rfl rfl hbeginning hdifference,
    hintegers.one (Or.inr rfl) (Or.inl rfl), p, hp, i, hi, ?_⟩
  exact (hjump _ i [] true 5 hstack hop).mpr ⟨htarget, iff_of_true (hfalse.mp rfl) rfl⟩

theorem pushes_reals_iff (ha : IsReal a x) (hb : IsReal b y) (h : SomeFloat a b) :
    equal.Pushes a b 1 ↔ (x == y) = true :=
  pushes_truth_iff (.compare_reals ha hb h)

theorem pushes_integers_iff (ha : IsInteger a m) (hb : IsInteger b n) :
    equal.Pushes a b 1 ↔ m = n :=
  pushes_truth_iff (.compare_integers ha hb)

/-- Numbers that are equal are equal as floats. -/
theorem beq_of_pushes (ha : IsReal a x) (hb : IsReal b y) (h : equal.Pushes a b 1) :
    (x == y) = true := by
  by_cases hfloat : SomeFloat a b
  · exact (pushes_reals_iff ha hb hfloat).mp h
  · cases ha with
    | float x => exact absurd (Or.inl rfl) hfloat
    | integer ha hx =>
      cases hb with
      | float y => exact absurd (Or.inr rfl) hfloat
      | integer hb hy =>
        obtain rfl := (pushes_integers_iff ha hb).mp h
        obtain ⟨r, hr, -⟩ := hx.nearest
        rw [hx.unique hy] at hr ⊢
        exact Binary64.beq_self_of_value? hr

/-- Equality passes on, unless there are two integers on the outside. -/
theorem equal_trans_of_someFloat (ha : IsReal a x) (hb : b.kind ≠ .str) (hc : IsReal c y)
    (hfloat : SomeFloat a c) (hab : equal.Pushes a b 1) (hbc : equal.Pushes b c 1) :
    equal.Pushes a c 1 := by
  obtain ⟨z, hz⟩ := Value.exists_isReal hb
  rw [pushes_reals_iff ha hc hfloat]
  exact Binary64.beq_trans (beq_of_pushes ha hz hab) (beq_of_pushes hz hc hbc)

theorem equal_trans_of_integers (ha : IsInteger a m) (hb : b.kind ≠ .str) (hc : IsInteger c n)
    (hab : equal.Pushes a b 1) (hbc : equal.Pushes b c 1) :
    m = n ∨ b.kind = .float ∧ m ≠ n ∧ (2 ^ 53 < |m| ∨ 2 ^ 53 < |n|) := by
  by_cases heq : m = n
  · exact Or.inl heq
  right
  rcases b.trichotomy with ⟨s, rfl⟩ | ⟨z, rfl⟩ | ⟨k, hk⟩
  · exact absurd rfl hb
  · have hrounded := Binary64.beq_trans (beq_of_pushes ha.isReal (.float z) hab)
      (beq_of_pushes (.float z) hc.isReal hbc)
    exact ⟨rfl, heq, Binary64.long_of_ofInt_beq hrounded heq⟩
  · have hleft := (pushes_integers_iff ha hk).mp hab
    have hright := (pushes_integers_iff hk hc).mp hbc
    exact absurd (hleft.trans hright) heq

/-- Between numbers, equality passes from one value to the next, except that two different integers can be
equal to the same float; one of them is beyond `2 ^ 53` then, and they are not equal to each other. A float
that is equal to an integer is nearest to it among all floats, and no different from it up to `2 ^ 53`. -/
theorem equality_is_transitive_up_to_rounding :
    (∀ a b c : Value, a.kind ≠ .str → b.kind ≠ .str → c.kind ≠ .str →
      equal.Pushes a b 1 → equal.Pushes b c 1 → equal.Pushes a c 1 ∨
        equal.Pushes a c 0 ∧ b.kind = .float ∧ ∃ m n, IsInteger a m ∧ IsInteger c n ∧ m ≠ n ∧
          (2 ^ 53 < |m| ∨ 2 ^ 53 < |n|)) ∧
    ∀ (v : Value) (n : Int) (x : Float), IsInteger v n →
      equal.Pushes v (.float x) 1 ∨ equal.Pushes (.float x) v 1 →
      ∃ r, Binary64.value? x = some r ∧
        (∀ y s, Binary64.value? y = some s → |r - n| ≤ |s - n|) ∧ (|n| ≤ 2 ^ 53 → r = n) := by
  refine ⟨?_, ?_⟩
  · intro a b c ha hb hc hab hbc
    rcases Value.someFloat_or_integers ha hc with hfloat | ⟨m, n, hm, hn⟩
    · obtain ⟨x, hx⟩ := Value.exists_isReal ha
      obtain ⟨y, hy⟩ := Value.exists_isReal hc
      exact Or.inl (equal_trans_of_someFloat hx hb hy hfloat hab hbc)
    · rcases equal_trans_of_integers hm hb hn hab hbc with heq | ⟨hfloat, hne, hlong⟩
      · exact Or.inl ((pushes_integers_iff hm hn).mpr heq)
      · have hgives : Gives (.compare equal) a c (.ofTruth (m = n)) := .compare_integers hm hn
        have hpushes := pushes_truth hgives
        rw [if_neg hne] at hpushes
        exact Or.inr ⟨hpushes, hfloat, m, n, hm, hn, hne, hlong⟩
  · intro v n x hv hequal
    have hbeq : Binary64.value? x = Binary64.value? (Binary64.ofInt n) := by
      rcases hequal with hequal | hequal
      · exact (Binary64.value?_eq_of_beq (beq_of_pushes hv.isReal (.float x) hequal)).symm
      · exact Binary64.value?_eq_of_beq (beq_of_pushes (.float x) hv.isReal hequal)
    obtain ⟨r, hr, hnearest⟩ := Binary64.ofInt_nearest hv.natAbs_lt
    refine ⟨r, hbeq.trans hr, ?_, ?_⟩
    · intro y s hs
      exact hnearest s (Binary64.value?_dyadic hs)
    · intro hshort
      exact hnearest.eq_of_dyadic (Binary64.Dyadic.of_abs_le hshort)

theorem equality_is_transitive_up_to_rounding_one :
    equal.Pushes (.bool true) (.int 1) 1 ∧
    ∃ r, Binary64.value? (Binary64.ofInt 1) = some r ∧ r = 1 := by
  obtain ⟨htransitive, hvalue⟩ := equality_is_transitive_up_to_rounding
  have hleft : equal.Pushes (.bool true) (.float (Binary64.ofInt 1)) 1 :=
    pushes_iff.mpr (by decide +kernel)
  have hright : equal.Pushes (.float (Binary64.ofInt 1)) (.int 1) 1 :=
    pushes_iff.mpr (by decide +kernel)
  refine ⟨?_, ?_⟩
  · rcases htransitive _ _ _ (by decide) (by decide) (by decide) hleft hright with h | ⟨h, -⟩
    · exact h
    · exact absurd (pushes_iff.mp h) (by decide)
  · obtain ⟨r, hr, -, hshort⟩ := hvalue (.int 1) 1 _ (.int 1) (Or.inr hright)
    exact ⟨r, hr, by simpa using hshort (by decide)⟩

/-- Two neighbouring integers are equal to the float that both of them are rounded to. -/
theorem equality_not_transitive :
    let x := Binary64.ofInt 9007199254740992
    Binary64.value? x = some 9007199254740992 ∧
    equal.Pushes (.int 9007199254740993) (.float x) 1 ∧
    equal.Pushes (.float x) (.int 9007199254740992) 1 ∧
    ¬equal.Pushes (.int 9007199254740993) (.int 9007199254740992) 1 := by
  intro x
  refine ⟨?_, pushes_iff.mpr (by decide +kernel), pushes_iff.mpr (by decide +kernel), ?_⟩
  · exact_mod_cast Binary64.value?_ofInt (n := 9007199254740992) (by decide)
  · rw [pushes_iff]
    decide

end Comparison

end LineMachine
