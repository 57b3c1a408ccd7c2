import LineMachine.Proofs.Safety

/-! Execution with guards: every primitive first checks that it is used within its domain, and a
failed check ends the run with a trap. No check ever fails, so guarded runs are the runs
themselves. -/
namespace LineMachine

/-- A primitive was used outside its domain. -/
inductive Trap where
  | outOfBounds (index : Int) (size : Nat)
  | zeroDivisor
  | emptyRange (bound : Int64)
  | negativeCount (count : Int64)

namespace Guarded

@[simp] theorem ok_bind {α β : Type} (a : α) (f : α → Except Trap β) : (Except.ok a >>= f) = f a := rfl

theorem mapM_ok {α β : Type} {g : α → Except Trap β} {f : α → β} (h : ∀ x, g x = .ok (f x))
    (xs : List α) : xs.mapM g = .ok (xs.map f) := by
  rw [show g = fun x => pure (f x) from funext h, List.mapM_pure]
  rfl

theorem foldlM_ok {α β : Type} {g : β → α → Except Trap β} {f : β → α → β}
    (h : ∀ b x, g b x = .ok (f b x)) (xs : List α) (b : β) :
    xs.foldlM g b = .ok (xs.foldl f b) := by
  rw [show g = fun b x => pure (f b x) from funext fun b => funext (h b), List.foldlM_pure]
  rfl

/-- The entry at an index. -/
def entry {α : Type} (xs : Array α) (n : Int) : Except Trap α :=
  match if 0 ≤ n then xs[n.toNat]? else none with
  | some x => .ok x
  | none => .error (.outOfBounds n xs.size)

/-- All cells of a memory in a row. -/
def dense (m : Memory) : Array Int64 := Array.ofFn m.read

/-- Writes the cell at an index. -/
def store (m : Memory) (n : Int) (v : Int64) : Except Trap Memory :=
  if h : 0 ≤ n ∧ n.toNat < (dense m).size then
    .ok (m.write ⟨n.toNat, by simpa [dense] using h.2⟩ v)
  else .error (.outOfBounds n (dense m).size)

def quotient (a b : Nat) : Except Trap Nat := if b = 0 then .error .zeroDivisor else .ok (a / b)

def div (a b : Int64) : Except Trap Int64 :=
  if b = 0 then .error .zeroDivisor else .ok (Floor.div a b)

def mod (a b : Int64) : Except Trap Int64 :=
  if b = 0 then .error .zeroDivisor else .ok (Floor.mod a b)

/-- A random number below a bound, which must be positive. -/
def below (bound : Int64) (r : Random) : Except Trap (Nat × Random) :=
  if bound ≤ 0 then .error (.emptyRange bound) else .ok (r.below bound.toInt.toNat)

/-- Copies of a text in a row; their number must not be negative. -/
def copies (s : Bytes) (n : Int64) : Except Trap Bytes :=
  if n < 0 then .error (.negativeCount n) else .ok (Nat.repeat (s ++ ·) n.toInt.toNat [])

/-- A list that grows at its head, as a row that grows at its end. -/
def row {α : Type} (xs : List α) : Array α := xs.reverse.toArray

/-- The entry that was added last. -/
def last {α : Type} (xs : List α) : Except Trap α := entry (row xs) (xs.length - 1)

theorem last_cons {α : Type} (x : α) (xs : List α) : last (x :: xs) = .ok x := by
  have hlast : (row (x :: xs))[xs.length]? = some x := by simp [row]
  have hlen : ((x :: xs).length : Int) - 1 = xs.length := by simp
  rw [last, hlen, entry, if_pos (Int.natCast_nonneg _), Int.toNat_natCast, hlast]

theorem size_dense (m : Memory) : (dense m).size = memorySize := Array.size_ofFn

theorem entry_ofFn {α : Type} {n : Nat} (f : Fin n → α) (a : Fin n) :
    entry (Array.ofFn f) a.val = .ok (f a) := by
  have hread : (Array.ofFn f)[a.val]? = some (f a) := by simp
  rw [entry, if_pos (Int.natCast_nonneg _), Int.toNat_natCast, hread]

theorem entry_dense (m : Memory) (a : Address) : entry (dense m) a.val = .ok (m.read a) :=
  entry_ofFn m.read a

theorem store_eq (m : Memory) (a : Address) (v : Int64) : store m a.val v = .ok (m.write a v) := by
  have hin : 0 ≤ (a.val : Int) ∧ (a.val : Int).toNat < (dense m).size := by
    rw [size_dense, Int.toNat_natCast]
    exact ⟨Int.natCast_nonneg _, a.isLt⟩
  rw [store, dif_pos hin]
  rfl

/-- The index of the cell that mirrors a variable. -/
def slot (name : Bytes) : Int := ((Address.hash name).toNat % memorySize : Nat)

theorem slot_eq (name : Bytes) : slot name = (Address.ofName name).val := rfl

section Operators

def repeated? (s : Bytes) (n : Int64) : Except Trap (Option Value) :=
  if n ≤ 0 ∨ s = [] then .ok (some (.str []))
  else do
    let most ← quotient Value.maxRepeated s.length
    if most < n.toInt.toNat then .ok none
    else return some (.str (← copies s n))

theorem repeated?_eq (s : Bytes) (n : Int64) : repeated? s n = .ok (Value.repeated? s n) := by
  unfold repeated? Value.repeated?
  split
  · rfl
  · rename_i h
    have hs : s.length ≠ 0 := by simpa using fun hs => h (Or.inr hs)
    have hn : ¬ n < 0 := fun hn => h (Or.inl (Int64.le_of_lt hn))
    simp only [quotient, copies, hs, hn, if_false]
    change (if _ then _ else _) = _
    split <;> rfl

def onWords (op : Arith) (a b : Int64) : Except Trap Int64 :=
  match op with
  | .div => if b = 0 then .ok 0 else div a b
  | .mod => if b = 0 then .ok 0 else mod a b
  | op => .ok (op.onWords a b)

theorem onWords_eq (op : Arith) (a b : Int64) : onWords op a b = .ok (op.onWords a b) := by
  cases op with
  | add | sub | mul => rfl
  | div | mod => by_cases hb : b = 0 <;> simp [onWords, Arith.onWords, div, mod, hb]

def onNumbers (op : Arith) : Number → Number → Except Trap Value
  | .int a, .int b => return .int (← onWords op a b)
  | a, b => .ok (op.onFloats a.toFloat b.toFloat)

theorem onNumbers_eq (op : Arith) (a b : Number) : onNumbers op a b = .ok (op.onNumbers a b) := by
  cases a <;> cases b <;> simp only [onNumbers, onWords_eq] <;> rfl

def arith (op : Arith) (a b : Value) : Except Trap (Option Value) :=
  match op, a, b with
  | .add, .str s, .str t => .ok (some (.str (s ++ t)))
  | .mul, .str _, .str _ => .ok none
  | .mul, .str s, n => (n.word?.map (repeated? s)).getD (.ok none)
  | .mul, n, .str s => (n.word?.map (repeated? s)).getD (.ok none)
  | _, _, _ =>
    match a.number?, b.number? with
    | some m, some n => return some (← onNumbers op m n)
    | _, _ => .ok none

theorem repeats_eq (s : Bytes) (v : Value) : (v.word?.map (repeated? s)).getD (.ok none) =
    .ok (v.word?.bind (Value.repeated? s)) := by
  cases v.word? with
  | none => rfl
  | some n => exact repeated?_eq s n

theorem numbers_eq (op : Arith) (m n : Number) : (do return some (← onNumbers op m n)) =
    (.ok (some (op.onNumbers m n)) : Except Trap (Option Value)) := by
  rw [onNumbers_eq]
  rfl

theorem arith_eq (op : Arith) (a b : Value) : arith op a b = .ok (op.result? a b) := by
  cases op with
  | add | sub | div | mod =>
    cases a with
    | str s => cases b <;> rfl
    | int m | float m | bool m =>
      cases b with
      | str s => rfl
      | int n | float n | bool n => exact numbers_eq _ _ _
  | mul =>
    cases a with
    | str s =>
      cases b with
      | str t => rfl
      | int n => exact repeats_eq s (.int n)
      | float x => exact repeats_eq s (.float x)
      | bool c => exact repeats_eq s (.bool c)
    | int m =>
      cases b with
      | str s => exact repeats_eq s (.int m)
      | int n | float n | bool n => exact numbers_eq _ _ _
    | float m =>
      cases b with
      | str s => exact repeats_eq s (.float m)
      | int n | float n | bool n => exact numbers_eq _ _ _
    | bool m =>
      cases b with
      | str s => exact repeats_eq s (.bool m)
      | int n | float n | bool n => exact numbers_eq _ _ _

end Operators

section Values

variable (m : Machine) (i : Instruction)

def pop : Except Trap (Value × Machine) :=
  if m.stack.length = 0 then .ok (.int 0, m)
  else return (← last m.stack, { m with stack := m.stack.tail })

@[simp] theorem pop_eq : pop m = .ok m.pop := by
  unfold pop Machine.pop
  cases m.stack with
  | nil => rfl
  | cons v s =>
    rw [last_cons]
    rfl

/-- A variable that was never set is read from its cell. -/
def getVar (name : Bytes) : Except Trap Value :=
  match m.vars[name]? with
  | some v => .ok v
  | none => return .int (← entry (dense m.memory) (slot name))

@[simp] theorem getVar_eq (name : Bytes) : getVar m name = .ok (m.getVar name) := by
  unfold getVar Machine.getVar
  cases m.vars[name]? with
  | some v => rfl
  | none =>
    rw [slot_eq, entry_dense]
    rfl

def setVar (name : Bytes) (v : Value) : Except Trap Machine :=
  return { m with vars := m.vars.insert name v, memory := ← store m.memory (slot name) v.cell }

@[simp] theorem setVar_eq (name : Bytes) (v : Value) : setVar m name v = .ok (m.setVar name v) := by
  rw [setVar, slot_eq, store_eq]
  rfl

/-- Whether an address is no index of a cell. -/
def outside (a : Int64) : Prop := a < 0 ∨ (dense m.memory).size ≤ a.toInt

instance (a : Int64) : Decidable (outside m a) := inferInstanceAs (Decidable (_ ∨ _))

theorem ofInt?_of_outside {a : Int64} (h : outside m a) : Address.ofInt? a.toInt = none := by
  rw [outside, Int64.lt_iff_toInt_lt, Int64.toInt_zero, size_dense] at h
  exact dif_neg (by omega)

theorem ofInt?_of_inside {a : Int64} (h : ¬ outside m a) :
    ∃ c : Address, Address.ofInt? a.toInt = some c ∧ a.toInt = c.val := by
  rw [outside, Int64.lt_iff_toInt_lt, Int64.toInt_zero, size_dense] at h
  have hin : 0 ≤ a.toInt ∧ a.toInt.toNat < memorySize := by omega
  exact ⟨⟨a.toInt.toNat, hin.2⟩, dif_pos hin, (Int.toNat_of_nonneg hin.1).symm⟩

def memWrite (address n : Int64) : Except Trap Machine :=
  if outside m address then .ok (m.fault (.outOfMemory address))
  else return { m with memory := ← store m.memory address.toInt n }

@[simp] theorem memWrite_eq (address n : Int64) :
    memWrite m address n = .ok (m.memWrite address n) := by
  unfold memWrite Machine.memWrite
  split
  · rename_i h
    rw [ofInt?_of_outside m h]
  · rename_i h
    obtain ⟨c, haddr, hc⟩ := ofInt?_of_inside m h
    rw [haddr, hc, store_eq]
    rfl

def memRead (address : Int64) : Except Trap (Int64 × Machine) :=
  if outside m address then .ok (0, m.fault (.outOfMemory address))
  else return (← entry (dense m.memory) address.toInt, m)

@[simp] theorem memRead_eq (address : Int64) : memRead m address = .ok (m.memRead address) := by
  unfold memRead Machine.memRead
  split
  · rename_i h
    rw [ofInt?_of_outside m h]
  · rename_i h
    obtain ⟨c, haddr, hc⟩ := ofInt?_of_inside m h
    rw [haddr, hc, entry_dense]
    rfl

def operandValue : Operand → Except Trap Value
  | .ref name => getVar m name
  | .literal _ n => .ok (.int n)
  | .word t => .ok (.str t)

@[simp] theorem operandValue_eq (o : Operand) : operandValue m o = .ok (m.operandValue o) := by
  cases o with
  | ref name => exact getVar_eq m name
  | literal _ n | word t => rfl

def intOperand (n : Nat) : Except Trap (Except Cause Int64) :=
  match i.operand? n with
  | none => .ok (.error (.missingOperand i.mnemonic (n + 1)))
  | some (.literal _ k) => .ok (.ok k)
  | some (.word t) => .ok (.error (.notInteger t))
  | some (.ref name) => do
    match (← getVar m name).reading? with
    | some k => .ok (.ok k)
    | none => .ok (.error (.notInteger (Operand.ref name).token))

@[simp] theorem intOperand_eq (n : Nat) : intOperand m i n = .ok (m.intOperand i n) := by
  unfold intOperand Machine.intOperand
  rcases i.operand? n with _ | name | ⟨t, k⟩ | t
  · rfl
  · simp only [getVar_eq, ok_bind]
    cases (m.getVar name).reading? <;> rfl
  · rfl
  · rfl

def render (t : Template) : Except Trap Bytes := do
  let parts ← t.mapM fun
    | .literal s => .ok s
    | .ref name => return (← getVar m name).print
  return parts.flatten

@[simp] theorem render_eq (t : Template) : render m t = .ok (m.render t) := by
  unfold render Machine.render
  rw [mapM_ok (f := fun
    | .literal s => s
    | .ref name => (m.getVar name).print), ok_bind, ← List.flatMap_def]
  · rfl
  · intro x
    cases x with
    | literal s => rfl
    | ref name =>
      simp only [getVar_eq, ok_bind]
      rfl

end Values

section Instructions

variable (m : Machine) (i : Instruction)

def binary (f : Value → Value → Except Trap (Option Value)) : Except Trap Machine := do
  let (b, m) ← pop m
  let (a, m) ← pop m
  return m.pushResult (.mismatch a.kind i.mnemonic b.kind) (← f a b)

theorem binary_eq {f : Value → Value → Except Trap (Option Value)}
    {g : Value → Value → Option Value} (h : ∀ a b, f a b = .ok (g a b)) :
    binary m i f = .ok (m.binary i g) := by
  simp only [binary, pop_eq, ok_bind, h]
  rfl

def flipped (f : Value → Value → Except Trap (Option Value)) : Except Trap Machine := do
  let (a, m) ← pop m
  let (b, m) ← pop m
  return m.pushResult (.mismatch a.kind i.mnemonic b.kind) (← f a b)

theorem flipped_eq {f : Value → Value → Except Trap (Option Value)}
    {g : Value → Value → Option Value} (h : ∀ a b, f a b = .ok (g a b)) :
    flipped m i f = .ok (m.flipped i g) := by
  simp only [flipped, pop_eq, ok_bind, h]
  rfl

def print : Except Trap Machine := do
  let s ← render m i.template
  let m := m.writeLine (m.color.escape ++ s ++ Color.reset.escape)
  return { m with printed := m.printed.push s }

@[simp] theorem print_eq : print m i = .ok (m.print i) := by
  rw [print, render_eq]
  rfl

def memSet : Except Trap Machine := do
  match ← intOperand m i 0, ← intOperand m i 1 with
  | .ok a, .ok n => memWrite m a n
  | a, n => .ok ((m.report (Machine.problem a)).report (Machine.problem n))

@[simp] theorem memSet_eq : memSet m i = .ok (m.memSet i) := by
  simp only [memSet, Machine.memSet, intOperand_eq, ok_bind]
  cases m.intOperand i 0 with
  | error c => rfl
  | ok a =>
    cases m.intOperand i 1 with
    | error c => rfl
    | ok n => exact memWrite_eq m a n

def memGet : Except Trap Machine := do
  match ← intOperand m i 0 with
  | .ok a =>
    let (n, m) ← memRead m a
    return m.push (.int n)
  | .error c => return (m.fault c).push (.int 0)

@[simp] theorem memGet_eq : memGet m i = .ok (m.memGet i) := by
  simp only [memGet, Machine.memGet, intOperand_eq, ok_bind]
  cases m.intOperand i 0 with
  | error c => rfl
  | ok a =>
    simp only [memRead_eq, ok_bind]
    rfl

/-- The bound is checked after it was found, whether it was given or not. -/
def pushRandom : Except Trap Machine := do
  match ← if i.operands = [] then .ok (.ok 256) else intOperand m i 0 with
  | .error c => return (m.fault c).push (.int 0)
  | .ok n =>
    if n ≤ 0 then return (m.fault (.badLimit n)).push (.int 0)
    else
      let (k, r) ← below n m.random
      return { m with random := r }.push (.int (Int64.ofNat k))

@[simp] theorem pushRandom_eq : pushRandom m i = .ok (m.pushRandom i) := by
  unfold pushRandom Machine.pushRandom Machine.limit
  by_cases h : i.operands = []
  · simp only [h, if_true, ok_bind]
    rfl
  · simp only [h, if_false, intOperand_eq, ok_bind]
    cases m.intOperand i 0 with
    | error c => rfl
    | ok n => by_cases hn : n ≤ 0 <;> simp only [hn, below, if_true, if_false, ok_bind] <;> rfl

/-- Draws a byte and writes it to a cell. -/
def randomCell (n : Nat) : Except Trap Machine := do
  let (k, r) ← below 256 m.random
  memWrite { m with random := r } (Int64.ofNat n) (Int64.ofNat k)

def randomCells : Except Trap Machine := (List.range 16).foldlM randomCell m

theorem randomCell_eq (n : Fin 16) : randomCell m n =
    .ok (m.randomCell ⟨n.val, Nat.lt_trans n.isLt (by decide)⟩) := by
  have haddr : Address.ofInt? n.val = some ⟨n.val, Nat.lt_trans n.isLt (by decide)⟩ :=
    dif_pos ⟨Int.natCast_nonneg _, Nat.lt_trans n.isLt (by decide)⟩
  have hbelow : below 256 m.random = .ok (m.random.below 256) := by
    rw [below, if_neg (by decide)]
    rfl
  have hint : (Int64.ofNat n).toInt = (n.val : Int) :=
    Int64.toInt_ofNat_of_lt (Nat.lt_trans n.isLt (by decide))
  simp only [randomCell, hbelow, ok_bind, memWrite_eq, Machine.memWrite, hint, haddr]
  rfl

@[simp] theorem randomCells_eq :
    randomCells m = .ok (Machine.firstCells.foldl Machine.randomCell m) := by
  have hrange : List.range 16 = (List.finRange 16).map Fin.val := by decide
  rw [randomCells, hrange, List.foldlM_map, foldlM_ok randomCell_eq, Machine.firstCells,
    List.foldl_map]

def character (n : Int64) : Except Trap Bytes :=
  return Utf8.encodePoint (← mod n 256).toInt.toNat

def printStack : Except Trap Machine := do
  let values := m.stack.reverse
  let m := values.foldl (fun m v =>
    match v.word? with
    | some _ => m
    | none => m.fault (.notCharacter v.kind)) m
  let characters ← (values.filterMap Value.word?).mapM character
  return m.writeLine characters.flatten

@[simp] theorem printStack_eq : printStack m = .ok m.printStack := by
  have hchar : ∀ n, character n = .ok (Machine.character n) := by
    intro n
    rw [character, mod, if_neg (by decide)]
    rfl
  simp only [printStack, mapM_ok hchar, ok_bind, ← List.flatMap_def]
  rfl

def readInput : Except Trap Machine := do
  let name := ((i.operand? 0).map Operand.token).getD (text "in")
  let m := m.write m.prompt
  let reading := m.input.readLine
  let m := { m with input := reading.rest }.report (reading.problem.map Machine.inputCause)
  let line := Bytes.trimEndWhile (fun b => b = 13 || b = 10) reading.line
  match Machine.inputNumber? line with
  | some n => setVar (m.push (.int n)) name (.int n)
  | none =>
    let codes := (Utf8.decode line).map fun p => Value.int (Int64.ofNat p.codePoint)
    setVar ((codes.foldl Machine.push m).push (.int 10)) name (.str line)

@[simp] theorem readInput_eq : readInput m i = .ok (m.readInput i) := by
  simp only [readInput, Machine.readInput, setVar_eq]
  generalize Machine.inputNumber? _ = number
  cases number <;> rfl

def declare (k : Kind) : Except Trap Machine :=
  match i.operand? 0 with
  | none => .ok (m.fault (.missingName i.mnemonic))
  | some name =>
    let (v, cause) := Machine.declared i k
    setVar (m.report cause) name.token v

@[simp] theorem declare_eq (k : Kind) : declare m i k = .ok (m.declare i k) := by
  unfold declare Machine.declare
  cases i.operand? 0 with
  | none => rfl
  | some name => exact setVar_eq _ _ _

/-- What an instruction does; those left out use no primitive with a check. -/
def effect : Except Trap Machine :=
  match i.op with
  | .print => print m i
  | .push =>
    match i.operand? 0 with
    | some o => return m.push (← operandValue m o)
    | none => .ok (m.writeLine [])
  | .popPrint => do
    let (v, m) ← pop m
    return m.writeLine v.print
  | .memSet => memSet m i
  | .memGet => memGet m i
  | .random => pushRandom m i
  | .dup => do
    let (v, m) ← pop m
    return (m.push v).push v
  | .swap => do
    let (a, m) ← pop m
    let (b, m) ← pop m
    return (m.push a).push b
  | .randomCells => randomCells m
  | .sumFirst => do
    let (a, m) ← memRead m 0
    let (b, m) ← memRead m 1
    return m.push (.int (a + b))
  | .stackText => printStack m
  | .arith op => binary m i (arith op)
  | .compare op => binary m i fun a b => .ok (op.result? a b)
  | .bitwise .xor => flipped m i fun a b => .ok (Bitwise.xor.result? a b)
  | .bitwise op => binary m i fun a b => .ok (op.result? a b)
  | .complement => do
    let (a, m) ← pop m
    return m.pushResult (.notWord i.mnemonic a.kind) (a.word?.map fun n => .int (~~~n))
  | .branchZero | .branchNonzero => return (← pop m).2
  | .input => readInput m i
  | .declare k => declare m i k
  | .unknown | .label | .halt | .color | .reverse | .loopOpen | .loopClose | .callOpen
  | .callClose => .ok (m.effect i)

theorem effect_eq : effect m i = .ok (m.effect i) := by
  unfold effect Machine.effect
  cases i.op with
  | unknown | label | halt | color | reverse | loopOpen | loopClose | callOpen | callClose => rfl
  | print => exact print_eq m i
  | push =>
    cases i.operand? 0 with
    | none => rfl
    | some o => simp only [operandValue_eq, ok_bind]; rfl
  | popPrint | dup | swap | complement | branchZero | branchNonzero =>
    simp only [pop_eq, ok_bind]
    rfl
  | memSet => exact memSet_eq m i
  | memGet => exact memGet_eq m i
  | random => exact pushRandom_eq m i
  | randomCells => exact randomCells_eq m
  | sumFirst =>
    simp only [memRead_eq, ok_bind]
    rfl
  | stackText => exact printStack_eq m
  | arith op => exact binary_eq m i (arith_eq op)
  | compare op => exact binary_eq m i fun _ _ => rfl
  | bitwise op =>
    cases op with
    | xor => exact flipped_eq m i fun _ _ => rfl
    | and | or => exact binary_eq m i fun _ _ => rfl
  | input => exact readInput_eq m i
  | declare k => exact declare_eq m i k

end Instructions

section Runs

/-- The index that a branch leaves behind: that of its label, or its own. -/
def branch (m : Machine) (i : Instruction) : Int :=
  match (i.operand? 0).bind fun o => m.program.label? o.token with
  | some j => j
  | none => m.pc

/-- The index that an instruction leaves behind; the step then moves on to the index after it. -/
def landing (m : Machine) (i : Instruction) : Except Trap Int :=
  match i.op with
  | .branchZero => return if (← pop m).1.isZero then branch m i else m.pc
  | .branchNonzero => return if (← pop m).1.isZero then m.pc else branch m i
  | .loopClose => if m.loops.length = 0 then .ok m.pc else return (← last m.loops) - 1
  | .callClose => if m.calls.length = 0 then .ok m.pc else return (← last m.calls)
  | _ => .ok m.pc

def step (m : Machine) : Except Trap Machine := do
  let i ← entry m.program.lines m.pc
  let done ← effect (m.trace i) i
  let pc ← landing m i
  return { done with pc := pc + 1, steps := m.steps + 1 }

/-- A run that tests before every step whether the machine is running inside the program. -/
def runFor (n : Nat) (m : Machine) : Except Trap (Outcome × Machine) :=
  if m.running ∧ 0 ≤ m.pc ∧ m.pc < m.program.size then
    match m.consumeGas? 1 with
    | none => .ok (.exhausted m.steps, { m.fault (.outOfGas m.steps) with running := false })
    | some paid =>
      match n with
      | 0 => .ok (.unfinished, m)
      | n + 1 => do runFor n (← step paid)
  else .ok (.finished, m)

variable {m : Machine} {i : Instruction}

theorem branch_eq (m : Machine) (i : Instruction) : branch m i + 1 =
    match m.branchTarget? i with
    | some j => (j : Int)
    | none => m.pc + 1 := by
  unfold branch Machine.branchTarget?
  cases i.operand? 0 with
  | none => rfl
  | some o =>
    change (match m.program.label? o.token with | some j => (j : Int) | none => m.pc) + 1 = _
    simp only [Option.bind_eq_bind, Option.bind_some]
    cases m.program.label? o.token <;> rfl

/-- Landing one index before the target and moving on is jumping to the target. -/
theorem landing_eq (m : Machine) (i : Instruction) :
    ∃ j, landing m i = .ok j ∧ j + 1 = m.next i := by
  have hb := branch_eq m i
  unfold landing Machine.next Machine.jump?
  cases i.op with
  | branchZero =>
    cases hz : m.pop.1.isZero with
    | true => exact ⟨branch m i, by simp only [pop_eq, ok_bind, hz]; rfl, hb⟩
    | false => exact ⟨m.pc, by simp only [pop_eq, ok_bind, hz]; rfl, rfl⟩
  | branchNonzero =>
    cases hz : m.pop.1.isZero with
    | true => exact ⟨m.pc, by simp only [pop_eq, ok_bind, hz]; rfl, rfl⟩
    | false => exact ⟨branch m i, by simp only [pop_eq, ok_bind, hz]; rfl, hb⟩
  | loopClose =>
    cases m.loops with
    | nil => exact ⟨m.pc, rfl, rfl⟩
    | cons j js => exact ⟨j - 1, by simp only [last_cons, ok_bind]; rfl, by simp⟩
  | callClose =>
    cases m.calls with
    | nil => exact ⟨m.pc, rfl, rfl⟩
    | cons j js => exact ⟨j, by simp only [last_cons, ok_bind]; rfl, by simp⟩
  | _ => exact ⟨m.pc, rfl, rfl⟩

theorem step_eq (hi : m.current? = some i) : step m = .ok (m.execute i) := by
  obtain ⟨hpc, hline⟩ := Machine.current?_eq_some.mp hi
  have hentry : entry m.program.lines m.pc = .ok i := by rw [entry, if_pos hpc, hline]
  obtain ⟨j, hj, hnext⟩ := landing_eq m i
  rw [step, hentry, ok_bind, effect_eq, ok_bind, hj, ok_bind, hnext]
  rfl

theorem runFor_eq (n : Nat) (m : Machine) : runFor n m = .ok (m.runFor n) := by
  induction n using Nat.strongRecOn generalizing m with
  | ind n ih =>
    rcases Machine.turn_cases m with hp | ⟨i, hp, hg⟩ | ⟨i, g, hp, hg⟩
    · rw [Machine.runFor_of_stopped hp, runFor, if_neg (Machine.pending?_eq_none_iff.mp hp)]
    · have hin := Machine.inside_of_pending hp
      rw [Machine.runFor_of_unpaid hp hg, runFor, if_pos hin, hg]
    · have hin := Machine.inside_of_pending hp
      cases n with
      | zero =>
        rw [Machine.runFor_zero_of_paid hp hg, runFor, if_pos hin, hg]
      | succ n =>
        have hstep : step { m with gas := g } = .ok _ := step_eq (Machine.pending?_eq_some.mp hp).2
        rw [Machine.runFor_succ_of_paid hp hg, runFor, if_pos hin, hg]
        simp only [hstep, ok_bind]
        exact ih n (Nat.lt_succ_self n) _

end Runs

end Guarded

/-- A run of a loaded program, with any surroundings and any gas, never traps; at every point of it
the machine is sound, labels are bound to lines, and the memory has all its cells. -/
theorem run_trap_free {name source : Bytes} {p : Program} (hp : Program.load name source = .ok p)
    (s : Setup) (gas : Int64) (n : Nat) :
    let m := (Machine.new p s).setGas gas
    Guarded.runFor n m = .ok (m.runFor n) ∧ Machine.Sound p (m.runFor n).2 ∧
      (∀ label j, p.label? label = some j → j < p.size) ∧
      (Guarded.dense (m.runFor n).2.memory).size = 1000000 := by
  intro m
  have hclosed := Program.closed_load hp
  have hm : Machine.Reachable p m := .setGas gas (.new s)
  exact ⟨Guarded.runFor_eq n m, Machine.sound_runFor hclosed (Machine.sound_reachable hclosed hm) n,
    hclosed, Guarded.size_dense _⟩

/-- A loop around a call, entered over and over, until there is no gas left. -/
theorem run_trap_free_nested :
    ∃ p, Program.load (text "nested") (text "[\n\x7b\n~ 3\nP 7\n/\n\x7d\n]") = .ok p ∧
      let m := (Machine.new p ⟨⟨[], none⟩, .scripted [5], text "> ", true⟩).setGas 40
      Guarded.runFor 50 m = .ok (m.runFor 50) ∧ Machine.Sound p (m.runFor 50).2 ∧
        (∀ label j, p.label? label = some j → j < p.size) ∧
        (Guarded.dense (m.runFor 50).2.memory).size = 1000000 := by
  obtain ⟨p, hp, -⟩ := Program.exists_of_loads (P := fun _ => True) (text "nested")
    (text "[\n\x7b\n~ 3\nP 7\n/\n\x7d\n]") (by decide +kernel)
  exact ⟨p, hp, run_trap_free hp _ 40 50⟩

end LineMachine
