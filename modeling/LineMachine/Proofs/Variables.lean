import LineMachine.Proofs.Changes
import LineMachine.Proofs.History

/-! Variables and their cells along a run. A variable that was ever set reads as what was stored under
its name last, whatever happened to its cell; any other name reads its cell. -/
namespace LineMachine

namespace Store

/-- What is stored under a name. -/
def value? (name : Bytes) : Store → Option Value
  | var x v => if x = name then some v else none
  | cell _ _ => none

/-- What is written to a cell, by itself or as the mirror of a variable. -/
def cell? (a : Address) : Store → Option Int64
  | var x v => if Address.ofName x = a then some v.cell else none
  | cell b n => if b = a then some n else none

/-- The value that was stored last under a name. -/
def lastValue? (name : Bytes) (stores : List Store) : Option Value :=
  (stores.filterMap (value? name)).getLast?

/-- What was written last to a cell. -/
def lastCell? (a : Address) (stores : List Store) : Option Int64 :=
  (stores.filterMap (cell? a)).getLast?

theorem getLast?_filterMap_cons {α β : Type} (f : α → Option β) (x : α) (xs : List α) :
    ((x :: xs).filterMap f).getLast? = (xs.filterMap f).getLast?.or (f x) := by
  rw [List.filterMap_cons]
  cases f x with
  | none => exact Option.or_none.symm
  | some y =>
    rw [List.getLast?_cons]
    cases (xs.filterMap f).getLast? <;> rfl

theorem getElem?_setVar (vars : Std.ExtTreeMap Bytes Value) (s : Store) (name : Bytes) :
    (setVar vars s)[name]? = (value? name s).or vars[name]? := by
  cases s with
  | cell a n => rfl
  | var x v =>
    by_cases h : x = name
    · simp [setVar, value?, h]
    · simp [setVar, value?, h, Std.ExtTreeMap.getElem?_insert]

theorem read_setCell (memory : Memory) (s : Store) (a : Address) :
    (setCell memory s).read a = (cell? a s).getD (memory.read a) := by
  cases s with
  | cell b n =>
    by_cases h : b = a <;> simp [setCell, cell?, Memory.read_write, h]
  | var x v =>
    by_cases h : Address.ofName x = a <;> simp [setCell, cell?, Memory.read_write, h]

theorem getElem?_foldl_setVar (stores : List Store) (vars : Std.ExtTreeMap Bytes Value)
    (name : Bytes) :
    (stores.foldl setVar vars)[name]? = (lastValue? name stores).or vars[name]? := by
  induction stores generalizing vars with
  | nil => rfl
  | cons s stores ih =>
    rw [List.foldl_cons, ih, getElem?_setVar, lastValue?, lastValue?, getLast?_filterMap_cons,
      Option.or_assoc]

theorem read_foldl_setCell (stores : List Store) (memory : Memory) (a : Address) :
    (stores.foldl setCell memory).read a = (lastCell? a stores).getD (memory.read a) := by
  induction stores generalizing memory with
  | nil => rfl
  | cons s stores ih =>
    rw [List.foldl_cons, ih, read_setCell, lastCell?, lastCell?, getLast?_filterMap_cons]
    cases (stores.filterMap (cell? a)).getLast? <;> rfl

end Store

namespace Machine

/-- What an instruction stores, in order: declarations and input set variables, and there are two
ways to write cells. An address out of range is no cell. -/
def stores (m : Machine) (i : Instruction) : List Store :=
  match i.op with
  | .declare k =>
    match i.operand? 0 with
    | some name => [.var name.token (declared i k).1]
    | none => []
  | .input => [.var (inputName i) (inputValue m.inputLine)]
  | .memSet =>
    match m.intOperand i 0, m.intOperand i 1 with
    | .ok address, .ok n => (Address.ofInt? address.toInt).toList.map fun a => .cell a n
    | _, _ => []
  | .randomCells => (Change.randomCells firstCells m.random).1
  | _ => []

/-- Everything that a run stores within `n` steps, in order. -/
def history (n : Nat) (m : Machine) : List Store :=
  (m.executed n).flatMap fun (m, i) => m.stores i

theorem stores_result (takes : Nat) (c : Cause) (v : Option Value) :
    (Change.result takes c v).stores = [] := by
  cases v <;> rfl

theorem stores_change (m : Machine) (i : Instruction) : (m.change i).stores = m.stores i := by
  unfold change stores
  cases i.op with
  | memSet =>
    simp only [memSetChange]
    rcases m.intOperand i 0 with c | address <;> rcases m.intOperand i 1 with d | n
    · rfl
    · rfl
    · rfl
    · simp only
      cases Address.ofInt? address.toInt <;> rfl
  | declare k =>
    simp only [declareChange]
    cases i.operand? 0 <;> rfl
  | push =>
    simp only [pushChange]
    cases i.operand? 0 <;> rfl
  | memGet =>
    simp only [memGetChange]
    cases m.intOperand i 0 <;> exact stores_result _ _ _
  | random =>
    simp only [randomChange]
    cases m.limit i <;> rfl
  | arith op => exact stores_result _ _ _
  | compare op => exact stores_result _ _ _
  | bitwise op => cases op <;> exact stores_result _ _ _
  | complement => exact stores_result _ _ _
  | _ => rfl

theorem execute_vars (m : Machine) (i : Instruction) :
    (m.execute i).vars = (m.stores i).foldl Store.setVar m.vars := by
  rw [execute_change, ← stores_change]

theorem execute_memory (m : Machine) (i : Instruction) :
    (m.execute i).memory = (m.stores i).foldl Store.setCell m.memory := by
  rw [execute_change, ← stores_change]

/-- The variables after a run are those from before with everything stored that the run stored. -/
theorem runFor_vars (m : Machine) (n : Nat) :
    (m.runFor n).2.vars = (m.history n).foldl Store.setVar m.vars := by
  rw [history, List.foldl_flatMap]
  exact runFor_replay Machine.vars (fun vars e => (e.1.stores e.2).foldl Store.setVar vars)
    execute_vars (fun _ _ => rfl) (fun _ _ => rfl) m n

theorem runFor_memory (m : Machine) (n : Nat) :
    (m.runFor n).2.memory = (m.history n).foldl Store.setCell m.memory := by
  rw [history, List.foldl_flatMap]
  exact runFor_replay Machine.memory (fun memory e => (e.1.stores e.2).foldl Store.setCell memory)
    execute_memory (fun _ _ => rfl) (fun _ _ => rfl) m n

end Machine
end LineMachine
