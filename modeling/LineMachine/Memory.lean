import Std.Data.ExtTreeMap
import LineMachine.Text.Bytes

/-! Linear memory: a million word cells, zero until written. -/
namespace LineMachine

def memorySize : Nat := 1000000

abbrev Address := Fin memorySize

namespace Address

def ofInt? (n : Int) : Option Address :=
  if h : 0 ≤ n ∧ n.toNat < memorySize then some ⟨n.toNat, h.2⟩ else none

/-- The 64-bit FNV-1a hash. -/
def hash (s : Bytes) : UInt64 :=
  s.foldl (fun h b => (h ^^^ b.toUInt64) * 0x100000001B3) 0xCBF29CE484222325

/-- The cell that mirrors a variable. -/
def ofName (name : Bytes) : Address :=
  ⟨(hash name).toNat % memorySize, Nat.mod_lt _ (by decide)⟩

end Address

/-- Only the cells that are not zero are kept, so equal contents are equal memories. -/
structure Memory where
  cells : Std.ExtTreeMap Address Int64
  nonzero : ∀ a : Address, cells[a]? ≠ some 0
  deriving DecidableEq

namespace Memory

def empty : Memory := ⟨∅, by simp⟩

instance : EmptyCollection Memory := ⟨empty⟩

def read (m : Memory) (a : Address) : Int64 := m.cells[a]?.getD 0

def write (m : Memory) (a : Address) (n : Int64) : Memory :=
  if h : n = 0 then
    ⟨m.cells.erase a, fun b => by
      rw [Std.ExtTreeMap.getElem?_erase]
      split
      · simp
      · exact m.nonzero b⟩
  else
    ⟨m.cells.insert a n, fun b => by
      rw [Std.ExtTreeMap.getElem?_insert]
      split
      · simpa using h
      · exact m.nonzero b⟩

/-- The cells that are not zero, by address. -/
def toList (m : Memory) : List (Address × Int64) := m.cells.toList

theorem read_write (m : Memory) (a b : Address) (n : Int64) :
    (m.write a n).read b = if a = b then n else m.read b := by
  unfold write read
  split
  next h =>
    subst h
    simp only [Std.ExtTreeMap.getElem?_erase, Std.compare_eq_iff_eq]
    split <;> simp_all
  next h =>
    simp only [Std.ExtTreeMap.getElem?_insert, Std.compare_eq_iff_eq]
    split <;> simp_all

theorem read_empty (a : Address) : (∅ : Memory).read a = 0 := by
  change (empty.cells[a]?).getD 0 = 0
  simp [empty]

end Memory
end LineMachine
