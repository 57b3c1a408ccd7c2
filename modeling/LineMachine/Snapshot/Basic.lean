import LineMachine.Machine.Basic

/-! Snapshots: the state of a machine at one point, as far as it is written down. -/
namespace LineMachine

/-- A value with its kind by name. Only the field that belongs to the kind matters, but a snapshot
from elsewhere may fill the others too. -/
structure TaggedValue where
  kind : Bytes := []
  int : Int64 := 0
  float : Float := 0
  str : Bytes := []
  bool : Bool := false
  deriving DecidableEq

namespace TaggedValue

def ofValue (v : Value) : TaggedValue :=
  match v with
  | .int n => { kind := v.kind.name, int := n }
  | .float x => { kind := v.kind.name, float := x }
  | .str s => { kind := v.kind.name, str := s }
  | .bool b => { kind := v.kind.name, bool := b }

/-- A kind that is not known counts as an integer. -/
def toValue (t : TaggedValue) : Value :=
  if t.kind = Kind.float.name then .float t.float
  else if t.kind = Kind.str.name then .str t.str
  else if t.kind = Kind.bool.name then .bool t.bool
  else .int t.int

end TaggedValue

/-- Sequences and maps that are absent are told apart from empty ones. -/
structure Snapshot where
  program : Bytes := []
  pc : Int64 := 0
  running : Bool := false
  steps : Int64 := 0
  color : Bytes := []
  /-- The bottom of the stack comes first. -/
  stack : Option (List TaggedValue) := none
  vars : Option (Std.ExtTreeMap Bytes TaggedValue) := none
  memory : Option (Std.ExtTreeMap Int64 Int64) := none
  loops : Option (List Int64) := none
  calls : Option (List Int64) := none
  faults : List Bytes := []
  deriving DecidableEq

namespace Snapshot

/-- Saved indices in the order they were saved; no index at all counts as absent. -/
def indices (saved : List Nat) : Option (List Int64) :=
  match saved with
  | [] => none
  | saved => some (saved.reverse.map Int64.ofNat)

def ofMachine (m : Machine) : Snapshot where
  program := m.program.name
  pc := Int64.ofInt m.pc
  running := m.running
  steps := m.steps
  color := m.color.escape
  stack := some (m.stack.reverse.map TaggedValue.ofValue)
  vars := some (m.vars.map fun _ v => TaggedValue.ofValue v)
  memory := some (Std.ExtTreeMap.ofList
    (m.memory.toList.map fun (a, n) => (Int64.ofNat a.val, n)))
  loops := indices m.loops
  calls := indices m.calls
  faults := m.faults.toList.map Fault.print

/-- The written variables by name. -/
def variableList (s : Snapshot) : List (Bytes × TaggedValue) :=
  (s.vars.map (·.toList)).getD []

/-- The written cells by address. -/
def cells (s : Snapshot) : List (Int64 × Int64) := (s.memory.map (·.toList)).getD []

end Snapshot
end LineMachine
