import LineMachine.Cbor.Write
import LineMachine.Snapshot.Basic

/-! Writing snapshots, so that equal states have equal bytes. -/
namespace LineMachine

open Cbor

/-- Zeros of both signs are left out. -/
def TaggedValue.encode (t : TaggedValue) : Bytes :=
  Write.map (Write.field "k" (Write.str t.kind) ++
    Write.optionalField "i" (t.int = 0) (Write.word t.int) ++
    Write.optionalField "f" (t.float == 0) (Write.float t.float) ++
    Write.optionalField "s" t.str.isEmpty (Write.str t.str) ++
    Write.optionalField "b" (!t.bool) (Write.bool t.bool))

namespace Snapshot

def encodeOption {α : Type} (f : α → Bytes) : Option α → Bytes
  | none => Write.null
  | some a => f a

def encodeList {α : Type} (f : α → Bytes) : Option (List α) → Bytes :=
  encodeOption fun as => Write.array (as.map f)

def encodeMap {κ α : Type} [Ord κ] [Std.TransOrd κ] (f : κ → Bytes) (g : α → Bytes) :
    Option (Std.ExtTreeMap κ α) → Bytes :=
  encodeOption fun m => Write.map (m.toList.map fun (k, a) => (f k, g a))

def encode (s : Snapshot) : Bytes :=
  Write.map (Write.field "program" (Write.str s.program) ++
    Write.field "pc" (Write.word s.pc) ++
    Write.field "running" (Write.bool s.running) ++
    Write.field "steps" (Write.word s.steps) ++
    Write.field "color" (Write.str s.color) ++
    Write.field "stack" (encodeList TaggedValue.encode s.stack) ++
    Write.field "vars" (encodeMap Write.str TaggedValue.encode s.vars) ++
    Write.field "mem" (encodeMap Write.word Write.word s.memory) ++
    Write.field "loops" (encodeList Write.word s.loops) ++
    Write.field "calls" (encodeList Write.word s.calls) ++
    Write.optionalField "faults" s.faults.isEmpty (Write.array (s.faults.map Write.str)))

end Snapshot
end LineMachine
