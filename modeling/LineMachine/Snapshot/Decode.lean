import LineMachine.Cbor.Read
import LineMachine.Number.Decimal
import LineMachine.Snapshot.Basic
import LineMachine.Text.Utf8

/-! Reading snapshots. A reader takes what its place holds so far, and null leaves it as it is. -/
namespace LineMachine.Cbor

/-- Whether a tag may stand before an item: dates are text or numbers, big numbers are bytes. -/
def tagFits (n : Nat) : Item → Bool
  | .text _ => n ≠ 1 && n ≠ 2 && n ≠ 3
  | .unsigned _ | .negative _ | .float _ => n ≠ 0 && n ≠ 2 && n ≠ 3
  | .bytes _ => n ≠ 0 && n ≠ 1
  | _ => 3 < n

/-- The item without its tags, with big numbers as integers. Simple values other than truth values
and null count as integers too. -/
def Item.plain? : Item → Option Item
  | .tag n content =>
    if !tagFits n content then none
    else match n, content with
      | 2, .bytes b =>
        if Read.bigEndian b < 1 <<< 64 then some (.unsigned (Read.bigEndian b)) else none
      | 3, .bytes b =>
        if Read.bigEndian b < 1 <<< 63 then some (.negative (Read.bigEndian b)) else none
      | _, content => content.plain?
  | .negative n => if n < 1 <<< 63 then some (.negative n) else none
  | .simple n => if 20 ≤ n ∧ n ≤ 23 then some (.simple n) else some (.unsigned n)
  | i => some i

/-- Reads an item into a place that holds `old`. -/
abbrev Reader (α : Type) := (old : α) → Item → Option α

namespace Reader

/-- Null and undefined. -/
def isNull (n : Nat) : Bool := n = 22 || n = 23

def word : Reader Int64 := fun old i =>
  match i.plain? with
  | some (.unsigned n) => Decimal.toInt64? n
  | some (.negative n) => Decimal.toInt64? (-1 - n)
  | some (.simple n) => if isNull n then some old else none
  | _ => none

def float : Reader Float := fun old i =>
  match i.plain? with
  | some (.unsigned n) => some (Binary64.ofRatio false n 1)
  | some (.negative n) => some (Binary64.ofRatio true (n + 1) 1)
  | some (.float x) => some x
  | some (.simple n) => if isNull n then some old else none
  | _ => none

/-- Every chunk has to be valid UTF-8 by itself. -/
def chunks? (cs : List Bytes) : Option Bytes :=
  if cs.all Utf8.valid then some cs.flatten else none

def str : Reader Bytes := fun old i =>
  match i.plain? with
  | some (.text cs) => chunks? cs
  | some (.simple n) => if isNull n then some old else none
  | _ => none

def bool : Reader Bool := fun old i =>
  match i.plain? with
  | some (.simple n) => if isNull n then some old else some (n = 21)
  | _ => none

/-- Every element starts from `zero`. -/
def list {α : Type} (zero : α) (read : Reader α) : Reader (Option (List α)) := fun _ i =>
  match i.plain? with
  | some (.array is) => (is.mapM (read zero)).map some
  | some (.simple n) => if isNull n then some none else none
  | _ => none

/-- All entries share one place for keys; of two entries with one key the later one stays. The
place for values is shared if `shared` holds, else every value starts from `zero`. -/
def map {κ α : Type} [Ord κ] [Std.TransOrd κ] (noKey : κ) (zero : α) (shared : Bool)
    (readKey : Reader κ) (readValue : Reader α) : Reader (Option (Std.ExtTreeMap κ α)) := fun _ i =>
  let entry := fun ((m : Std.ExtTreeMap κ α), (k : κ), (a : α)) (e : Item × Item) => do
    let k ← readKey k e.1
    let a ← readValue (if shared then a else zero) e.2
    some (m.insert k a, k, a)
  match i.plain? with
  | some (.map es) => (es.foldlM entry (∅, noKey, zero)).map fun r => some r.1
  | some (.simple n) => if isNull n then some none else none
  | _ => none

/-- The fields of a record by name. -/
abbrev Fields (ρ : Type) := List (String × (ρ → Item → Option ρ))

/-- The field with the name `key`, or else one whose name differs from it in case only. -/
def find? {ρ : Type} (fields : Fields ρ) (key : Bytes) : Option (String × (ρ → Item → Option ρ)) :=
  let lower (b : UInt8) : UInt8 := if 65 ≤ b && b ≤ 90 then b + 32 else b
  match fields.find? fun f => text f.1 = key with
  | some f => some f
  | none => fields.find? fun f => text f.1 = key.map lower

/-- Of several entries for one field the first counts. Entries for unknown fields are skipped, and
so are those with integer keys, unless they are below all words; no other keys are allowed. -/
def entry {ρ : Type} : Fields ρ × ρ → Item × Item → Option (Fields ρ × ρ)
  | (fields, r), (.text cs, v) => do
    let key ← chunks? cs
    match find? fields key with
    | none => some (fields, r)
    | some (name, set) =>
      let r ← set r v
      some (fields.filter fun f => f.1 ≠ name, r)
  | state, (.unsigned _, _) => some state
  | state, (.negative n, _) => if n < 1 <<< 63 then some state else none
  | _, _ => none

def record {ρ : Type} (fields : Fields ρ) : Reader ρ := fun old i =>
  match i.plain? with
  | some (.map es) => (es.foldlM entry (fields, old)).map fun r => r.2
  | some (.simple n) => if isNull n then some old else none
  | _ => none

end Reader
end Cbor

open Cbor

def TaggedValue.fields : Reader.Fields TaggedValue :=
  [("k", fun r i => (Reader.str r.kind i).map fun a => { r with kind := a }),
    ("i", fun r i => (Reader.word r.int i).map fun a => { r with int := a }),
    ("f", fun r i => (Reader.float r.float i).map fun a => { r with float := a }),
    ("s", fun r i => (Reader.str r.str i).map fun a => { r with str := a }),
    ("b", fun r i => (Reader.bool r.bool i).map fun a => { r with bool := a })]

def TaggedValue.read : Reader TaggedValue := Reader.record TaggedValue.fields

namespace Snapshot

def readFaults : Reader (List Bytes) := fun old i =>
  (Reader.list [] Reader.str (some old) i).map fun fs => fs.getD []

def fields : Reader.Fields Snapshot :=
  [("program", fun r i => (Reader.str r.program i).map fun a => { r with program := a }),
    ("pc", fun r i => (Reader.word r.pc i).map fun a => { r with pc := a }),
    ("running", fun r i => (Reader.bool r.running i).map fun a => { r with running := a }),
    ("steps", fun r i => (Reader.word r.steps i).map fun a => { r with steps := a }),
    ("color", fun r i => (Reader.str r.color i).map fun a => { r with color := a }),
    ("stack", fun r i =>
      (Reader.list {} TaggedValue.read r.stack i).map fun a => { r with stack := a }),
    ("vars", fun r i =>
      (Reader.map [] {} false Reader.str TaggedValue.read r.vars i).map
        fun a => { r with vars := a }),
    ("mem", fun r i =>
      (Reader.map 0 0 true Reader.word Reader.word r.memory i).map fun a => { r with memory := a }),
    ("loops", fun r i => (Reader.list 0 Reader.word r.loops i).map fun a => { r with loops := a }),
    ("calls", fun r i => (Reader.list 0 Reader.word r.calls i).map fun a => { r with calls := a }),
    ("faults", fun r i => (readFaults r.faults i).map fun a => { r with faults := a })]

/-- The snapshot that `s` holds. A null is a snapshot in which everything is missing. -/
def decode? (s : Bytes) : Option Snapshot := (Cbor.read? s).bind (Reader.record fields {})

end Snapshot
end LineMachine
