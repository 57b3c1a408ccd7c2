import LineMachine.Toml.Expr

/-! The tables that the statements of a configuration file define. -/
namespace LineMachine.Toml

inductive Value where
  | str (s : Bytes)
  | int (n : Int64)
  | float (x : Float)
  | bool (b : Bool)
  | time
  | array (items : List Value)
  | table (entries : List (Bytes × Value))
  /-- An array of tables that grows header by header. -/
  | tables (elements : List (List (Bytes × Value)))

abbrev Table := List (Bytes × Value)

namespace Table

def get? (t : Table) (k : Bytes) : Option Value := (t.find? fun e => e.1 = k).map (·.2)

/-- A key that is there already keeps its place. -/
def set (t : Table) (k : Bytes) (v : Value) : Table :=
  if (get? t k).isSome then t.map fun e => if e.1 = k then (k, v) else e else t ++ [(k, v)]

/-- The table at a path, where an array of tables stands for its last element. -/
def at? : Path → Table → Option Table
  | [], t => some t
  | k :: ks, t =>
    match get? t k with
    | some (.table s) => at? ks s
    | some (.tables ss) => ss.getLast?.bind (at? ks)
    | _ => none

/-- Sets a key in the table at a path. -/
def setAt? (k : Bytes) (v : Value) : Path → Table → Option Table
  | [], t => some (set t k v)
  | j :: js, t =>
    match get? t j with
    | some (.table s) => (setAt? k v js s).map fun s => set t j (.table s)
    | some (.tables ss) =>
      (ss.getLast?.bind (setAt? k v js)).map fun s => set t j (.tables (ss.dropLast ++ [s]))
    | _ => none

/-- Sets a key below a path, along which tables are made where there is nothing yet. -/
def putAt? (k : Bytes) (v : Value) : Path → Table → Option Table
  | [], t => some (set t k v)
  | j :: js, t =>
    match get? t j with
    | none => (putAt? k v js []).map fun s => set t j (.table s)
    | some (.table s) => (putAt? k v js s).map fun s => set t j (.table s)
    | some _ => none

end Table

/-- The tables so far, with what is needed to tell whether a key may be defined again. -/
structure Builder where
  root : Table := []
  /-- Keys that only exist because of others below them; they can be defined once more. -/
  implied : List Path := []
  /-- Keys last written as arrays. -/
  arrays : List Path := []

namespace Builder

def imply (b : Builder) (p : Path) : Builder := { b with implied := p :: b.implied }

def unimply (b : Builder) (p : Path) : Builder :=
  { b with implied := b.implied.filter (· ≠ p) }

/-- Records whether a key was written as an array. An empty key counts as the table it is in. -/
def noteKind (b : Builder) (context : Path) (k : Bytes) (isArray : Bool) : Builder :=
  let p := if k = [] then (if context = [] then [[]] else context) else context ++ [k]
  let others := b.arrays.filter (· ≠ p)
  { b with arrays := if isArray then p :: others else others }

def put? (b : Builder) (context : Path) (k : Bytes) (v : Value) : Option Builder :=
  (Table.setAt? k v context b.root).map fun t => { b with root := t }

/-- Defines a key, which must be new or only implied so far. A table that was implied stays, an
array that is now complete takes the place of its elements so far. -/
def define? (b : Builder) (context : Path) (k : Bytes) (v : Value) : Option Builder := do
  let t ← Table.at? context b.root
  let p := context ++ [k]
  match Table.get? t k with
  | none => b.put? context k v
  | some _ =>
    if !b.implied.contains p then none
    else if b.arrays.contains p then (b.unimply p).put? context k v
    else some (b.unimply p)

/-- Makes sure that there is a table, or an array of them, at a key above another one. -/
def parent? (b : Builder) (context : Path) (k : Bytes) : Option Builder := do
  let t ← Table.at? context b.root
  match Table.get? t k with
  | none => (b.imply (context ++ [k])).put? context k (.table [])
  | some (.table _) => some b
  | some (.tables _) => some b
  | some _ => none

/-- All the keys above the last one of a path. -/
def parents? (b : Builder) (p : Path) : Option Builder :=
  (List.range (p.length - 1)).foldlM (fun b n => b.parent? (p.take n) (p[n]?.getD [])) b

/-- Opens a table, or a new element of an array of tables. -/
def openTable? (b : Builder) (p : Path) (isElement : Bool) : Option Builder := do
  let b ← b.parents? p
  let context := p.dropLast
  let k := p.getLast?.getD []
  if isElement then
    let t ← Table.at? context b.root
    match Table.get? t k with
    | none => b.put? context k (.tables [[]])
    | some (.tables ss) => b.put? context k (.tables (ss ++ [[]]))
    | some _ => none
  else b.define? context k (.table [])

/-- Goes down along the first parts of a dotted key, table by table. -/
def descend? (b : Builder) (context : Path) (ks : Path) : Option (Builder × Path) :=
  ks.foldlM (fun (b, context) k => do
    let p := context ++ [k]
    let b ← (b.imply p).openTable? p false
    some (b, p)) (b, context)

mutual

/-- The value of an expression that is being given to the key `k`. Inline tables define their keys
one by one, as headers do. -/
def value? (b : Builder) (context : Path) (k : Bytes) (inArray : Bool) :
    Expr → Option (Builder × Value)
  | .str s => some (b, .str s)
  | .int n => some (b, .int n)
  | .float x => some (b, .float x)
  | .bool c => some (b, .bool c)
  | .time => some (b, .time)
  | .array es => do
    let (b, vs) ← values? (b.noteKind context k true) context k es
    some (b, .array vs)
  | .inline ps => do
    let p := context ++ [k]
    let b ← (b.imply p).openTable? p inArray
    let (b, t) ← pairs? b p [] ps
    some (b, .table t)

def values? (b : Builder) (context : Path) (k : Bytes) :
    List Expr → Option (Builder × List Value)
  | [] => some (b, [])
  | e :: es => do
    let (b, v) ← value? b context k true e
    let (b, vs) ← values? b context k es
    some (b, v :: vs)

/-- Defines pairs one after the other. Beside that they make a table `t` of their own, in which
dotted keys only go through tables. -/
def pairs? (b : Builder) (context : Path) (t : Table) :
    List (Path × Expr) → Option (Builder × Table)
  | [] => some (b, t)
  | (p, e) :: ps => do
    let k := p.getLast?.getD []
    let (b, inner) ← b.descend? context p.dropLast
    let (b, v) ← value? b inner k false e
    let b ← b.define? inner k v
    let t ← Table.putAt? k v p.dropLast t
    pairs? (b.noteKind inner k (match e with
      | .array _ => true
      | _ => false)) context t ps

end

/-- One statement, in the table that the last header opened. -/
def statement? : Builder × Path → Statement → Option (Builder × Path)
  | (b, _), .header p => (b.openTable? p false).map fun b => (b.noteKind p [] false, p)
  | (b, _), .arrayHeader p => (b.openTable? p true).map fun b => (b.noteKind p [] false, p)
  | (b, context), .pair p e => (b.pairs? context [] [(p, e)]).map fun r => (r.1, context)

end Builder

def Table.ofStatements? (ss : List Statement) : Option Table :=
  (ss.foldlM Builder.statement? ({}, [])).map fun r => r.1.root

end LineMachine.Toml
