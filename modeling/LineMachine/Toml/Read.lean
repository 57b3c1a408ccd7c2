import LineMachine.Text.Utf8
import LineMachine.Toml.Str

/-! Reading a configuration file into statements. -/
namespace LineMachine.Toml.Read

open Str (isBlank isNewline)

/-- Skips blanks, newlines and comments. -/
def skipLines (inComment : Bool) : List Char → List Char
  | [] => []
  | c :: s =>
    if isNewline c then skipLines false s
    else if inComment then skipLines true s
    else if isBlank c then skipLines false s
    else if c = '#' then skipLines true s
    else c :: s

/-- What follows the end of the line, if nothing but a comment is before it. -/
def lineEnd? (s : List Char) : Option (List Char) :=
  match s.dropWhile isBlank with
  | [] => some []
  | c :: r =>
    if c = '#' then some (r.dropWhile fun c => !isNewline c)
    else if isNewline c then some r
    else none

def isBareKey (c : Char) : Bool := c.isAlphanum || c = '_' || c = '-'

/-- One part of a key. -/
def key? (s : List Char) : Option (Bytes × List Char) :=
  match s.span isBareKey with
  | ([], _) => Str.line? s
  | (name, rest) => some (ascii name, rest)

/-- A dotted key with blanks around its parts, of at most `fuel` parts. -/
def path? : (fuel : Nat) → List Char → Option (Path × List Char)
  | 0, _ => none
  | fuel + 1, s => do
    let (k, s) ← key? (s.dropWhile isBlank)
    match s.dropWhile isBlank with
    | '.' :: s =>
      let (ks, s) ← path? fuel s
      some (k :: ks, s)
    | s => some ([k], s)

def word? (name : String) (s : List Char) : Option (List Char) :=
  if s.take name.length = name.toList then some (s.drop name.length) else none

def scalar? (s : List Char) : Option (Expr × List Char) :=
  match s with
  | [] => none
  | c :: _ =>
    if c = '"' || c = '\'' then (Str.any? s).map fun (v, s) => (.str v, s)
    else if c.isDigit then Number.unsigned s
    else if c = '+' || c = '-' then Number.signed s
    else if s.take 3 = "inf".toList || s.take 3 = "nan".toList then
      (Number.float? (s.take 3)).map fun e => (e, s.drop 3)
    else match word? "true" s, word? "false" s with
      | some s, _ => some (.bool true, s)
      | none, some s => some (.bool false, s)
      | none, none => none

mutual

/-- A value, after blanks. -/
def value? : (fuel : Nat) → List Char → Option (Expr × List Char)
  | 0, _ => none
  | fuel + 1, s =>
    match s.dropWhile isBlank with
    | '[' :: s => (items? fuel #[] s).map fun (es, s) => (.array es, s)
    | '\x7b' :: s => (pairs? fuel #[] s).map fun (ps, s) => (.inline ps, s)
    | s => scalar? s

/-- The rest of an array. -/
def items? : (fuel : Nat) → Array Expr → List Char → Option (List Expr × List Char)
  | 0, _, _ => none
  | fuel + 1, acc, s =>
    match skipLines false s with
    | ']' :: s => some (acc.toList, s)
    | s => do
      let (e, s) ← value? fuel s
      match skipLines false s with
      | ',' :: s => items? fuel (acc.push e) s
      | ']' :: s => some ((acc.push e).toList, s)
      | _ => none

/-- The rest of an inline table. -/
def pairs? : (fuel : Nat) → Array (Path × Expr) → List Char → Option (List (Path × Expr) × List Char)
  | 0, _, _ => none
  | fuel + 1, acc, s =>
    match skipLines false s with
    | '\x7d' :: s => some (acc.toList, s)
    | s => do
      let (p, s) ← path? s.length s
      match s with
      | '=' :: s =>
        let (e, s) ← value? fuel s
        match skipLines false s with
        | ',' :: s => pairs? fuel (acc.push (p, e)) s
        | '\x7d' :: s => some ((acc.push (p, e)).toList, s)
        | _ => none
      | _ => none

end

def statement? (s : List Char) : Option (Statement × List Char) :=
  match s with
  | '[' :: '[' :: s => do
    let (p, s) ← path? s.length s
    match s with
    | ']' :: ']' :: s => some (.arrayHeader p, s)
    | _ => none
  | '[' :: s => do
    let (p, s) ← path? s.length s
    match s with
    | ']' :: s => some (.header p, s)
    | _ => none
  | s => do
    let (p, s) ← path? s.length s
    match s with
    | '=' :: s =>
      let (e, s) ← value? (s.length + 1) s
      some (.pair p e, s)
    | _ => none

def statements? : (fuel : Nat) → Array Statement → List Char → Option (List Statement)
  | 0, _, _ => none
  | fuel + 1, acc, s =>
    match skipLines false s with
    | [] => some acc.toList
    | s => do
      let (st, s) ← statement? s
      let s ← lineEnd? s
      statements? fuel (acc.push st) s

/-- Control characters have no place in a file, apart from tabs and the ends of lines. -/
def isText : List Char → Bool
  | [] => true
  | '\r' :: s => s.head? = some '\n' && isText s
  | c :: s => (c = '\t' || c = '\n' || (0x20 ≤ c.toNat && c.toNat ≠ 0x7F)) && isText s

/-- The characters of a file without its byte order mark. A mark of another encoding is skipped as
well. -/
def chars? (s : Bytes) : Option (List Char) :=
  let s := match s with
    | 0xFF :: 0xFE :: r => r
    | 0xFE :: 0xFF :: r => r
    | 0xEF :: 0xBB :: 0xBF :: r => r
    | _ => s
  (Utf8.decode s).mapM fun
    | .char c => some c
    | .stray _ => none

end Read

def statements? (s : Bytes) : Option (List Statement) := do
  let cs ← Read.chars? s
  if Read.isText cs then Read.statements? (cs.length + 1) #[] cs else none

end LineMachine.Toml
