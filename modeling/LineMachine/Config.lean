import LineMachine.Log
import LineMachine.Storage.Disk
import LineMachine.Storage.Path
import LineMachine.Toml.Read
import LineMachine.Toml.Table

/-! The settings of a run, from a configuration file next to the program. -/
namespace LineMachine

structure Config where
  gas : Int64 := 0
  seed : Int64 := 0
  prompt : Bytes := []
  color : Bytes := []
  level : Bytes := []
  format : Bytes := []
  /-- The file that the settings come from, if there is one. -/
  path : Bytes := []
  deriving DecidableEq

namespace Config

def fileName : Bytes := text "mpp.toml"

/-- Settings that were left empty. -/
def withDefaults (c : Config) : Config :=
  let or (s : Bytes) (default : String) := if s = [] then text default else s
  { c with
    prompt := or c.prompt "> "
    color := or c.color "reset"
    level := or c.level "warn"
    format := or c.format "text" }

def default : Config := withDefaults {}

/-- Names in a file match without regard to case. -/
def isNamed (key : Bytes) (name : String) : Bool := Utf8.spells Utf8.fold key name

def int? : Toml.Value → Option Int64
  | .int n => some n
  | _ => none

def str? : Toml.Value → Option Bytes
  | .str s => some s
  | _ => none

/-- What one entry of a table means for the settings; entries with other names are ignored. -/
abbrev Meaning := Config → Bytes × Toml.Value → Option Config

def runEntry : Meaning := fun c (key, v) =>
  if isNamed key "gas" then (int? v).map fun n => { c with gas := n }
  else if isNamed key "seed" then (int? v).map fun n => { c with seed := n }
  else if isNamed key "prompt" then (str? v).map fun s => { c with prompt := s }
  else some c

def outputEntry : Meaning := fun c (key, v) =>
  if isNamed key "color" then (str? v).map fun s => { c with color := s } else some c

def logEntry : Meaning := fun c (key, v) =>
  if isNamed key "level" then (str? v).map fun s => { c with level := s }
  else if isNamed key "format" then (str? v).map fun s => { c with format := s }
  else some c

def sections : List (String × Meaning) :=
  [("run", runEntry), ("output", outputEntry), ("log", logEntry)]

/-- A section is a table. -/
def sectionEntry : Meaning := fun c (key, v) =>
  match sections.find? fun s => isNamed key s.1 with
  | none => some c
  | some (_, entry) =>
    match v with
    | .table t => t.foldlM entry c
    | _ => none

/-- The settings written in a file; a setting of the wrong kind spoils it. -/
def parse? (s : Bytes) : Option Config := do
  let statements ← Toml.statements? s
  let t ← Toml.Table.ofStatements? statements
  t.foldlM sectionEntry {}

inductive Problem where
  | unreadable (path : Bytes) (p : Disk.Problem)
  | hidden (p : Disk.Problem)
  | malformed (path : Bytes)
  | negativeGas (path : Bytes)
  | unknownLevel (path : Bytes) (name : Bytes)

def Problem.message : Problem → Bytes
  | unreadable path p => text "cannot read " ++ path ++ text ": " ++ p.message
  | hidden p => p.message
  | malformed path => text "parse error in " ++ path
  | negativeGas path => path ++ text ": run.gas must not be negative"
  | unknownLevel path name => path ++ text ": " ++ Log.Level.unknown name

def load (d : Disk) (path : Bytes) : Except Problem Config :=
  match d.read path with
  | .error p => .error (.unreadable path p)
  | .ok s =>
    match parse? s with
    | none => .error (.malformed path)
    | some c =>
      if c.gas < 0 then .error (.negativeGas path)
      else match Log.Level.named? c.level with
        | none => .error (.unknownLevel path c.level)
        | some _ => .ok (withDefaults { c with path := path })

/-- The settings for a program: those of the file next to it, or the defaults if there is none. -/
def forProgram (d : Disk) (program : Bytes) : Except Problem Config :=
  let path := Path.sibling program fileName
  match d.stat path with
  | none => load d path
  | some p => if p.reason = .missing then .ok default else .error (.hidden p)

/-- Every configuration that was loaded has a known level. -/
def threshold (c : Config) : Log.Level := (Log.Level.named? c.level).getD Log.Level.warn

end Config
end LineMachine
