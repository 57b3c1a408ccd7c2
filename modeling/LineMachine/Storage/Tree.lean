import Std.Data.ExtTreeMap
import LineMachine.Storage.Disk
import LineMachine.Storage.Path

/-! A disk given by its files: a tree of directories under a working directory. -/
namespace LineMachine

inductive Tree.Node where
  | file (content : Bytes)
  | directory

/-- Files and directories by the names that lead to them from the working directory. -/
structure Tree where
  nodes : Std.ExtTreeMap (List Bytes) Tree.Node

namespace Tree

/-- Adds a file with the directories it is in; a name that ends in a slash adds a directory. -/
def add (t : Tree) (name content : Bytes) : Tree :=
  let path := Path.names name
  let last := if name.getLast? = some Path.slash then Node.directory else .file content
  let parents := (List.range path.length).map fun n => path.take n
  ⟨(parents.foldl (fun m p => m.insert p .directory) t.nodes).insert path last⟩

def ofFiles (files : List (Bytes × Bytes)) : Tree :=
  files.foldl (fun t (name, content) => t.add name content) ⟨∅⟩

def node? (t : Tree) (path : List Bytes) : Option Node :=
  if path = [] then some .directory else t.nodes[path]?

/-- A place: in the tree, or above the working directory, of which nothing is known but that
directories are there. -/
inductive Place where
  | inside (path : List Bytes)
  | above
  /-- A name in a directory above. -/
  | unseen
  deriving DecidableEq

def Place.parent : Place → Place
  | inside [] => above
  | inside path => inside path.dropLast
  | above => above
  | unseen => above

def at? (t : Tree) : Place → Option Node
  | .inside path => t.node? path
  | .above => some .directory
  | .unseen => none

/-- The longest name a file can have. -/
def maxName : Nat := 255

/-- The longest path that can be followed. -/
def maxPath : Nat := 4095

/-- Goes on to a name in a directory. -/
def enter (t : Tree) (p : Place) (name : Bytes) : Except Disk.Reason Place :=
  match t.at? p with
  | none => .error .missing
  | some (.file _) => .error .notDirectory
  | some .directory =>
    if name = [] ∨ name = Path.here then .ok p
    else if name = Path.up then .ok p.parent
    else if maxName < name.length then .error .nameTooLong
    else match p with
      | .inside path => .ok (.inside (path ++ [name]))
      | _ => .ok .unseen

/-- What is wrong with a path before any name on it is looked at. -/
def pathProblem? (path : Bytes) : Option Disk.Reason :=
  if path.contains 0 then some .invalid
  else if path = [] then some .missing
  else if maxPath < path.length then some .nameTooLong
  else none

/-- Follows a path name by name. The last name need not exist. -/
def walk (t : Tree) (path : Bytes) : Except Disk.Reason Place :=
  let start := if path.head? = some Path.slash then Place.above else .inside []
  (Bytes.splitOn Path.slash path).foldlM t.enter start

/-- Where a path leads. -/
def resolve (t : Tree) (path : Bytes) : Except Disk.Reason Place :=
  match pathProblem? path with
  | some r => .error r
  | none => t.walk path

def lookup (t : Tree) (path : Bytes) : Except Disk.Reason Node :=
  match t.resolve path with
  | .error r => .error r
  | .ok p =>
    match t.at? p with
    | some n => .ok n
    | none => .error .missing

def read (t : Tree) (path : Bytes) : Except Disk.Problem Bytes :=
  match t.lookup path with
  | .error r => .error ⟨"open", path, r⟩
  | .ok .directory => .error ⟨"read", path, .isDirectory⟩
  | .ok (.file content) => .ok content

def stat (t : Tree) (path : Bytes) : Option Disk.Problem :=
  match t.lookup path with
  | .error r => some ⟨"stat", path, r⟩
  | .ok _ => none

/-- What is before the last name on a path. -/
def directoryOf (path : Bytes) : Bytes :=
  let parent := Bytes.trimEndWhile (· ≠ Path.slash) (Bytes.trimEndWhile (· = Path.slash) path)
  if parent = [] then Path.here else parent

/-- The place of a file that is opened for writing. The directory it is in must exist; a path that
ends in a slash can then only mean a directory itself. -/
def target (t : Tree) (path : Bytes) : Except Disk.Reason Place :=
  match pathProblem? path with
  | some r => .error r
  | none =>
    match t.walk (directoryOf path) with
    | .error r => .error r
    | .ok _ =>
      if path.getLast? = some Path.slash then .error .isDirectory
      else match t.walk path with
        | .error r => .error r
        | .ok p =>
          match t.at? p with
          | some .directory => .error .isDirectory
          | _ => .ok p

def create (t : Tree) (path : Bytes) : Option Disk.Problem :=
  match t.target path with
  | .error r => some ⟨"open", path, r⟩
  | .ok _ => none

def disk (t : Tree) : Disk := ⟨t.read, t.stat, t.create⟩

end Tree
end LineMachine
