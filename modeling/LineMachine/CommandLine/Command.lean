import LineMachine.CommandLine.Flags
import LineMachine.Config
import LineMachine.Machine.Run
import LineMachine.Program.Listing
import LineMachine.Snapshot.Decode
import LineMachine.Snapshot.Encode
import LineMachine.Snapshot.Report

/-! The command: what it does with its arguments, a disk and an input. -/
namespace LineMachine.CommandLine

/-- The end of a command. -/
structure Result where
  code : Nat
  stdout : Bytes := []
  stderr : Bytes := []
  /-- The snapshot that was written, with the path it was written to. -/
  written : Option (Bytes × Bytes) := none

/-- A machine that is ready to run. -/
structure Start where
  machine : Machine
  logger : Logger
  /-- Where a snapshot goes at the end; nowhere if it is empty. -/
  snapshot : Bytes

inductive Plan where
  | done (r : Result)
  | start (s : Start)

def failed (message : Bytes) : Result :=
  { code := 1, stderr := text "Error: " ++ message ++ text "\n" }

def inspect (d : Disk) (path : Bytes) : Result :=
  match d.read path with
  | .error p => failed p.message
  | .ok s =>
    match Snapshot.decode? s with
    | none => failed (text "interpreter: unmarshal snapshot")
    | some s => { code := 0, stdout := s.report }

inductive LoadProblem where
  | unreadable (path : Bytes) (p : Disk.Problem)
  | malformed (name : Bytes) (p : Program.Problem)

def LoadProblem.message : LoadProblem → Bytes
  | unreadable path p => text "reading " ++ path ++ text ": " ++ p.message
  | malformed name p => p.message name

def loadFile (d : Disk) (path : Bytes) : Except LoadProblem Program :=
  match d.read path with
  | .error p => .error (.unreadable path p)
  | .ok s => (Program.load path s).mapError (.malformed path)

def loadConfig (d : Disk) (o : Options) (path : Bytes) : Except Config.Problem Config :=
  if o.config = [] then Config.forProgram d path else Config.load d o.config

/-- The gas limit: an option that is not negative goes before the configuration. -/
def gasLimit (o : Options) (c : Config) : Int64 := if 0 ≤ o.gas then o.gas else c.gas

/-- The random seed: an option that is not zero goes before the configuration. -/
def seed (o : Options) (c : Config) : Int64 := if o.seed ≠ 0 then o.seed else c.seed

def threshold (o : Options) (c : Config) : Log.Level :=
  if o.debug then Log.Level.debug else c.threshold

def loadedRecord (p : Program) (c : Config) : Log.Record :=
  ⟨Log.Level.debug, text "loaded",
    [(text "program", .str p.name), (text "lines", .int p.size), (text "labels", .int p.labels.size),
      (text "config", .str c.path)]⟩

/-- The machine for a program under given settings. Without a seed it draws from `random`. -/
def machine (p : Program) (o : Options) (c : Config) (input : Input) (random : Random) : Machine :=
  let m : Machine := {
    program := p
    color := Color.named c.color
    input := input
    prompt := c.prompt
    random := if seed o c = 0 then random else Random.ofSeed (seed o c)
    debug := threshold o c ≤ Log.Level.debug
    journal := #[loadedRecord p c] }
  m.setGas (gasLimit o c)

/-- The configuration is loaded before the program. -/
def planFile (d : Disk) (o : Options) (path : Bytes) (input : Input) (random : Random) : Plan :=
  match loadConfig d o path with
  | .error p => .done (failed p.message)
  | .ok c =>
    match loadFile d path with
    | .error p => .done (failed p.message)
    | .ok p =>
      if o.disasm then .done { code := 0, stdout := p.listing }
      else .start ⟨machine p o c input random, ⟨threshold o c, Log.Format.named c.format⟩, o.snapshot⟩

def plan (d : Disk) (args : List Bytes) (input : Input) (random : Random) : Plan :=
  match parse {} args with
  | .error p => .done { code := 1, stderr := p.message ++ text "\n" ++ usage }
  | .ok .help => .done { code := 0, stderr := usage }
  | .ok (.run o operands) =>
    if o.inspect ≠ [] then .done (inspect d o.inspect)
    else match operands with
      | [path] => planFile d o path input random
      | _ => .done { code := 1, stderr := usage }

/-- The files that a plan looks at. -/
def paths (args : List Bytes) : List Bytes :=
  match parse {} args with
  | .ok (.run o operands) =>
    if o.inspect ≠ [] then [o.inspect]
    else match operands with
      | [path] => [if o.config = [] then Path.sibling path Config.fileName else o.config, path]
      | _ => []
  | _ => []

def snapshotRecord (path : Bytes) (p : Disk.Problem) : Log.Record :=
  ⟨Log.Level.error, text "snapshot", [(text "path", .str path), (text "err", .str p.message)]⟩

/-- What remains to be written to standard error at the end of a run. -/
def closing (s : Start) (problem : Option Disk.Problem) (o : Outcome) : Bytes :=
  s.logger.print ((problem.map (snapshotRecord s.snapshot)).toList) ++
    ((o.error?.map fun e => text "Error: " ++ e ++ text "\n").getD [])

def exitCode (o : Outcome) : Nat := if o.error?.isSome then 1 else 0

/-- A snapshot that cannot be written is reported and changes nothing else. -/
def finish (d : Disk) (s : Start) (o : Outcome) (m : Machine) : Result :=
  let problem := if s.snapshot = [] then none else d.create s.snapshot
  { code := exitCode o
    stdout := m.output.toList
    stderr := s.logger.print m.journal.toList ++ closing s problem o
    written :=
      if s.snapshot = [] ∨ problem.isSome then none
      else some (s.snapshot, (Snapshot.ofMachine m).encode) }

/-- The command as a whole, for runs of at most `n` steps. -/
def run (n : Nat) (d : Disk) (args : List Bytes) (input : Input) (random : Random) : Result :=
  match plan d args input random with
  | .done r => r
  | .start s =>
    let (o, m) := s.machine.runFor n
    finish d s o m

end LineMachine.CommandLine
