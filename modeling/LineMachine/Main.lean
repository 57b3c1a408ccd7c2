import LineMachine.CommandLine.Command

/-! The program itself: its files and streams, around the command. -/
namespace LineMachine.Main

def reason (e : IO.Error) : Disk.Reason :=
  match e with
  | .noFileOrDirectory .. => .missing
  | .noSuchThing .. => .missing
  | .inappropriateType _ code details =>
    if code = 20 then .notDirectory else if code = 21 then .isDirectory else .other (text details)
  | e => .other (text e.toString)

def fileName (path : Bytes) : String := (String.fromUTF8? ⟨path.toArray⟩).getD ""

/-- A file as it is found. -/
def read (path : Bytes) : IO (Except Disk.Problem Bytes) := do
  try
    return .ok (← IO.FS.readBinFile (fileName path)).toList
  catch e =>
    let action := if reason e = .isDirectory then "read" else "open"
    return .error ⟨action, path, reason e⟩

/-- The disk as far as the given files go. A file that cannot be opened cannot be examined either. -/
def disk (files : List (Bytes × Except Disk.Problem Bytes)) : Disk where
  read path := ((files.find? fun f => f.1 = path).map (·.2)).getD (.error ⟨"open", path, .missing⟩)
  stat path :=
    match files.find? fun f => f.1 = path with
    | some (_, .ok _) => none
    | some (_, .error p) => if p.action = "open" then some { p with action := "stat" } else none
    | none => some ⟨"stat", path, .missing⟩
  create _ := none

def put (stream : IO.FS.Stream) (s : Bytes) : IO Unit := do
  stream.write ⟨s.toArray⟩
  stream.flush

/-- Adds input up to the end of a line. -/
partial def feed (stdin : IO.FS.Stream) (m : Machine) (line : Array UInt8) : IO Machine := do
  let b ← stdin.read 1
  let line := line ++ b.data
  if b.isEmpty || b.data = #[Bytes.newline] then
    return { m with input := { m.input with pending := line.toList } }
  else feed stdin m line

/-- Runs step by step, so that output appears before input is waited for. -/
partial def drive (s : CommandLine.Start) (m : Machine) : IO (Outcome × Machine) := do
  let wantsInput := m.pending?.any fun i => i.op = .input
  let m ← if wantsInput && m.input.pending.isEmpty then feed (← IO.getStdin) m #[] else pure m
  let (o, m) := m.runFor 1
  put (← IO.getStdout) m.output.toList
  put (← IO.getStderr) (s.logger.print m.journal.toList)
  let m := { m with output := #[], journal := #[] }
  match o with
  | .unfinished => drive s m
  | o => return (o, m)

def save (path : Bytes) (m : Machine) : IO (Option Disk.Problem) := do
  if path = [] then return none
  try
    IO.FS.writeBinFile (fileName path) ⟨(Snapshot.ofMachine m).encode.toArray⟩
    return none
  catch e => return some ⟨"open", path, reason e⟩

end LineMachine.Main

open LineMachine in
def main (args : List String) : IO UInt32 := do
  let args := args.map text
  let files ← (CommandLine.paths args).mapM fun path => do return (path, ← Main.read path)
  let random := Random.ofSeed (Int64.ofNat (← IO.monoNanosNow))
  match CommandLine.plan (Main.disk files) args ⟨[], none⟩ random with
  | .done r =>
    Main.put (← IO.getStdout) r.stdout
    Main.put (← IO.getStderr) r.stderr
    return UInt32.ofNat r.code
  | .start s =>
    let (o, m) ← Main.drive s s.machine
    let problem ← Main.save s.snapshot m
    Main.put (← IO.getStderr) (CommandLine.closing s problem o)
    return UInt32.ofNat (CommandLine.exitCode o)
