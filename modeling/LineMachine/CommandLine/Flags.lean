import LineMachine.Number.Literal
import LineMachine.Text.Quoted

/-! Flags on the command line. -/
namespace LineMachine.CommandLine

structure Options where
  config : Bytes := []
  debug : Bool := false
  gas : Int64 := -1
  seed : Int64 := 0
  snapshot : Bytes := []
  disasm : Bool := false
  inspect : Bytes := []
  deriving DecidableEq

/-- What a flag takes, and what it does with it. -/
inductive Flag where
  | str (set : Bytes → Options → Options)
  | int (set : Int64 → Options → Options)
  | bool (set : Bool → Options → Options)

/-- The flags by name, with a word on each. -/
def flags : List (String × Flag × String) :=
  [("config", .str fun v o => { o with config := v },
      "Path to mpp.toml (default: next to the program)"),
    ("debug", .bool fun v o => { o with debug := v },
      "Trace every instruction"),
    ("disasm", .bool fun v o => { o with disasm := v },
      "List the loaded program instead of running it"),
    ("gas", .int fun v o => { o with gas := v },
      "Step limit (0 = unlimited, -1 = from config) (default -1)"),
    ("inspect", .str fun v o => { o with inspect := v },
      "Print a snapshot written by -snapshot and exit"),
    ("seed", .int fun v o => { o with seed := v },
      "Random seed (0 = from config, else time-based)"),
    ("snapshot", .str fun v o => { o with snapshot := v },
      "Write a CBOR state snapshot to this file on exit")]

def Flag.argument : Flag → String
  | str _ => " string"
  | int _ => " int"
  | bool _ => ""

def usage : Bytes :=
  text "Usage: mpp [flags] program.m++\n       mpp -inspect snapshot.cbor\n" ++
    flags.flatMap fun (name, flag, help) =>
      text "  -" ++ text name ++ text flag.argument ++ text "\n    \t" ++ text help ++ text "\n"

inductive Problem where
  | badFlag (argument : Bytes)
  | undefined (name : Bytes)
  | needsArgument (name : Bytes)
  | badValue (value name : Bytes) (reason : Literal.Problem)
  | badBool (value name : Bytes)
  deriving DecidableEq

def Problem.reason : Literal.Problem → Bytes
  | .malformed => text "parse error"
  | .outOfRange => text "value out of range"

def Problem.message : Problem → Bytes
  | badFlag a => text "bad flag syntax: " ++ a
  | undefined n => text "flag provided but not defined: -" ++ n
  | needsArgument n => text "flag needs an argument: -" ++ n
  | badValue v n r =>
    text "invalid value " ++ quote v ++ text " for flag -" ++ n ++ text ": " ++ Problem.reason r
  | badBool v n => text "invalid boolean value " ++ quote v ++ text " for -" ++ n ++ text ": parse error"

def readBool? (s : Bytes) : Option Bool :=
  if ["1", "t", "T", "TRUE", "true", "True"].any (text · = s) then some true
  else if ["0", "f", "F", "FALSE", "false", "False"].any (text · = s) then some false
  else none

/-- What the arguments ask for: a run with options and operands, or help. -/
inductive Request where
  | run (options : Options) (operands : List Bytes)
  | help

/-- A flag argument is split at its first equals sign; a name cannot start with one. -/
def splitValue (s : Bytes) : Bytes × Option Bytes :=
  match s with
  | [] => ([], none)
  | b :: rest =>
    match rest.span (· ≠ 61) with
    | (name, []) => (b :: name, none)
    | (name, _ :: value) => (b :: name, some value)

/-- The flag in an argument, without its dashes; nothing for an argument that is no flag. -/
def flag? (argument : Bytes) : Option Bytes :=
  match argument with
  | 45 :: 45 :: name => some name
  | 45 :: b :: name => some (b :: name)
  | _ => none

def assign (flag : Flag) (name value : Bytes) (o : Options) : Except Problem Options :=
  match flag with
  | .str set => .ok (set value o)
  | .int set =>
    match Literal.read value with
    | .ok n => .ok (set n o)
    | .error r => .error (.badValue value name r)
  | .bool set =>
    match readBool? value with
    | some b => .ok (set b o)
    | none => .error (.badBool value name)

/-- Flags come first, up to an operand or a double dash. Truth values are given with an equals
sign, other values in the next argument as well. -/
def parse (o : Options) : List Bytes → Except Problem Request
  | [] => .ok (.run o [])
  | a :: as =>
    match flag? a with
    | none => .ok (.run o (a :: as))
    | some [] => .ok (.run o as)
    | some (b :: s) =>
      if b = 45 ∨ b = 61 then .error (.badFlag a)
      else
        let (name, value) := splitValue (b :: s)
        match flags.find? fun f => text f.1 = name with
        | none =>
          if name = text "help" ∨ name = text "h" then .ok .help else .error (.undefined name)
        | some (_, flag, _) =>
          match flag, value with
          | .bool set, none => parse (set true o) as
          | flag, some v =>
            match assign flag name v o with
            | .error p => .error p
            | .ok o => parse o as
          | flag, none =>
            match as with
            | [] => .error (.needsArgument name)
            | v :: rest =>
              match assign flag name v o with
              | .error p => .error p
              | .ok o => parse o rest

end LineMachine.CommandLine
