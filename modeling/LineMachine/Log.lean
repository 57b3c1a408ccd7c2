import LineMachine.Number.Decimal
import LineMachine.Text.Blank
import LineMachine.Text.Letter
import LineMachine.Text.Quoted

/-! Diagnostics: records with a level, a message and attributes, and the two ways to write them. -/
namespace LineMachine.Log

/-- Levels are numbers; four of them, four apart, have names. -/
abbrev Level := Int

namespace Level

def debug : Level := -4
def info : Level := 0
def warn : Level := 4
def error : Level := 8

/-- The level with a given name in any case; no name at all means warnings. -/
def named? (name : Bytes) : Option Level :=
  let is := Utf8.spells Utf8.lower name
  if is "debug" then some debug
  else if is "info" then some info
  else if is "" || is "warn" || is "warning" then some warn
  else if is "error" then some error
  else none

/-- A name and the distance to the level that has it. -/
def relative (name : String) (distance : Int) : Bytes :=
  if distance = 0 then text name
  else text name ++ (if distance < 0 then [] else [43]) ++ Decimal.ofInt distance

/-- The largest named level not above `l`, or the lowest one, with the difference. -/
def print (l : Level) : Bytes :=
  if l < info then relative "DEBUG" (l - debug)
  else if l < warn then relative "INFO" (l - info)
  else if l < error then relative "WARN" (l - warn)
  else relative "ERROR" (l - error)

/-- What is said of a name that belongs to no level. -/
def unknown (name : Bytes) : Bytes := text "unknown log level " ++ quote name

end Level

inductive Attr where
  | str (s : Bytes)
  | int (n : Int)
  deriving DecidableEq

structure Record where
  level : Level
  message : Bytes
  attrs : List (Bytes × Attr)
  deriving DecidableEq

inductive Format where
  | plain
  | json
  deriving DecidableEq

/-- Everything but a name that folds to `json` means plain text. -/
def Format.named (name : Bytes) : Format :=
  if Utf8.spells Utf8.fold name "json" then .json else .plain

namespace Plain

/-- Whether a character makes quotes necessary. -/
def isUnsafe : Utf8.Piece → Bool
  | .char c =>
    if c.toNat < 0x80 then c.toNat ≤ 0x20 || c = '=' || c = '"'
    else c.toNat = 0xFFFD || Utf8.isBlank c || !Utf8.isPrintable c
  | .stray _ => true

def str (s : Bytes) : Bytes :=
  if s = [] || (Utf8.decode s).any isUnsafe then quote s else s

def attr : Attr → Bytes
  | .str s => str s
  | .int n => Decimal.ofInt n

/-- Space-separated `key=value` pairs. -/
def record (r : Record) : Bytes :=
  text "level=" ++ str r.level.print ++ text " msg=" ++ str r.message ++
    r.attrs.flatMap (fun (k, a) => [Bytes.space] ++ str k ++ text "=" ++ attr a) ++ [Bytes.newline]

end Plain

namespace Json

def escape : Utf8.Piece → Bytes
  | .char c =>
    if c = '"' || c = '\\' then 92 :: String.utf8EncodeChar c
    else if c = '\n' then text "\\n"
    else if c = '\r' then text "\\r"
    else if c = '\t' then text "\\t"
    else if c.toNat < 0x20 || c.toNat = 0x2028 || c.toNat = 0x2029 then
      text "\\u" ++ Quoted.hex 4 c.toNat
    else String.utf8EncodeChar c
  | .stray _ => Utf8.encodePoint 0xFFFD

def str (s : Bytes) : Bytes := [34] ++ (Utf8.decode s).flatMap escape ++ [34]

def attr : Attr → Bytes
  | .str s => str s
  | .int n => Decimal.ofInt n

/-- One object per record. -/
def record (r : Record) : Bytes :=
  text "\x7b\"level\":" ++ str r.level.print ++ text ",\"msg\":" ++ str r.message ++
    r.attrs.flatMap (fun (k, a) => text "," ++ str k ++ text ":" ++ attr a) ++ text "\x7d\n"

end Json

def Record.print (r : Record) : Format → Bytes
  | .plain => Plain.record r
  | .json => Json.record r

end Log

/-- Which records are written, and how. -/
structure Logger where
  threshold : Log.Level
  format : Log.Format
  deriving DecidableEq

/-- The text of the records at or above the threshold. -/
def Logger.print (l : Logger) (records : List Log.Record) : Bytes :=
  (records.filter fun r => l.threshold ≤ r.level).flatMap fun r => r.print l.format

end LineMachine
