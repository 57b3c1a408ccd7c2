import LineMachine.Number.FloatReader
import LineMachine.Toml.Expr
import LineMachine.Toml.Time

/-! Numbers in a configuration file. What looks like a number up to some character must be one. -/
namespace LineMachine.Toml

def isHex (c : Char) : Bool :=
  c.isDigit || ('a' ≤ c && c ≤ 'f') || ('A' ≤ c && c ≤ 'F')

/-- The bytes of ASCII characters. -/
def ascii (s : List Char) : Bytes := s.map fun c => UInt8.ofNat c.toNat

namespace Number

/-- Whether every underscore is between two digits of any base. -/
def underscoresOk (s : List Char) : Bool :=
  s = "nan".toList || s = "+nan".toList || s = "-nan".toList ||
  s = "inf".toList || s = "+inf".toList || s = "-inf".toList ||
  s.foldl (fun (ok, before) c => (ok && (c ≠ '_' || before), isHex c)) (true, false) = (true, true)

def hasLeadingZero : List Char → Bool
  | '0' :: c :: _ => c ≠ 'b' && c ≠ 'o' && c ≠ 'x'
  | '-' :: '0' :: _ :: _ => true
  | '+' :: '0' :: _ :: _ => true
  | _ => false

def int? (s : List Char) : Option Expr :=
  if underscoresOk s && !hasLeadingZero s then
    match Literal.read (ascii s) with
    | .ok n => some (.int n)
    | .error _ => none
  else none

/-- The parts of a number between its point and its exponent marks, without empty ones. -/
def parts (s : List Char) : List (List Char) :=
  (s.foldr (fun c pieces =>
    if c = '.' || c = 'e' || c = 'E' then [] :: pieces
    else match pieces with
      | [] => [[c]]
      | p :: rest => (c :: p) :: rest) [[]]).filter fun p => !p.isEmpty

/-- Whether a digit follows every point. -/
def pointsOk : List Char → Bool
  | [] => true
  | '.' :: s => (match s with
      | c :: _ => c.isDigit
      | [] => false) && pointsOk s
  | _ :: s => pointsOk s

def float? (s : List Char) : Option Expr :=
  let ps := parts s
  if ps.all underscoresOk && !hasLeadingZero (ps.headD []) && pointsOk s then
    let plain := s.filter (· ≠ '_')
    let unsigned := if plain = "+nan".toList || plain = "-nan".toList then plain.drop 1 else plain
    (FloatReader.read? (ascii unsigned)).map .float
  else none

def isFloatChar (c : Char) : Bool :=
  c.isDigit || c = '_' || c = '.' || c = '-' || c = '+' || c = 'e' || c = 'E'

def isTimeChar (c : Char) : Bool :=
  c.isDigit || c = '-' || c = ':' || c = 'T' || c = 't' || c = ' ' || c = '.' || c = 'Z' || c = 'z' ||
    c = '+'

/-- Reads on as a float. -/
def asFloat (s : List Char) : Option (Expr × List Char) :=
  let (token, rest) := s.span isFloatChar
  (float? token).map fun e => (e, rest)

/-- A row of digits and underscores after the first `n` characters; a float if one goes on there. -/
def decimal (n : Nat) (s : List Char) : Option (Expr × List Char) :=
  let digits := (s.drop n).takeWhile fun c => c.isDigit || c = '_'
  let rest := s.drop (n + digits.length)
  match rest with
  | [] => (int? s).map fun e => (e, rest)
  | c :: _ =>
    if c = '.' || c = 'e' || c = 'E' then asFloat s
    else (int? (s.take (n + digits.length))).map fun e => (e, rest)

def time (s : List Char) : Option (Expr × List Char) :=
  let (token, rest) := s.span isTimeChar
  if Time.isTime (token.reverse.dropWhile (· = ' ')).reverse then some (.time, rest) else none

/-- A number in another base, after its marker. -/
def based (isDigit : Char → Bool) (s : List Char) : Option (Expr × List Char) :=
  let digits := (s.drop 2).takeWhile fun c => isDigit c || c = '_'
  if isDigit (digits.headD '_') then
    (int? (s.take (2 + digits.length))).map fun e => (e, s.drop (2 + digits.length))
  else none

/-- A number or a time that starts with a digit. A single zero before a dash is only a zero. -/
def unsigned (s : List Char) : Option (Expr × List Char) :=
  match s with
  | '0' :: 'b' :: _ => based (fun c => c = '0' || c = '1') s
  | '0' :: 'o' :: _ => based (fun c => '0' ≤ c && c ≤ '7') s
  | '0' :: 'x' :: _ => based isHex s
  | _ =>
    let digits := s.takeWhile Char.isDigit
    match s.drop digits.length with
    | c :: _ => if (c = '-' || c = ':') && digits ≠ ['0'] then time s else decimal 0 s
    | [] => decimal 0 s

/-- A number after its sign. Only decimal numbers have signs. -/
def signed (s : List Char) : Option (Expr × List Char) :=
  match s.drop 1 with
  | 'i' :: 'n' :: 'f' :: rest => (float? (s.take 4)).map fun e => (e, rest)
  | 'n' :: 'a' :: 'n' :: rest => (float? (s.take 4)).map fun e => (e, rest)
  | '0' :: c :: _ => if c = 'b' || c = 'o' || c = 'x' then none else decimal 1 s
  | c :: _ => if c.isDigit then decimal 1 s else none
  | [] => none

end Number
end LineMachine.Toml
