import LineMachine.Text.Utf8
import LineMachine.Text.Printable

/-! Text between double quotes, with everything that is not printable escaped. -/
namespace LineMachine.Quoted

def hexDigit (n : Nat) : UInt8 := UInt8.ofNat (if n < 10 then 48 + n else 87 + n)

/-- The last `width` hexadecimal digits of `n`. -/
def hex : (width : Nat) → (n : Nat) → Bytes
  | 0, _ => []
  | w + 1, n => hex w (n / 16) ++ [hexDigit (n % 16)]

/-- The letter after the backslash, for the characters that have one. -/
def shortEscape : Char → Option UInt8
  | '"' => some 34
  | '\\' => some 92
  | '\x07' => some 97
  | '\x08' => some 98
  | '\x0c' => some 102
  | '\n' => some 110
  | '\r' => some 114
  | '\t' => some 116
  | '\x0b' => some 118
  | _ => none

def escapeChar (c : Char) : Bytes :=
  match shortEscape c with
  | some b => [92, b]
  | none =>
    if Utf8.isPrintable c then String.utf8EncodeChar c
    else if c.toNat < 0x20 || c.toNat = 0x7F then text "\\x" ++ hex 2 c.toNat
    else if c.toNat < 0x10000 then text "\\u" ++ hex 4 c.toNat
    else text "\\U" ++ hex 8 c.toNat

def escape : Utf8.Piece → Bytes
  | .char c => escapeChar c
  | .stray b => text "\\x" ++ hex 2 b.toNat

end Quoted

def quote (s : Bytes) : Bytes :=
  [34] ++ (Utf8.decode s).flatMap Quoted.escape ++ [34]

end LineMachine
