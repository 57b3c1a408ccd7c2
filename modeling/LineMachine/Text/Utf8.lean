import LineMachine.Text.Bytes

/-! Reading byte strings as UTF-8, byte by byte where they are not. -/
namespace LineMachine.Utf8

/-- A scalar value, or a byte at which no valid sequence starts. -/
inductive Piece where
  | char (c : Char)
  | stray (b : UInt8)
  deriving DecidableEq

namespace Piece

def bytes : Piece → Bytes
  | char c => String.utf8EncodeChar c
  | stray b => [b]

/-- The code point that stands for a piece; stray bytes become the replacement character. -/
def codePoint : Piece → Nat
  | char c => c.toNat
  | stray _ => 0xFFFD

def isChar : Piece → Bool
  | char _ => true
  | stray _ => false

end Piece

/-- The scalar value at the start of `s`. No sequence is longer than four bytes. -/
def first? (s : Bytes) : Option Char := (s.take 4).toByteArray.utf8DecodeChar? 0

/-- Skips `n` bytes that belong to the piece before, then goes on piece by piece. -/
def decodeFrom (n : Nat) : Bytes → List Piece
  | [] => []
  | b :: rest =>
    match n with
    | n + 1 => decodeFrom n rest
    | 0 =>
      match first? (b :: rest) with
      | some c => .char c :: decodeFrom (c.utf8Size - 1) rest
      | none => .stray b :: decodeFrom 0 rest

def decode (s : Bytes) : List Piece := decodeFrom 0 s

def encode (ps : List Piece) : Bytes := ps.flatMap Piece.bytes

/-- The encoding of a code point; one that is no scalar value becomes the replacement character. -/
def encodePoint (n : Nat) : Bytes :=
  if n.isValidChar then String.utf8EncodeChar (Char.ofNat n)
  else String.utf8EncodeChar (Char.ofNat 0xFFFD)

def valid (s : Bytes) : Bool := (decode s).all Piece.isChar

/-- The number of code points, a stray byte counting as one. -/
def length (s : Bytes) : Nat := (decode s).length

end LineMachine.Utf8
