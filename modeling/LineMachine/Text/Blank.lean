import LineMachine.Text.Utf8

/-! The characters with the Unicode property White_Space, and trimming by them. -/
namespace LineMachine.Utf8

def isBlank (c : Char) : Bool :=
  let n := c.toNat
  (9 ≤ n && n ≤ 13) || n = 0x20 || n = 0x85 || n = 0xA0 || n = 0x1680 ||
    (0x2000 ≤ n && n ≤ 0x200A) || n = 0x2028 || n = 0x2029 || n = 0x202F || n = 0x205F || n = 0x3000

def Piece.isBlank : Piece → Bool
  | char c => Utf8.isBlank c
  | stray _ => false

/-- Removes White_Space characters at both ends. -/
def trim (s : Bytes) : Bytes :=
  encode ((((decode s).dropWhile Piece.isBlank).reverse.dropWhile Piece.isBlank).reverse)

end LineMachine.Utf8
