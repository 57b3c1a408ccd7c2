import LineMachine.Number.Binary64
import LineMachine.Text.Bytes

/-! The data items of CBOR, and its floating-point formats. -/
namespace LineMachine.Cbor

inductive Item where
  | unsigned (n : Nat)
  /-- The number `-1 - n`. -/
  | negative (n : Nat)
  | bytes (b : Bytes)
  /-- A text string comes in one chunk, or in several if its length was not known in advance. -/
  | text (chunks : List Bytes)
  | array (items : List Item)
  | map (entries : List (Item × Item))
  | tag (n : Nat) (content : Item)
  | simple (n : Nat)
  | float (x : Float)

/-- The major types, by their numbers. -/
inductive Major where
  | unsigned
  | negative
  | bytes
  | text
  | array
  | map
  | tag
  | other
  deriving DecidableEq

namespace Major

def code : Major → Nat
  | unsigned => 0
  | negative => 1
  | bytes => 2
  | text => 3
  | array => 4
  | map => 5
  | tag => 6
  | other => 7

/-- The major type in the top three bits of a byte. -/
def ofByte (b : UInt8) : Major :=
  match b.toNat / 32 with
  | 0 => unsigned
  | 1 => negative
  | 2 => bytes
  | 3 => text
  | 4 => array
  | 5 => map
  | 6 => tag
  | _ => other

end Major

/-- A binary format: significands below `2 ^ precision`, in units from `2 ^ least` to
`2 ^ greatest`. -/
structure FloatFormat where
  precision : Nat
  least : Int
  greatest : Int

def half : FloatFormat := ⟨11, -24, 5⟩
def single : FloatFormat := ⟨24, -149, 104⟩

namespace FloatFormat

/-- The field of the largest exponents, those of infinity and not-a-number. -/
def topField (f : FloatFormat) : Nat := (f.greatest - f.least).toNat + 2

/-- The sign bit. -/
def sign (f : FloatFormat) (negative : Bool) : Nat :=
  if negative then (f.topField + 1) <<< (f.precision - 1) else 0

/-- The bits of `m * 2 ^ e`, if the format holds the number exactly. -/
def bitsOf? (f : FloatFormat) (negative : Bool) (m : Nat) (e : Int) : Option Nat :=
  let bits : Nat := if m = 0 then 0 else m.log2 + 1
  let q : Int := if e + bits - f.precision < f.least then f.least else e + bits - f.precision
  let shift := (q - e).toNat
  if f.greatest < q ∨ m % (1 <<< shift) ≠ 0 then none
  else
    let significand := (m >>> shift) <<< (e - q).toNat
    some (f.sign negative + ((q - f.least).toNat <<< (f.precision - 1)) + significand)

/-- The float with given bits. -/
def widen (f : FloatFormat) (bits : Nat) : Float :=
  let places := f.precision - 1
  let negative := decide (f.sign true ≤ bits)
  let field := (bits >>> places) % (f.topField + 1)
  let fraction := bits % (1 <<< places)
  if field = f.topField then
    if fraction = 0 then Binary64.infinity negative else Binary64.nan
  else if field = 0 then Binary64.ofBinary negative fraction f.least
  else Binary64.ofBinary negative ((1 <<< places) + fraction) (f.least + field - 1)

end FloatFormat
end LineMachine.Cbor
