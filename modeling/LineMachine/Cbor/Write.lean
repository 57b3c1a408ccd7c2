import LineMachine.Cbor.Item

/-! Canonical CBOR: shortest heads, shortest floats that keep the value, sorted maps. -/
namespace LineMachine.Cbor.Write

/-- The last `width` bytes of a number, the highest first. -/
def bigEndian : (width : Nat) → (n : Nat) → Bytes
  | 0, _ => []
  | w + 1, n => bigEndian w (n / 256) ++ [UInt8.ofNat (n % 256)]

/-- A major type with its argument, in the fewest bytes. -/
def head (major : Major) (n : Nat) : Bytes :=
  let initial (info : Nat) : UInt8 := UInt8.ofNat (32 * major.code + info)
  if n < 24 then [initial n]
  else if n < 1 <<< 8 then initial 24 :: bigEndian 1 n
  else if n < 1 <<< 16 then initial 25 :: bigEndian 2 n
  else if n < 1 <<< 32 then initial 26 :: bigEndian 4 n
  else initial 27 :: bigEndian 8 n

def int (n : Int) : Bytes :=
  if 0 ≤ n then head .unsigned n.toNat else head .negative (-1 - n).toNat

def word (n : Int64) : Bytes := int n.toInt

def str (s : Bytes) : Bytes := head .text s.length ++ s

def bool (b : Bool) : Bytes := if b then [0xF5] else [0xF4]

def null : Bytes := [0xF6]

/-- There is one not-a-number. -/
def float (x : Float) : Bytes :=
  match Binary64.parts x with
  | .nan => [0xF9, 0x7E, 0x00]
  | .infinite negative => 0xF9 :: bigEndian 2 (half.sign negative + (half.topField <<< 10))
  | .finite negative m e =>
    match half.bitsOf? negative m e, single.bitsOf? negative m e with
    | some bits, _ => 0xF9 :: bigEndian 2 bits
    | none, some bits => 0xFA :: bigEndian 4 bits
    | none, none => 0xFB :: bigEndian 8 x.toBits.toNat

def array (items : List Bytes) : Bytes := head .array items.length ++ items.flatten

/-- Keys are ordered by length, then by bytes. -/
def keyLe (a b : Bytes) : Bool :=
  if a.length = b.length then !Bytes.less b a else a.length < b.length

/-- A map from written keys to written values. -/
def map (entries : List (Bytes × Bytes)) : Bytes :=
  head .map entries.length ++
    (entries.mergeSort fun a b => keyLe a.1 b.1).flatMap fun (k, v) => k ++ v

/-- A field, unless it has its default value. -/
def optionalField (name : String) (isDefault : Bool) (written : Bytes) : List (Bytes × Bytes) :=
  if isDefault then [] else [(str (text name), written)]

def field (name : String) (written : Bytes) : List (Bytes × Bytes) :=
  optionalField name false written

end LineMachine.Cbor.Write
