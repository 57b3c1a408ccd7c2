import LineMachine.Text.Utf8

/-! Case-insensitive comparison with ASCII names. Only those case mappings are needed that end in
ASCII, so beside the ASCII letters there are three characters from outside. -/
namespace LineMachine.Utf8

/-- Upper case; dotless i and long s have ASCII capitals. -/
def upper (c : Char) : Char :=
  if c = 'ı' then 'I' else if c = 'ſ' then 'S' else c.toUpper

/-- Lower case; dotted capital I and the Kelvin sign have ASCII small letters. -/
def lower (c : Char) : Char :=
  if c = 'İ' then 'i' else if c = '\u212A' then 'k' else c.toLower

/-- Case folding; long s and the Kelvin sign fold to ASCII letters. -/
def fold (c : Char) : Char :=
  if c = 'ſ' then 's' else if c = '\u212A' then 'k' else c.toLower

/-- Whether `s`, with every character sent through `f`, spells `name`. -/
def spells (f : Char → Char) (s : Bytes) (name : String) : Bool :=
  (decode s).map (fun
    | .char c => .char (f c)
    | .stray b => .stray b) = name.toList.map Piece.char

end LineMachine.Utf8
