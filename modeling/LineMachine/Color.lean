import LineMachine.Text.Letter

/-! Terminal colors. -/
namespace LineMachine

inductive Color where
  | red
  | green
  | yellow
  | blue
  | magenta
  | cyan
  | white
  | reset
  deriving DecidableEq

namespace Color

/-- The escape sequence that switches to the color. -/
def escape : Color → Bytes
  | red => text "\x1b[31m"
  | green => text "\x1b[32m"
  | yellow => text "\x1b[33m"
  | blue => text "\x1b[34m"
  | magenta => text "\x1b[35m"
  | cyan => text "\x1b[36m"
  | white => text "\x1b[37m"
  | reset => text "\x1b[0m"

def names : List (String × Color) :=
  [("RED", red), ("GREEN", green), ("YELLOW", yellow), ("BLUE", blue), ("MAGENTA", magenta),
    ("CYAN", cyan), ("WHITE", white)]

/-- The color with a given name in any case; an unknown name resets. -/
def named (name : Bytes) : Color :=
  ((names.find? fun (n, _) => Utf8.spells Utf8.upper name n).map (·.2)).getD reset

end Color
end LineMachine
