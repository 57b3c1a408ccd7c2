import LineMachine.Toml.Number

/-! Strings in a configuration file. -/
namespace LineMachine.Toml.Str

def isBlank (c : Char) : Bool := c = ' ' || c = '\t'

/-- A carriage return is always followed by a newline. -/
def isNewline (c : Char) : Bool := c = '\n' || c = '\r'

def encode (s : Array Char) : Bytes := s.toList.flatMap String.utf8EncodeChar

/-- What a string in double quotes is read as at some point. -/
inductive Mode where
  /-- Characters as they are; whether a backslash was just written as two. -/
  | plain (afterBackslash : Bool)
  | escaped
  /-- This many digits of a code point are still to come. -/
  | hex (left : Nat) (value : Nat)
  /-- Blanks after a backslash, which are skipped together with at least one newline. -/
  | continued (sawNewline : Bool)

/-- The character that a letter after a backslash stands for. -/
def shortEscape? : Char → Option Char
  | 'b' => some '\x08'
  | 't' => some '\t'
  | 'n' => some '\n'
  | 'f' => some '\x0c'
  | 'r' => some '\r'
  | 'e' => some '\x1b'
  | '"' => some '"'
  | '\\' => some '\\'
  | _ => none

def hexLength? : Char → Option Nat
  | 'x' => some 2
  | 'u' => some 4
  | 'U' => some 8
  | _ => none

def hexValue (c : Char) : Nat :=
  if c.isDigit then c.toNat - 48 else if 'a' ≤ c then c.toNat - 87 else c.toNat - 55

/-- How many quotes may end a string over several lines: two of them can belong to it, and a third
one after a double backslash. -/
def maxClosing (afterBackslash : Bool) : Nat := if afterBackslash then 6 else 5

/-- How the next character is to be read: blanks after a backslash end where it is no blank. -/
def Mode.before (c : Char) : Mode → Option Mode
  | continued sawNewline =>
    if isBlank c || isNewline c then some (continued sawNewline)
    else if sawNewline then some (plain false)
    else none
  | mode => some mode

/-- The rest of a string in double quotes, which ends at a quote, or at three if it may go over
several lines. -/
def basic (multi : Bool) : Mode → Array Char → List Char → Option (Bytes × List Char)
  | _, _, [] => none
  | mode, acc, c :: s =>
    match mode.before c with
    | none => none
    | some (.plain afterBackslash) =>
      if c = '\\' then basic multi .escaped acc s
      else if c = '"' then
        if multi then
          let n := (s.takeWhile (· = '"')).length + 1
          if n < 3 then basic multi (.plain false) (acc.push c) s
          else if maxClosing afterBackslash < n then none
          else some (encode (acc ++ List.replicate (n - 3) '"'), s.drop (n - 1))
        else some (encode acc, s)
      else if !multi && isNewline c then none
      else basic multi (.plain false) (acc.push c) s
    | some .escaped =>
      match shortEscape? c, hexLength? c with
      | some e, _ => basic multi (.plain (c = '\\')) (acc.push e) s
      | none, some n => basic multi (.hex n 0) acc s
      | none, none =>
        if multi && (isBlank c || isNewline c) then basic multi (.continued (isNewline c)) acc s
        else none
    | some (.hex left value) =>
      let value := 16 * value + hexValue c
      if !isHex c then none
      else if 1 < left then basic multi (.hex (left - 1) value) acc s
      else if value.isValidChar then basic multi (.plain false) (acc.push (Char.ofNat value)) s
      else none
    | some (.continued sawNewline) =>
      basic multi (.continued (sawNewline || isNewline c)) acc s

/-- The rest of a string in single quotes, where every character stands for itself. -/
def literal (multi : Bool) : Array Char → List Char → Option (Bytes × List Char)
  | _, [] => none
  | acc, c :: s =>
    if c = '\'' then
      if multi then
        let n := (s.takeWhile (· = '\'')).length + 1
        if n < 3 then literal multi (acc.push c) s
        else if maxClosing false < n then none
        else some (encode (acc ++ List.replicate (n - 3) '\''), s.drop (n - 1))
      else some (encode acc, s)
    else if !multi && isNewline c then none
    else literal multi (acc.push c) s

/-- A newline directly after the opening quotes does not count. -/
def dropFirstNewline : List Char → List Char
  | '\n' :: s => s
  | '\r' :: '\n' :: s => s
  | s => s

/-- A string on one line, from its opening quote on. -/
def line? : List Char → Option (Bytes × List Char)
  | '"' :: s => basic false (.plain false) #[] s
  | '\'' :: s => literal false #[] s
  | _ => none

/-- Any string, from its opening quote on. -/
def any? : List Char → Option (Bytes × List Char)
  | '"' :: '"' :: '"' :: s => basic true (.plain false) #[] (dropFirstNewline s)
  | '\'' :: '\'' :: '\'' :: s => literal true #[] (dropFirstNewline s)
  | s => line? s

end LineMachine.Toml.Str
