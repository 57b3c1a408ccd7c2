/-! Dates and times, which are checked but have no further use. -/
namespace LineMachine.Toml.Time

/-- A number of exactly `n` digits. -/
def number? (n : Nat) (s : List Char) : Option (Nat × List Char) :=
  let ds := s.take n
  if ds.length = n && ds.all Char.isDigit then
    some (ds.foldl (fun k c => 10 * k + (c.toNat - 48)) 0, s.drop n)
  else none

def expect? (c : Char) : List Char → Option (List Char)
  | d :: s => if d = c then some s else none
  | [] => none

def isLeap (year : Nat) : Bool := year % 4 = 0 && (year % 100 ≠ 0 || year % 400 = 0)

def daysIn (year month : Nat) : Nat :=
  if month = 2 then if isLeap year then 29 else 28
  else if month = 4 || month = 6 || month = 9 || month = 11 then 30
  else 31

/-- Skips a date. -/
def date? (s : List Char) : Option (List Char) := do
  let (year, s) ← number? 4 s
  let s ← expect? '-' s
  let (month, s) ← number? 2 s
  let s ← expect? '-' s
  let (day, s) ← number? 2 s
  if 1 ≤ month && month ≤ 12 && 1 ≤ day && day ≤ daysIn year month then some s else none

/-- Skips a fraction of a second, if there is one. -/
def fraction (s : List Char) : List Char :=
  match s with
  | '.' :: d :: r => if d.isDigit then r.dropWhile Char.isDigit else s
  | _ => s

/-- Skips the time of a day. Seconds may be left out. -/
def clock? (s : List Char) : Option (List Char) := do
  let (hour, s) ← number? 2 s
  let s ← expect? ':' s
  let (minute, s) ← number? 2 s
  if hour < 24 && minute < 60 then
    match s with
    | ':' :: s =>
      let (second, s) ← number? 2 s
      if second < 60 then some (fraction s) else none
    | s => some s
  else none

/-- Whether `s` is a distance from universal time. -/
def isOffset (s : List Char) : Bool :=
  match s with
  | ['Z'] => true
  | c :: s => (c = '+' || c = '-') && (do
      let (hours, s) ← number? 2 s
      let s ← expect? ':' s
      let (minutes, s) ← number? 2 s
      some (hours ≤ 24 && minutes ≤ 60 && s.isEmpty)).getD false
  | [] => false

/-- A small `t` or a space may stand before the time, and a small `z` for universal time. -/
def normal (c : Char) : Char :=
  if c = 't' || c = ' ' then 'T' else if c = 'z' then 'Z' else c

/-- A date, a time, or both with or without an offset. -/
def isTime (s : List Char) : Bool :=
  let s := s.map normal
  match date? s with
  | none => clock? s = some []
  | some [] => true
  | some s => match (expect? 'T' s).bind clock? with
    | none => false
    | some s => s.isEmpty || isOffset s

end LineMachine.Toml.Time
