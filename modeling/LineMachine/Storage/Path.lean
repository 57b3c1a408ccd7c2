import LineMachine.Text.Bytes

/-! Paths, as far as they can be simplified without looking at a disk. -/
namespace LineMachine.Path

def slash : UInt8 := 47

def here : Bytes := [46]
def up : Bytes := [46, 46]

/-- The names on a path, without empty ones and those that stay where they are. -/
def names (p : Bytes) : List Bytes :=
  (Bytes.splitOn slash p).filter fun c => c ≠ [] && c ≠ here

/-- Follows one more name, on a path whose last name comes first. A step up takes back the name
before it, if there is one to take back; at the root it goes nowhere. -/
def follow (rooted : Bool) (path : List Bytes) (c : Bytes) : List Bytes :=
  if c = up then
    match path with
    | [] => if rooted then [] else [up]
    | last :: rest => if last = up then up :: path else rest
  else c :: path

/-- The shortest path that means the same, symbolic links apart. -/
def clean (p : Bytes) : Bytes :=
  let rooted := p.head? = some slash
  let body := Bytes.join [slash] ((names p).foldl (follow rooted) []).reverse
  if rooted then slash :: body else if body = [] then here else body

/-- The path of a file in the same directory. -/
def sibling (p name : Bytes) : Bytes := clean (Bytes.trimEndWhile (· ≠ slash) p ++ name)

end LineMachine.Path
