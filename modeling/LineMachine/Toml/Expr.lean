import LineMachine.Text.Bytes

/-! What is written in a configuration file, statement by statement. -/
namespace LineMachine.Toml

/-- A dotted key. -/
abbrev Path := List Bytes

inductive Expr where
  | str (s : Bytes)
  | int (n : Int64)
  | float (x : Float)
  | bool (b : Bool)
  | time
  | array (items : List Expr)
  | inline (pairs : List (Path × Expr))

inductive Statement where
  | header (path : Path)
  | arrayHeader (path : Path)
  | pair (path : Path) (value : Expr)

end LineMachine.Toml
