/-! Byte strings, the only text there is: programs, input and output need not be valid UTF-8. -/
namespace LineMachine

abbrev Bytes := List UInt8

/-- The UTF-8 bytes of a string literal. -/
def text (s : String) : Bytes := s.toByteArray.data.toList

namespace Bytes

def newline : UInt8 := 10
def space : UInt8 := 32

/-- The pieces between the separators; there is always one more piece than there are separators. -/
def splitOn (sep : UInt8) (s : Bytes) : List Bytes :=
  s.foldr (fun b pieces =>
    if b = sep then [] :: pieces
    else match pieces with
      | [] => [[b]]
      | p :: rest => (b :: p) :: rest) [[]]

def join (sep : Bytes) : List Bytes → Bytes
  | [] => []
  | p :: rest => p ++ rest.flatMap (sep ++ ·)

/-- Removes one final byte `b`, if `s` ends in it. -/
def dropFinal? (b : UInt8) (s : Bytes) : Option Bytes :=
  if s.getLast? = some b then some s.dropLast else none

/-- Removes all final bytes for which `p` holds. -/
def trimEndWhile (p : UInt8 → Bool) (s : Bytes) : Bytes :=
  (s.reverse.dropWhile p).reverse

def padLeft (width : Nat) (b : UInt8) (s : Bytes) : Bytes :=
  List.replicate (width - s.length) b ++ s

def padRight (width : Nat) (b : UInt8) (s : Bytes) : Bytes :=
  s ++ List.replicate (width - s.length) b

/-- Byte order, with a proper beginning before every continuation of it. -/
def less : Bytes → Bytes → Bool
  | _, [] => false
  | [], _ :: _ => true
  | a :: s, b :: t => if a < b then true else if b < a then false else less s t

theorem less_iff {s t : Bytes} : less s t = true ↔ s < t := by
  induction s generalizing t with
  | nil => cases t <;> simp [less]
  | cons a s ih =>
    cases t with
    | nil => simp [less]
    | cons b t =>
      rw [less, List.cons_lt_cons_iff, ← ih]
      by_cases hlt : a < b
      · simp [hlt]
      · by_cases hgt : b < a
        · have hne : a ≠ b := fun h => hlt (h ▸ hgt)
          simp [hlt, hgt, hne]
        · have heq : a = b := UInt8.le_antisymm (UInt8.not_lt.mp hgt) (UInt8.not_lt.mp hlt)
          simp [heq]

theorem less_eq (s t : Bytes) : less s t = (compare s t == .lt) := by
  induction s generalizing t with
  | nil => cases t <;> simp [less]
  | cons a s ih =>
    cases t with
    | nil => rfl
    | cons b t =>
      rw [less, ih, List.compare_cons_cons]
      cases h : compare a b with
      | lt => simp [Std.compare_eq_lt.mp h]
      | eq => simp [Std.LawfulEqCmp.eq_of_compare h]
      | gt => simp [Std.compare_eq_gt.mp h, UInt8.lt_asymm (Std.compare_eq_gt.mp h)]

end Bytes
end LineMachine
