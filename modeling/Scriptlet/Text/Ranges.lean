/-
Sets of code points given as ranges. The tables of character classes are
values of this type, and a class is membership in its table; order and
overlap of the ranges play no part.
-/
namespace Scriptlet.Text

/-- A set of code points as a list of ranges, both ends included. -/
abbrev Ranges := List (Nat × Nat)

/-- Whether one of the ranges holds `n`. -/
def Ranges.holds (ranges : Ranges) (n : Nat) : Bool :=
  ranges.any fun range => range.1 ≤ n && n ≤ range.2

end Scriptlet.Text
