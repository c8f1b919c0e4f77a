/-
Binding powers. An operator between two expressions holds its left side with
one power and its right side with another; the stronger hold wins the operand
between two operators. A left power below the right one groups to the left, so
that `a - b - c` is `(a - b) - c`; `**` alone groups to the right. The powers
rise from `||` over `&&`, equality, order, sums and products to `**`.
-/
import Scriptlet.Token
import Scriptlet.Tree

namespace Scriptlet

/-- An operator that joins two expressions. -/
inductive Joint where
  | binary (op : BinaryOp)
  | logical (op : LogicalOp)
  deriving DecidableEq, Repr

/-- The expression a joint makes of its sides. -/
def Joint.join (pos : Position) (left right : Expr) : Joint → Expr
  | binary op => .binary pos op left right
  | logical op => .logical pos op left right

/-- A joint with its powers. -/
structure Power where
  left : Nat
  right : Nat
  joint : Joint
  deriving DecidableEq, Repr

/-- How strongly `-`, `!` and `not` hold their operand: more than a product,
less than `**`, so that `-2 ** 2` is `-(2 ** 2)`. -/
def unaryPower : Nat := 13

/-- The joint that a token stands for. -/
def Power.of? : Token.Kind → Option Power
  | .symbol .pipes | .keyword .or_ => some ⟨1, 2, .logical .or⟩
  | .symbol .ampersands | .keyword .and_ => some ⟨3, 4, .logical .and⟩
  | .symbol .equalEqual => some ⟨5, 6, .binary .equal⟩
  | .symbol .bangEqual => some ⟨5, 6, .binary .notEqual⟩
  | .symbol .less => some ⟨7, 8, .binary .less⟩
  | .symbol .lessEqual => some ⟨7, 8, .binary .lessEqual⟩
  | .symbol .greater => some ⟨7, 8, .binary .greater⟩
  | .symbol .greaterEqual => some ⟨7, 8, .binary .greaterEqual⟩
  | .symbol .plus => some ⟨9, 10, .binary .add⟩
  | .symbol .minus => some ⟨9, 10, .binary .sub⟩
  | .symbol .star => some ⟨11, 12, .binary .mul⟩
  | .symbol .slash => some ⟨11, 12, .binary .div⟩
  | .symbol .percent => some ⟨11, 12, .binary .mod⟩
  | .symbol .starStar => some ⟨15, 14, .binary .pow⟩
  | _ => none

/-- The operator in front of an expression that a token stands for. -/
def unaryOf? : Token.Kind → Option UnaryOp
  | .symbol .minus => some .negate
  | .symbol .bang | .keyword .not_ => some .not
  | _ => none

/-- The assignment that a token stands for, with the operator of a compound
one. -/
def assignmentOf? : Token.Kind → Option (Option BinaryOp)
  | .symbol .assign => some none
  | .symbol .plusAssign => some (some .add)
  | .symbol .minusAssign => some (some .sub)
  | .symbol .starAssign => some (some .mul)
  | .symbol .slashAssign => some (some .div)
  | _ => none

end Scriptlet
