/-
What operators compute. Arithmetic is on numbers, except that `+` also joins
strings; order is on two numbers or two strings; equality is on all values. A
zero divisor is a fault, and `%` rounds its quotient down.
-/
import Scriptlet.Value.Item
import Scriptlet.Number.Modulo

namespace Scriptlet

/-- Applies an operator to its operand. -/
def UnaryOp.apply : UnaryOp → Value → Except Cause Value
  | negate, .number n => .ok (.number (-n))
  | negate, v => .error (.cannotNegate v.type)
  | not, v => do return .bool (!(← v.truth .negation))

namespace BinaryOp

/-- Applies an arithmetic operation to two numbers. -/
def arithmetic (op : BinaryOp) (f : Float → Float → Except Cause Float) :
    Value → Value → Except Cause Value
  | .number a, .number b => do return .number (← f a b)
  | left, right => .error (.operands op left.type right.type)

/-- Compares two numbers or two strings. -/
def order (op : BinaryOp) (numbers : Float → Float → Bool) (strings : String → String → Bool) :
    Value → Value → Except Cause Value
  | .number a, .number b => .ok (.bool (numbers a b))
  | .string a, .string b => .ok (.bool (strings a b))
  | left, right => .error (.incomparable op left.type right.type)

/-- Applies an operator to its two sides. -/
def apply (op : BinaryOp) (left right : Value) : Except Cause Value :=
  match op with
  | add =>
      match left, right with
      | .string a, .string b => .ok (.string (a ++ b))
      | _, _ => arithmetic op (fun a b => .ok (a + b)) left right
  | sub => arithmetic op (fun a b => .ok (a - b)) left right
  | mul => arithmetic op (fun a b => .ok (a * b)) left right
  | pow => arithmetic op (fun a b => .ok (Float.pow a b)) left right
  | div =>
      arithmetic op
        (fun a b => if b == Number.zero then .error .divisionByZero else .ok (a / b)) left right
  | mod =>
      arithmetic op
        (fun a b => if b == Number.zero then .error .moduloByZero else .ok (Number.modulo a b))
        left right
  | equal => .ok (.bool (left.eq right))
  | notEqual => .ok (.bool (!left.eq right))
  | less => order op (fun a b => decide (a < b)) (fun a b => decide (a < b)) left right
  | lessEqual => order op (fun a b => decide (a ≤ b)) (fun a b => !decide (b < a)) left right
  | greater => order op (fun a b => decide (b < a)) (fun a b => decide (b < a)) left right
  | greaterEqual => order op (fun a b => decide (b ≤ a)) (fun a b => !decide (a < b)) left right

end BinaryOp

/-- Whether an operator has its answer after the left side. -/
def LogicalOp.decides : LogicalOp → Bool → Bool
  | and, left => !left
  | or, left => left

end Scriptlet
