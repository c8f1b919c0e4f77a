/-
What stops a script. A cause says what went wrong and knows its kind and its
wording; a fault is a cause at a place in the source. The operations on values
give causes, and the evaluator, which knows the place, makes faults of them.
-/
import Scriptlet.Fault.Kind
import Scriptlet.Token
import Scriptlet.Value.Text

namespace Scriptlet

/-- Where a truth value is demanded. -/
inductive Demand where
  | condition
  | ifCondition
  | whileCondition
  | operand (op : LogicalOp)
  | negation
  deriving DecidableEq, Repr

/-- The wording of a demand. -/
def Demand.text : Demand → String
  | condition => "condition"
  | ifCondition => "`if` condition"
  | whileCondition => "`while` condition"
  | operand op => "operand of " ++ backquoted op.text
  | negation => "operand of `!`"

/-- What is indexed by position. -/
inductive Sequence where
  | list | string
  deriving DecidableEq, Repr

/-- The wording of a sequence. -/
def Sequence.text : Sequence → String
  | list => "list"
  | string => "string"

/-- Statements that leave the statements around them. -/
inductive Signal where
  | return_ | break_ | continue_
  deriving DecidableEq, Repr

/-- The wording of a signal that nothing took. -/
def Signal.message : Signal → String
  | return_ => "`return` outside of a function"
  | break_ => "`break` outside of a loop"
  | continue_ => "`continue` outside of a loop"

/-- Why a script cannot go on. -/
inductive Cause where
  | undefined (name : String)
  | notBool (demand : Demand) (found : ValueType)
  | cannotNegate (found : ValueType)
  | operands (op : BinaryOp) (left right : ValueType)
  | incomparable (op : BinaryOp) (left right : ValueType)
  | divisionByZero
  | moduloByZero
  | indexNotNumber (what : Sequence) (found : ValueType)
  | indexNotInteger (what : Sequence) (index : Float)
  | indexOutOfRange (what : Sequence) (index : Float) (length : Nat)
  | keyNotFound (key : MapKey)
  | notKey (found : ValueType)
  | nanKey
  | notIndexable (found : ValueType)
  | notAssignable (found : ValueType)
  | notIterable (found : ValueType)
  | notCallable (found : ValueType)
  | invalidTarget
  | arity (function : String) (expected : Arity) (received : Nat)
  | recursionLimit (limit : Nat) (function : String)
  | uncaught (signal : Signal)
  | host (message : String)
  deriving DecidableEq, Repr

namespace Cause

/-- The kind of a cause. -/
def kind : Cause → Fault.Kind
  | undefined _ => .undefinedVariable
  | indexOutOfRange _ _ _ => .indexError
  | keyNotFound _ => .keyError
  | divisionByZero | moduloByZero => .divisionByZero
  | arity _ _ _ => .arityError
  | recursionLimit _ _ => .recursionLimit
  | uncaught _ => .uncaughtSignal
  | host _ => .hostError
  | notBool _ _ | cannotNegate _ | operands _ _ _ | incomparable _ _ _ | indexNotNumber _ _
  | indexNotInteger _ _ | notKey _ | nanKey | notIndexable _ | notAssignable _ | notIterable _
  | notCallable _ | invalidTarget => .typeError

/-- The wording of a cause. -/
def message : Cause → String
  | undefined name => "undefined variable " ++ backquoted name
  | notBool demand found => demand.text ++ " must be Bool, found " ++ found.text
  | cannotNegate found => "cannot negate " ++ found.text
  | operands op left right =>
      "cannot apply " ++ backquoted op.text ++ " to " ++ left.text ++ " and " ++ right.text
  | incomparable op left right =>
      "cannot compare " ++ left.text ++ " with " ++ right.text ++ " using " ++ backquoted op.text
  | divisionByZero => "division by zero"
  | moduloByZero => "modulo by zero"
  | indexNotNumber what found => what.text ++ " index must be a Number, found " ++ found.text
  | indexNotInteger what index =>
      what.text ++ " index must be an integer, found " ++ Number.text index
  | indexOutOfRange what index length =>
      what.text ++ " index " ++ Number.text index ++ " out of range for length " ++ toString length
  | keyNotFound key => "key " ++ key.quoted ++ " not found in map"
  | notKey found => found.text ++ " cannot be used as a map key"
  | nanKey => "NaN cannot be used as a map key"
  | notIndexable found => "cannot index into " ++ found.text
  | notAssignable found => "cannot assign into " ++ found.text
  | notIterable found => "cannot iterate over " ++ found.text
  | notCallable found => found.text ++ " is not callable"
  | invalidTarget => "invalid assignment target"
  | arity function expected received =>
      "function " ++ backquoted function ++ " expected " ++ expected.text ++ " but received "
        ++ toString received
  | recursionLimit limit function =>
      "maximum call depth of " ++ toString limit ++ " exceeded in " ++ backquoted function
  | uncaught signal => signal.message
  | host message => message

/-- A cause with its kind, in one line. -/
def text (c : Cause) : String := c.kind.text ++ ": " ++ c.message

end Cause

/-- A cause and the place where it arose. -/
structure Fault where
  cause : Cause
  pos : Position
  deriving DecidableEq, Repr

end Scriptlet
