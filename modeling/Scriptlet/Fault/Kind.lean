/-
The kinds of failure a running script can meet. Hosts and reports sort faults
by kind; the kind's name begins the report.
-/
namespace Scriptlet

/-- What sort of failure stopped a script. -/
inductive Fault.Kind where
  | undefinedVariable
  | typeError
  | indexError
  | keyError
  | arityError
  | uncaughtSignal
  | hostError
  | divisionByZero
  | recursionLimit
  deriving DecidableEq, Repr

/-- The name of a kind in reports. -/
def Fault.Kind.text : Fault.Kind → String
  | undefinedVariable => "UndefinedVariable"
  | typeError => "TypeError"
  | indexError => "IndexError"
  | keyError => "KeyError"
  | arityError => "ArityError"
  | uncaughtSignal => "UncaughtControlSignal"
  | hostError => "HostError"
  | divisionByZero => "DivisionByZero"
  | recursionLimit => "RecursionLimit"

end Scriptlet
