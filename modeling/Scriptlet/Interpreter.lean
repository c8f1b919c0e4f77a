/-
The interpreter: a machine with its setup, over any number of evaluations. What
one evaluation defines is there for the next, also after a failure. The host can
look into the outermost frame and change it in between.
-/
import Scriptlet.Eval
import Scriptlet.Failure
import Scriptlet.Grammar
import Scriptlet.Token.Lexer

namespace Scriptlet

/-- The call depth that scripts may reach unless it is set otherwise. -/
def defaultMaxDepth : Nat := 200

/-- A machine and all that its evaluations depend on. -/
structure Interpreter where
  setup : Setup
  layout : Layout
  machine : Machine

namespace Interpreter

/-- An interpreter whose outermost frame holds the host's routines. -/
def start (host : Host) (maxDepth : Nat) (layout : Layout) : Interpreter :=
  { setup := ⟨host, maxDepth⟩, layout, machine := .start (host.bindings 0 []) }

/-- A budget beyond any run that could be waited for. -/
def ample : Nat := 1 <<< 62

-- ====================================================== evaluation

/-- Runs a program. -/
def evalProgram (i : Interpreter) (budget : Nat) (program : Program) :
    Outcome Interpreter Failure Value :=
  match program.run i.setup budget i.machine with
  | .done v m => .done v { i with machine := m }
  | .failed f m => .failed (.fault f) { i with machine := m }
  | .exhausted => .exhausted

/-- The program of a source text. -/
def parse (layout : Layout) (source : String) : Except Failure Program :=
  match tokenize layout source with
  | .error e => .error (.lex e)
  | .ok tokens =>
      match Program.ofTokens tokens with
      | .error e => .error (.parse e)
      | .ok program => .ok program

/-- Evaluates a source text. -/
def evalSource (i : Interpreter) (budget : Nat) (source : String) :
    Outcome Interpreter Failure Value :=
  match parse i.layout source with
  | .error e => .failed e i
  | .ok program => i.evalProgram budget program

-- ================================================ outermost frame

/-- What a name means in the outermost frame. -/
def get (i : Interpreter) (name : String) : Except Cause Value :=
  i.machine.heap.get Machine.root name

/-- Binds a name in the outermost frame. -/
def define (i : Interpreter) (name : String) (value : Value) : Interpreter :=
  let m := i.machine
  { i with machine := { m with heap := m.heap.define Machine.root name value } }

/-- Changes the binding of a name in the outermost frame. -/
def assign (i : Interpreter) (name : String) (value : Value) : Except Cause Interpreter := do
  let m := i.machine
  let heap ← m.heap.assign Machine.root name value
  return { i with machine := { m with heap } }

/-- The names of the outermost frame, in the order of their definition. -/
def names (i : Interpreter) : List String := i.machine.heap.names Machine.root

/-- Whether the outermost frame binds a name. -/
def binds (i : Interpreter) (name : String) : Bool := i.machine.heap.binds Machine.root name

/-- What has been written since the transcript was last cleared. -/
def transcript (i : Interpreter) : Transcript := i.machine.transcript

/-- The interpreter with an empty transcript. -/
def cleared (i : Interpreter) : Interpreter :=
  { i with machine := { i.machine with transcript := {} } }

end Interpreter

end Scriptlet
