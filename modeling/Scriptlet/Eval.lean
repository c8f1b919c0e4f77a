/-
Evaluation. Expressions compute values and statements are executed for their
effect; a statement may also end in a signal that leaves the statements around
it, and loops and calls take those signals.

What one expression or statement does is given in terms of what its parts do
(`Expr.step`, `Stmt.step`). Evaluation ties the two together by recursion on a
budget: every part runs on a smaller one, and a loop makes at most as many
rounds as the budget it was given. A run that ends within one budget ends the
same way within every larger one.
-/
import Scriptlet.Machine
import Scriptlet.Operator
import Scriptlet.Value.Path

namespace Scriptlet

/-- What a run is given from outside: the host's routines and how deep calls may
go. -/
structure Setup where
  host : Host
  maxDepth : Nat

/-- How a statement ends. -/
inductive Flow where
  | normal (value : Value)
  | return_ (value : Value)
  | break_
  | continue_

namespace Eval

-- ====================================================== sequences

/-- Evaluates expressions in order. -/
def list (eval : Expr → Run Value) : List Expr → Run (List Value)
  | [] => pure []
  | e :: rest => do
      let v ← eval e
      let vs ← list eval rest
      return v :: vs

/-- Evaluates the entries of a map in order, each key before its value. A key
that comes again keeps its place and takes the later value. -/
def entries (eval : Expr → Run Value) :
    List (Expr × Expr) → Entries MapKey Value → Run (Entries MapKey Value)
  | [], done => pure done
  | (keyExpr, valueExpr) :: rest, done => do
      let keyValue ← eval keyExpr
      let key ← Run.at keyExpr.pos (MapKey.ofValue keyValue)
      let value ← eval valueExpr
      entries eval rest (Entries.put key value done)

/-- Executes statements in order, up to the first that does not end normally. -/
def sequence (exec : Stmt → Run Flow) : List Stmt → Run Flow
  | [] => pure (.normal .nil)
  | s :: rest => do
      match ← exec s with
      | .normal _ => sequence exec rest
      | flow => return flow

/-- Executes statements in a frame of their own. -/
@[inline] def block (exec : Stmt → Run Flow) (bindings : Entries String Value)
    (body : List Stmt) : Run Flow :=
  Run.inBlock bindings (sequence exec body)

-- ====================================================== conditions

/-- Evaluates an expression to the truth value that is demanded of it. -/
@[inline] def condition (eval : Expr → Run Value) (demand : Demand) (e : Expr) : Run Bool := do
  let v ← eval e
  Run.at e.pos (v.truth demand)

-- =========================================================== loops

/-- Repeats `body` while `test` holds, for at most so many rounds. -/
def repeatWhile (test : Run Bool) (body : Run Flow) : Nat → Run Flow
  | 0 => Run.exhausted
  | rounds + 1 => do
      if ← test then
        match ← body with
        | .normal _ | .continue_ => repeatWhile test body rounds
        | .break_ => return .normal .nil
        | .return_ v => return .return_ v
      else return .normal .nil

/-- Runs `body` on each item in order. -/
def repeatFor (body : Value → Run Flow) : List Value → Run Flow
  | [] => pure (.normal .nil)
  | item :: rest => do
      match ← body item with
      | .normal _ | .continue_ => repeatFor body rest
      | .break_ => return .normal .nil
      | .return_ v => return .return_ v

-- =========================================================== calls

/-- The bindings of a function's parameters to its arguments. -/
def parameters (code : Code) (args : List Value) : Entries String Value :=
  (code.params.zip args).foldl (fun bound (param, arg) => Entries.put param.name arg bound) []

/-- What a call of a script function makes of how its body ended. -/
@[inline] def callResult (pos : Position) : Flow → Run Value
  | .return_ v => pure v
  | .normal _ => pure .nil
  | .break_ => Run.fault (.uncaught .break_) pos
  | .continue_ => Run.fault (.uncaught .continue_) pos

/-- Calls a script function: its body runs in a frame of its own inside the frame
it was made in. -/
def callClosure (setup : Setup) (exec : Stmt → Run Flow) (f : Closure) (args : List Value)
    (pos : Position) : Run Value := fun m =>
  if args.length ≠ f.code.arity then
    Run.fault (.arity f.code.title (.exact f.code.arity) args.length) pos m
  else if setup.maxDepth ≤ m.depth then
    Run.fault (.recursionLimit setup.maxDepth f.code.title) pos m
  else
    Run.bind
      (Run.inCall (Run.inFrame f.frame (parameters f.code args) (sequence exec f.code.body)))
      (callResult pos) m

/-- Calls a value. -/
def call (setup : Setup) (exec : Stmt → Run Flow) (callee : Value) (args : List Value)
    (pos : Position) : Run Value :=
  match callee with
  | .native f => Run.native setup.host f args pos
  | .function f => callClosure setup exec f args pos
  | v => Run.fault (.notCallable v.type) pos

-- ========================================================== places

/-- A place that can be assigned to: a name and a path into its value. -/
structure Place where
  name : String
  pos : Position
  path : Path

/-- The place that a target stands for. Its keys are evaluated once, from left to
right. -/
def place (eval : Expr → Run Value) : Expr → Run Place
  | .name pos name => pure ⟨name, pos, []⟩
  | .index pos collection key => do
      let p ← place eval collection
      let k ← eval key
      return { p with path := p.path ++ [(k, pos)] }
  | e => Run.fault .invalidTarget e.pos

/-- What stands at a place. -/
def load (p : Place) : Run Value := do
  let root ← Run.get p.pos p.name
  Run.ofExcept (root.load p.path)

/-- Puts a value at a place, on top of what the name means now. -/
def store (p : Place) (value : Value) : Run Unit := do
  let root ← Run.get p.pos p.name
  let root ← Run.ofExcept (root.store p.path value)
  Run.assign p.pos p.name root

/-- The value that an assignment stores: the right side, or what the operator
makes of the old value and the right side. -/
@[inline] def assigned (eval : Expr → Run Value) (pos : Position) (p : Place) (op : Option BinaryOp)
    (value : Expr) : Run Value :=
  match op with
  | none => eval value
  | some op => do
      let old ← load p
      let right ← eval value
      Run.at pos (op.apply old right)

end Eval

-- =========================================================== steps

/-- What an expression computes, given what its parts compute. -/
@[inline] def Expr.step (setup : Setup) (eval : Expr → Run Value) (exec : Stmt → Run Flow) :
    Expr → Run Value
  | .literal _ value => pure value.value
  | .list _ items => do return .list (← Eval.list eval items)
  | .map _ entries => do return .map (← Eval.entries eval entries [])
  | .name pos ident => Run.get pos ident
  | .unary pos op operand => do
      let v ← eval operand
      Run.at pos (op.apply v)
  | .binary pos op left right => do
      let l ← eval left
      let r ← eval right
      Run.at pos (op.apply l r)
  | .logical _ op left right => do
      let l ← Eval.condition eval (.operand op) left
      if op.decides l then return .bool l
      else return .bool (← Eval.condition eval (.operand op) right)
  | .call pos callee args => do
      let f ← eval callee
      let vs ← Eval.list eval args
      Eval.call setup exec f vs pos
  | .index pos collection key => do
      let c ← eval collection
      let k ← eval key
      Run.at pos (c.item k)
  | .function _ code => Run.closure code

/-- What a statement does, given what its parts do. -/
@[inline] def Stmt.step (eval : Expr → Run Value) (exec : Stmt → Run Flow) (rounds : Nat) :
    Stmt → Run Flow
  | .let_ _ name value => do
      let v ← eval value
      Run.define name v
      return .normal .nil
  | .assign pos target op value => do
      let p ← Eval.place eval target
      let v ← Eval.assigned eval pos p op value
      Eval.store p v
      return .normal .nil
  | .expr _ value => do return .normal (← eval value)
  | .if_ _ condition yes no => do
      if ← Eval.condition eval .ifCondition condition then Eval.block exec [] yes
      else
        match no with
        | some no => Eval.block exec [] no
        | none => return .normal .nil
  | .while_ _ condition body =>
      Eval.repeatWhile (Eval.condition eval .whileCondition condition) (Eval.block exec [] body)
        rounds
  | .for_ _ name iterable body => do
      let c ← eval iterable
      let items ← Run.at iterable.pos c.items
      Eval.repeatFor (fun item => Eval.block exec [(name, item)] body) items
  | .function _ code => do
      let f ← Run.closure code
      Run.define (code.name.getD "") f
      return .normal .nil
  | .return_ _ value => do
      match value with
      | some value => return .return_ (← eval value)
      | none => return .return_ .nil
  | .break_ _ => pure .break_
  | .continue_ _ => pure .continue_
  | .block _ body => Eval.block exec [] body

-- ====================================================== evaluation

mutual

/-- Evaluates an expression within a budget. -/
def Expr.eval (setup : Setup) : Nat → Expr → Run Value
  | 0, _, _ => .exhausted
  | budget + 1, e, m => e.step setup (Expr.eval setup budget) (Stmt.exec setup budget) m

/-- Executes a statement within a budget. -/
def Stmt.exec (setup : Setup) : Nat → Stmt → Run Flow
  | 0, _, _ => .exhausted
  | budget + 1, s, m => s.step (Expr.eval setup budget) (Stmt.exec setup budget) budget m

end

-- ======================================================== programs

namespace Program

/-- Whether the value of a statement is a result. -/
def isResult : Stmt → Bool
  | .expr _ _ => true
  | _ => false

/-- Executes the statements of a program. The result is the value of the last
expression among them, or `last`. -/
def results (exec : Stmt → Run Flow) : List Stmt → Value → Run Value
  | [], last => pure last
  | s :: rest, last => do
      match ← exec s with
      | .normal v => results exec rest (if isResult s then v else last)
      | .return_ _ => Run.fault (.uncaught .return_) s.pos
      | .break_ => Run.fault (.uncaught .break_) s.pos
      | .continue_ => Run.fault (.uncaught .continue_) s.pos

/-- Runs a program in the outermost frame. -/
def run (setup : Setup) (budget : Nat) (program : Program) : Run Value := fun m =>
  results (Stmt.exec setup budget) program .nil { m with scope := Machine.root, depth := 0 }

end Program

end Scriptlet
