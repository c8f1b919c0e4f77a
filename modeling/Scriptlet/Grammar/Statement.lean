/-
Reading statements. Most begin with a keyword of their own; all others are an
expression, which an assignment operator may follow. A statement ends at a line
end or a semicolon, or just before a keyword that closes a block.

The parsers of expressions and nested statements are parameters.
-/
import Scriptlet.Grammar.Parser
import Scriptlet.Grammar.Power

namespace Scriptlet.Parser

/-- Refuses what cannot be assigned to: only a name with any number of index
steps can. -/
def checkTarget : Expr → Except ParseError Unit
  | .name _ _ => .ok ()
  | .index _ collection _ => checkTarget collection
  | e => .error ⟨.assignmentTarget, .expression e.form, e.pos⟩

/-- Reads a `let` behind its keyword. -/
def letStatement (stop : Position) (expression : Parser Expr) (pos : Position) : Parser Stmt :=
  fun tokens => do
    let (name, tokens) ← expect stop .name .variableName tokens
    let (_, tokens) ← expect stop (.symbol .assign) (.symbol .assign) tokens
    let (value, tokens) ← expression tokens
    return (.let_ pos name.lexeme value, tokens)

/-- Reads a `change … to` behind its keyword. -/
def changeStatement (stop : Position) (expression : Parser Expr) (pos : Position) : Parser Stmt :=
  fun tokens => do
    let (target, tokens) ← expression tokens
    checkTarget target
    let (_, tokens) ← expectKeyword stop .to_ tokens
    let (value, tokens) ← expression tokens
    return (.assign pos target none value, tokens)

/-- Reads one arm of an `if` behind its keyword at `pos`. An arm that follows
becomes the only statement of the other branch; all arms share the last one's
end. -/
def ifArm (stop : Position) (expression : Parser Expr) (statement : Parser Stmt) :
    Nat → Position → Parser Stmt
  | 0, _, tokens => .error (unexpected stop .expression tokens)
  | rounds + 1, pos, tokens => do
      let (condition, tokens) ← expression tokens
      let tokens := if nextIs (.keyword .then_) tokens then tokens.tail else tokens
      let (yes, tokens) ← block stop statement [.elif, .else_, .end_] rounds tokens
      match tokens with
      | ⟨.keyword .elif, _, next⟩ :: tokens
      | ⟨.keyword .else_, _, _⟩ :: ⟨.keyword .if_, _, next⟩ :: tokens =>
          let (arm, tokens) ← ifArm stop expression statement rounds next tokens
          return (.if_ pos condition yes (some [arm]), tokens)
      | ⟨.keyword .else_, _, _⟩ :: tokens =>
          let (no, tokens) ← block stop statement [.end_] rounds tokens
          return (.if_ pos condition yes (some no), tokens)
      | tokens => return (.if_ pos condition yes none, tokens)

/-- Reads an `if` behind its keyword, with the `end` of its arms. -/
def ifStatement (stop : Position) (expression : Parser Expr) (statement : Parser Stmt)
    (rounds : Nat) (pos : Position) : Parser Stmt := fun tokens => do
  let (arms, tokens) ← ifArm stop expression statement rounds pos tokens
  let (_, tokens) ← expectKeyword stop .end_ tokens
  return (arms, tokens)

/-- Reads a `while` behind its keyword. -/
def whileStatement (stop : Position) (expression : Parser Expr) (statement : Parser Stmt)
    (rounds : Nat) (pos : Position) : Parser Stmt := fun tokens => do
  let (condition, tokens) ← expression tokens
  let (body, tokens) ← closedBlock stop statement rounds tokens
  return (.while_ pos condition body, tokens)

/-- Reads a `for` behind its keyword. -/
def forStatement (stop : Position) (expression : Parser Expr) (statement : Parser Stmt)
    (rounds : Nat) (pos : Position) : Parser Stmt := fun tokens => do
  let (name, tokens) ← expect stop .name .loopVariable tokens
  let (_, tokens) ← expectKeyword stop .in_ tokens
  let (iterable, tokens) ← expression tokens
  let (body, tokens) ← closedBlock stop statement rounds tokens
  return (.for_ pos name.lexeme iterable body, tokens)

/-- Reads a function declaration behind its keyword. `defi` declares only
functions with `=>`. -/
def functionStatement (stop : Position) (expression : Parser Expr) (statement : Parser Stmt)
    (rounds : Nat) (keyword : Keyword) (pos : Position) : Parser Stmt := fun tokens => do
  let (name, tokens) ← expect stop .name .functionName tokens
  let (params, tokens) ← parameterList stop rounds tokens
  if keyword = .defi && !nextIs (.symbol .fatArrow) tokens then
    throw (unexpected stop .arrowAfterDefi tokens)
  let (body, tokens) ← functionBody stop expression statement rounds tokens
  return (.function pos ⟨some name.lexeme, params, body, pos⟩, tokens)

/-- Reads a `return` behind its keyword. -/
def returnStatement (expression : Parser Expr) (pos : Position) : Parser Stmt := fun tokens =>
  if atStatementEnd tokens then .ok (.return_ pos none, tokens)
  else do
    let (value, tokens) ← expression tokens
    return (.return_ pos (some value), tokens)

/-- Reads an expression, or an assignment to one. -/
def expressionStatement (expression : Parser Expr) : Parser Stmt := fun tokens => do
  let (e, tokens) ← expression tokens
  match tokens with
  | [] => return (.expr e.pos e, [])
  | t :: rest =>
      match assignmentOf? t.kind with
      | none => return (.expr e.pos e, t :: rest)
      | some op =>
          checkTarget e
          let (value, rest) ← expression rest
          return (.assign e.pos e op value, rest)

/-- Reads a statement without what ends it. -/
def openStatement (stop : Position) (expression : Parser Expr) (statement : Parser Stmt)
    (rounds : Nat) : Parser Stmt
  | [] => expressionStatement expression []
  | t :: rest =>
      match t.kind with
      | .keyword .let_ => letStatement stop expression t.pos rest
      | .keyword .change => changeStatement stop expression t.pos rest
      | .keyword .if_ => ifStatement stop expression statement rounds t.pos rest
      | .keyword .while_ => whileStatement stop expression statement rounds t.pos rest
      | .keyword .for_ => forStatement stop expression statement rounds t.pos rest
      | .keyword .return_ => returnStatement expression t.pos rest
      | .keyword .break_ => .ok (.break_ t.pos, rest)
      | .keyword .continue_ => .ok (.continue_ t.pos, rest)
      | .keyword k =>
          if (k = .function || k = .def_ || k = .defi) && nextIs .name rest then
            functionStatement stop expression statement rounds k t.pos rest
          else expressionStatement expression (t :: rest)
      | _ => expressionStatement expression (t :: rest)

/-- Reads what ends a statement. -/
def statementEnd (stop : Position) (tokens : List Token) : Except ParseError (List Token) :=
  if nextIs .newline tokens || nextIs (.symbol .semicolon) tokens then .ok tokens.tail
  else if atStatementEnd tokens then .ok tokens
  else .error (unexpected stop .endOfStatement tokens)

/-- Reads a statement with what ends it. -/
def endedStatement (stop : Position) (expression : Parser Expr) (statement : Parser Stmt)
    (rounds : Nat) : Parser Stmt := fun tokens => do
  let (s, tokens) ← openStatement stop expression statement rounds tokens
  let tokens ← statementEnd stop tokens
  return (s, tokens)

end Scriptlet.Parser
