/-
Reading expressions. An operand is a literal, a name, something in brackets or a
function, with any number of calls, index steps and members behind it, or an
operator in front of another operand. Operands are joined by climbing: after an
operand, operators are taken as long as they hold it at least as strongly as
the caller demands, and each reads its right side with its own demand.

The parsers of nested expressions and statements are parameters. `expression`
takes the power that the caller demands.
-/
import Scriptlet.Grammar.Parser
import Scriptlet.Grammar.Power
import Scriptlet.Number.Text

namespace Scriptlet.Parser

/-- Reads one entry of a map. -/
def entry (stop : Position) (expression : Parser Expr) : Parser (Expr × Expr) := fun tokens => do
  let (key, tokens) ← expression tokens
  let (_, tokens) ← expect stop (.symbol .colon) .colonAfterKey (skipNewlines tokens)
  let (value, tokens) ← expression (skipNewlines tokens)
  return ((key, value), tokens)

/-- Reads an expression and the parenthesis that closes it. -/
def parenthesized (stop : Position) (expression : Parser Expr) : Parser Expr := fun tokens => do
  let (inner, tokens) ← expression (skipNewlines tokens)
  let (_, tokens) ← expect stop (.symbol .rightParen) (.symbol .rightParen) (skipNewlines tokens)
  return (inner, tokens)

/-- Reads a function literal behind its keyword at `pos`. -/
def functionLiteral (stop : Position) (expression : Parser Expr) (statement : Parser Stmt)
    (rounds : Nat) (pos : Position) : Parser Expr := fun tokens => do
  let (params, tokens) ← parameterList stop rounds tokens
  let (body, tokens) ← functionBody stop expression statement rounds tokens
  return (.function pos ⟨none, params, body, pos⟩, tokens)

/-- Reads an operand without what may stand before or behind it. -/
def primary (stop : Position) (expression : Parser Expr) (statement : Parser Stmt)
    (rounds : Nat) : Parser Expr
  | [] => .error (unexpected stop .expression [])
  | t :: rest =>
      match t.kind with
      | .number =>
          match Number.ofText? t.lexeme with
          | some n => .ok (.literal t.pos (.number n), rest)
          | none => .error (unexpected stop .number (t :: rest))
      | .string => .ok (.literal t.pos (.string t.lexeme), rest)
      | .keyword .true_ => .ok (.literal t.pos (.bool true), rest)
      | .keyword .false_ => .ok (.literal t.pos (.bool false), rest)
      | .keyword .nil => .ok (.literal t.pos .nil, rest)
      | .name => .ok (.name t.pos t.lexeme, rest)
      | .symbol .leftParen => parenthesized stop expression rest
      | .symbol .leftBracket => do
          let (items, rest) ← commaList stop expression .rightBracket rounds rest
          return (.list t.pos items, rest)
      | .symbol .leftBrace => do
          let (entries, rest) ← commaList stop (entry stop expression) .rightBrace rounds rest
          return (.map t.pos entries, rest)
      | .keyword .function | .keyword .def_ =>
          functionLiteral stop expression statement rounds t.pos rest
      | _ => .error (unexpected stop .expression (t :: rest))

/-- Reads one call, index step or member behind `e`, if there is one. -/
def suffix? (stop : Position) (expression : Parser Expr) (rounds : Nat) (e : Expr) :
    List Token → Option (Except ParseError (Expr × List Token))
  | [] => none
  | t :: rest =>
      match t.kind with
      | .symbol .leftParen => some do
          let (args, rest) ← commaList stop expression .rightParen rounds rest
          return (.call t.pos e args, rest)
      | .symbol .leftBracket => some do
          let (key, rest) ← expression (skipNewlines rest)
          let (_, rest) ← expect stop (.symbol .rightBracket) .closeIndex (skipNewlines rest)
          return (.index t.pos e key, rest)
      | .symbol .dot => some do
          let (member, rest) ← expect stop .name .memberName rest
          return (.index t.pos e (.literal member.pos (.string member.lexeme)), rest)
      | _ => none

/-- Reads all calls, index steps and members behind `e`. -/
def suffixes (stop : Position) (expression : Parser Expr) : Nat → Expr → Parser Expr
  | 0, _, tokens => .error (unexpected stop .expression tokens)
  | rounds + 1, e, tokens =>
      match suffix? stop expression rounds e tokens with
      | none => .ok (e, tokens)
      | some (.error error) => .error error
      | some (.ok (e, tokens)) => suffixes stop expression rounds e tokens

/-- Reads an operand with what stands before or behind it. -/
def operand (stop : Position) (expression : Nat → Parser Expr) (statement : Parser Stmt)
    (rounds : Nat) : Parser Expr := fun tokens =>
  match tokens with
  | [] => .error (unexpected stop .expression [])
  | t :: rest =>
      match unaryOf? t.kind with
      | some op => do
          let (e, rest) ← expression unaryPower rest
          return (.unary t.pos op e, rest)
      | none => do
          let (e, rest) ← primary stop (expression 0) statement rounds (t :: rest)
          suffixes stop (expression 0) rounds e rest

/-- Joins `left` with what follows, as long as the operators hold it with at
least the power `demand`. -/
def climb (stop : Position) (expression : Nat → Parser Expr) (demand : Nat) :
    Nat → Expr → Parser Expr
  | 0, _, tokens => .error (unexpected stop .expression tokens)
  | _ + 1, left, [] => .ok (left, [])
  | rounds + 1, left, t :: rest =>
      match Power.of? t.kind with
      | none => .ok (left, t :: rest)
      | some power =>
          if power.left < demand then .ok (left, t :: rest)
          else do
            let (right, rest) ← expression power.right rest
            climb stop expression demand rounds (power.joint.join t.pos left right) rest

end Scriptlet.Parser
