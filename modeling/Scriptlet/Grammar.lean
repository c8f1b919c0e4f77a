/-
The grammar as a whole: from tokens to a program. Expressions and statements
hold each other through function literals, so their parsers are defined
together, by recursion on the depth they may still go. Every level of nesting
takes a token, and a statement may begin with an expression, so twice the
number of tokens is depth enough.

Indentation marks are dropped before reading, and nothing behind the first end
mark is looked at.
-/
import Scriptlet.Grammar.Expression
import Scriptlet.Grammar.Statement

namespace Scriptlet

namespace Parser

mutual

/-- Reads an expression whose operators hold with at least the power
`demand`. -/
def expression (stop : Position) : Nat → Nat → Parser Expr
  | 0, _, tokens => .error (unexpected stop .expression tokens)
  | depth + 1, demand, tokens => do
      let (left, tokens) ←
        operand stop (expression stop depth) (statement stop depth) depth tokens
      climb stop (expression stop depth) demand depth left tokens

/-- Reads a statement with what ends it. -/
def statement (stop : Position) : Nat → Parser Stmt
  | 0, tokens => .error (unexpected stop .expression tokens)
  | depth + 1, tokens =>
      endedStatement stop (expression stop depth 0) (statement stop depth) depth tokens

end

/-- How deep reading can go over so many tokens. -/
def depthFor (tokens : List Token) : Nat := 2 * tokens.length + 2

/-- Reads a whole program, where `stop` is the position of the end. -/
def program (stop : Position) (tokens : List Token) : Except ParseError Program := do
  let depth := depthFor tokens
  let (statements, _) ← block stop (statement stop depth) [] depth tokens
  return statements

end Parser

/-- Where the input ends: at the first end mark, else at the last token, else
at the start. -/
def endPosition (tokens : List Token) : Position :=
  match tokens.find? fun t => t.kind = .eof with
  | some t => t.pos
  | none => (tokens.getLast?.map (·.pos)).getD .start

/-- The program that tokens spell. -/
def Program.ofTokens (tokens : List Token) : Except ParseError Program :=
  let marks := tokens.filter fun t => !t.kind.isIndentation
  Parser.program (endPosition marks) (marks.takeWhile fun t => t.kind ≠ .eof)

end Scriptlet
