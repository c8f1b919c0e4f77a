/-
Parsers over tokens. A parser reads some tokens from the front and returns what
they mean together with the tokens it left, or the error that stopped it. The
end of the input is the end of the list, or an end mark before it, which nobody
reads; `stop` is the position that errors at the end of the list report.

A loop over tokens counts its rounds down from a budget, because the parser of
a single item is a parameter and what it reads is not known here. Every item
takes at least one token, so a budget above the number of tokens is never used
up.
-/
import Scriptlet.Grammar.Error

namespace Scriptlet

/-- Reads a meaning from the front of the tokens and returns the rest. -/
abbrev Parser (α : Type) := List Token → Except ParseError (α × List Token)

namespace Parser

/-- The error that `expected` does not stand at the front of the tokens. -/
def unexpected (stop : Position) (expected : Expected) : List Token → ParseError
  | [] => ⟨expected, .endOfInput, stop⟩
  | t :: _ => ⟨expected, .token t, t.pos⟩

/-- Reads one token of the given kind. -/
def expect (stop : Position) (kind : Token.Kind) (expected : Expected) : Parser Token
  | [] => .error (unexpected stop expected [])
  | t :: rest => if t.kind = kind then .ok (t, rest) else .error (unexpected stop expected (t :: rest))

/-- Reads one keyword. -/
def expectKeyword (stop : Position) (k : Keyword) : Parser Token :=
  expect stop (.keyword k) (.keyword k)

/-- Whether the next token is of the given kind. -/
def nextIs (kind : Token.Kind) : List Token → Bool
  | [] => false
  | t :: _ => t.kind = kind

/-- Passes over line ends. -/
def skipNewlines (tokens : List Token) : List Token :=
  tokens.dropWhile fun t => t.kind = .newline

/-- Passes over line ends and semicolons. -/
def skipSeparators (tokens : List Token) : List Token :=
  tokens.dropWhile fun t => t.kind = .newline || t.kind = .symbol .semicolon

/-- Whether a statement may end before the next token. -/
def atStatementEnd : List Token → Bool
  | [] => true
  | t :: _ =>
      match t.kind with
      | .newline | .symbol .semicolon | .eof => true
      | .keyword .end_ | .keyword .else_ | .keyword .elif => true
      | _ => false

/-- Whether a block that the keywords `stops` close ends before the next
token. -/
def atBlockEnd (stops : List Keyword) : List Token → Bool
  | [] => true
  | t :: _ =>
      match t.kind with
      | .eof => true
      | .keyword k => stops.contains k
      | _ => false

-- ===================================================== item lists

/-- Reads items with commas between them up to `close`, which is read too. Line
ends count for nothing here, and a comma may stand behind the last item. -/
def commaList {α : Type} (stop : Position) (item : Parser α) (close : Symbol) :
    Nat → Parser (List α)
  | 0, tokens => .error (unexpected stop .expression tokens)
  | rounds + 1, tokens =>
      let tokens := skipNewlines tokens
      if nextIs (.symbol close) tokens then .ok ([], tokens.tail)
      else do
        let (first, tokens) ← item tokens
        let tokens := skipNewlines tokens
        if nextIs (.symbol .comma) tokens then
          let (rest, tokens) ← commaList stop item close rounds tokens.tail
          return (first :: rest, tokens)
        else
          let (_, tokens) ← expect stop (.symbol close) (.symbol close) tokens
          return ([first], tokens)

/-- Reads the parameters behind an opening parenthesis, where `seen` are the
names before them. No name may come twice. -/
def parameters (stop : Position) : Nat → List String → Parser (List Param)
  | 0, _, tokens => .error (unexpected stop .parameterName tokens)
  | rounds + 1, seen, tokens =>
      let tokens := skipNewlines tokens
      if nextIs (.symbol .rightParen) tokens then .ok ([], tokens.tail)
      else do
        let (name, tokens) ← expect stop .name .parameterName tokens
        if seen.contains name.lexeme then
          throw ⟨.distinctParameters, .duplicateParameter name.lexeme, name.pos⟩
        let param : Param := ⟨name.lexeme, name.pos⟩
        let tokens := skipNewlines tokens
        if nextIs (.symbol .comma) tokens then
          let (rest, tokens) ← parameters stop rounds (name.lexeme :: seen) tokens.tail
          return (param :: rest, tokens)
        else
          let (_, tokens) ← expect stop (.symbol .rightParen) .closeParameters tokens
          return ([param], tokens)

/-- Reads a parameter list in parentheses. -/
def parameterList (stop : Position) (rounds : Nat) : Parser (List Param) := fun tokens => do
  let (_, tokens) ← expect stop (.symbol .leftParen) .openParameters tokens
  parameters stop rounds [] tokens

/-- Reads statements up to a keyword of `stops`, which is left, or to the end of
the input. -/
def block (stop : Position) (statement : Parser Stmt) (stops : List Keyword) :
    Nat → Parser (List Stmt)
  | 0, tokens => .error (unexpected stop .expression tokens)
  | rounds + 1, tokens =>
      let tokens := skipSeparators tokens
      if atBlockEnd stops tokens then .ok ([], tokens)
      else do
        let (first, tokens) ← statement tokens
        let (rest, tokens) ← block stop statement stops rounds tokens
        return (first :: rest, tokens)

/-- Reads a block and the `end` that closes it. -/
def closedBlock (stop : Position) (statement : Parser Stmt) (rounds : Nat) :
    Parser (List Stmt) := fun tokens => do
  let (body, tokens) ← block stop statement [.end_] rounds tokens
  let (_, tokens) ← expectKeyword stop .end_ tokens
  return (body, tokens)

/-- Reads a function's body: `=>` and the expression it returns, or a block. -/
def functionBody (stop : Position) (expression : Parser Expr) (statement : Parser Stmt)
    (rounds : Nat) : Parser (List Stmt) := fun tokens =>
  if nextIs (.symbol .fatArrow) tokens then do
    let (value, tokens) ← expression tokens.tail
    return ([.return_ value.pos (some value)], tokens)
  else closedBlock stop statement rounds tokens

end Parser

end Scriptlet
