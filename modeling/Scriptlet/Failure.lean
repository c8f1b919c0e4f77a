/-
What evaluating a source text can fail with: it cannot be cut into tokens, the
tokens make no program, or the program meets a fault. Every failure has a kind,
a wording and a place, and from them a report.
-/
import Scriptlet.Token.Lexeme
import Scriptlet.Grammar.Error
import Scriptlet.Fault
import Scriptlet.Diagnostic

namespace Scriptlet

/-- Why a source text has no value. -/
inductive Failure where
  | lex (error : LexError)
  | parse (error : ParseError)
  | fault (fault : Fault)
  deriving DecidableEq, Repr

namespace Failure

/-- Where a failure comes from. -/
def kind : Failure → Diagnostic.Kind
  | lex _ => .lex
  | parse _ => .parse
  | fault f => .runtime f.cause.kind

/-- The wording of a failure. -/
def message : Failure → String
  | lex e => e.cause.message
  | parse e => e.message
  | fault f => f.cause.message

/-- The place of a failure. -/
def pos : Failure → Position
  | lex e => e.pos
  | parse e => e.pos
  | fault f => f.pos

/-- A failure in one line. -/
def text : Failure → String
  | lex e => e.cause.message ++ " at " ++ e.pos.text
  | parse e => e.message ++ " at " ++ e.pos.text
  | fault f => f.cause.text ++ " at " ++ f.pos.text

/-- The report of a failure. -/
def diagnostic (f : Failure) : Diagnostic :=
  { kind := f.kind, message := f.message, pos := some f.pos }

/-- Whether more input could mend a failure: the text ended inside a string, or
where the grammar expected more. -/
def isIncomplete : Failure → Bool
  | lex e => e.cause = .unterminatedString
  | parse e => e.found = .endOfInput
  | fault _ => false

end Failure

/-- The report of a cause that has no place. -/
def Cause.diagnostic (c : Cause) : Diagnostic :=
  { kind := .runtime c.kind, message := c.message, pos := none }

end Scriptlet
