/-
What a source is refused for. The grammar reports the first place where it
cannot go on: what it expected there and what it found instead.
-/
import Scriptlet.Token
import Scriptlet.Tree

namespace Scriptlet

/-- What the grammar expected. -/
inductive Expected where
  | symbol (s : Symbol)
  | keyword (k : Keyword)
  | expression
  | number
  | endOfStatement
  | variableName
  | loopVariable
  | functionName
  | memberName
  | parameterName
  | openParameters
  | closeParameters
  | distinctParameters
  | arrowAfterDefi
  | closeIndex
  | colonAfterKey
  | assignmentTarget
  deriving DecidableEq, Repr

/-- The wording of an expectation. -/
def Expected.text : Expected → String
  | symbol s => backquoted s.text
  | keyword k => backquoted k.text
  | expression => "expression"
  | number => "number"
  | endOfStatement => "end of statement"
  | variableName => "variable name after `let`"
  | loopVariable => "loop variable"
  | functionName => "function name"
  | memberName => "member name after `.`"
  | parameterName => "parameter name"
  | openParameters => "`(` before parameters"
  | closeParameters => "`)` after parameters"
  | distinctParameters => "distinct parameter names"
  | arrowAfterDefi => "`=>` after `defi` parameters"
  | closeIndex => "`]` after index"
  | colonAfterKey => "`:` after map key"
  | assignmentTarget => "assignment target"

/-- What the grammar found instead. -/
inductive Found where
  | token (t : Token)
  | endOfInput
  | duplicateParameter (name : String)
  | expression (form : Expr.Form)
  deriving DecidableEq, Repr

/-- The wording of a find. -/
def Found.text : Found → String
  | token t => t.describe
  | endOfInput => Token.Kind.eof.text
  | duplicateParameter name => "duplicate parameter " ++ backquoted name
  | expression form => form.text

/-- The first place where the tokens make no program. -/
structure ParseError where
  expected : Expected
  found : Found
  pos : Position
  deriving DecidableEq, Repr

/-- The wording of a parse error. -/
def ParseError.message (e : ParseError) : String :=
  "expected " ++ e.expected.text ++ ", found " ++ e.found.text

end Scriptlet
