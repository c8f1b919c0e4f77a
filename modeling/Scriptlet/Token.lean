/-
Tokens: what a source text is made of. A token has a kind, a lexeme and the
position of its first character. The lexeme is the text it was read from,
except that a string's lexeme is its contents with the escapes resolved.

Line ends and changes of indentation are tokens too. They carry no text of
their own, and the grammar reads only the line ends.
-/
import Scriptlet.Position
import Scriptlet.Text.Quoted

namespace Scriptlet

-- ======================================================== keywords

/-- The reserved words. -/
inductive Keyword where
  | let_ | change | to_ | if_ | then_ | elif | else_ | for_ | in_ | while_
  | function | def_ | defi | return_ | break_ | continue_ | end_
  | true_ | false_ | nil | and_ | or_ | not_
  deriving DecidableEq, Repr

namespace Keyword

/-- How a keyword is spelled. -/
def text : Keyword → String
  | let_ => "let"
  | change => "change"
  | to_ => "to"
  | if_ => "if"
  | then_ => "then"
  | elif => "elif"
  | else_ => "else"
  | for_ => "for"
  | in_ => "in"
  | while_ => "while"
  | function => "function"
  | def_ => "def"
  | defi => "defi"
  | return_ => "return"
  | break_ => "break"
  | continue_ => "continue"
  | end_ => "end"
  | true_ => "true"
  | false_ => "false"
  | nil => "nil"
  | and_ => "and"
  | or_ => "or"
  | not_ => "not"

/-- All keywords, each once. -/
def all : List Keyword :=
  [let_, change, to_, if_, then_, elif, else_, for_, in_, while_, function, def_, defi, return_,
    break_, continue_, end_, true_, false_, nil, and_, or_, not_]

/-- The keyword that a word spells, if any. -/
def ofText? (word : String) : Option Keyword := all.find? fun k => k.text == word

theorem mem_all (k : Keyword) : k ∈ all := by cases k <;> decide

end Keyword

-- ========================================================= symbols

/-- Operators and punctuation. -/
inductive Symbol where
  | leftParen | rightParen | leftBrace | rightBrace | leftBracket | rightBracket
  | comma | dot | colon | semicolon | fatArrow
  | assign | plusAssign | minusAssign | starAssign | slashAssign
  | plus | minus | star | starStar | slash | percent
  | ampersands | pipes | bang | bangEqual | equalEqual
  | less | lessEqual | greater | greaterEqual
  deriving DecidableEq, Repr

namespace Symbol

/-- How a symbol is spelled. -/
def text : Symbol → String
  | leftParen => "("
  | rightParen => ")"
  | leftBrace => "\x7b"
  | rightBrace => "\x7d"
  | leftBracket => "["
  | rightBracket => "]"
  | comma => ","
  | dot => "."
  | colon => ":"
  | semicolon => ";"
  | fatArrow => "=>"
  | assign => "="
  | plusAssign => "+="
  | minusAssign => "-="
  | starAssign => "*="
  | slashAssign => "/="
  | plus => "+"
  | minus => "-"
  | star => "*"
  | starStar => "**"
  | slash => "/"
  | percent => "%"
  | ampersands => "&&"
  | pipes => "||"
  | bang => "!"
  | bangEqual => "!="
  | equalEqual => "=="
  | less => "<"
  | lessEqual => "<="
  | greater => ">"
  | greaterEqual => ">="

end Symbol

-- ========================================================== tokens

/-- The kinds of token. -/
inductive Token.Kind where
  | name
  | number
  | string
  | keyword (k : Keyword)
  | symbol (s : Symbol)
  | newline
  | indent
  | dedent
  | eof
  deriving DecidableEq, Repr

/-- `text` between backquotes, as messages show pieces of source. -/
def backquoted (text : String) : String := "`" ++ text ++ "`"

/-- What messages call a kind of token. -/
def Token.Kind.text : Token.Kind → String
  | .name => "identifier"
  | .number => "number"
  | .string => "string"
  | .keyword k => backquoted k.text
  | .symbol s => backquoted s.text
  | .newline => "newline"
  | .indent => "indent"
  | .dedent => "dedent"
  | .eof => "end of input"

/-- Whether a kind only marks a change of indentation. -/
def Token.Kind.isIndentation : Token.Kind → Bool
  | .indent | .dedent => true
  | _ => false

/-- A piece of source text with its place. -/
structure Token where
  kind : Token.Kind
  lexeme : String
  pos : Position
  deriving DecidableEq, Repr

/-- How an error message describes a token that it did not expect. -/
def Token.describe (t : Token) : String :=
  match t.kind with
  | .name => "identifier " ++ backquoted t.lexeme
  | .number => "number " ++ backquoted t.lexeme
  | .string => "string " ++ Text.quoted t.lexeme
  | kind => kind.text

end Scriptlet
