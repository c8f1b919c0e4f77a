/-
The ways to write a program down as tokens. A tree can be written in many ways:
with more parentheses than it needs, with `&&` or `and`, with a block or an
arrow, with an item in brackets or as a member, with line ends wherever brackets
are open. The relations here say which they are, form by form; they say nothing
about how tokens are read.

# What is left open

The positions of the tree are not written, so they are free. Tokens are told by
their kinds; the lexemes of keywords and symbols are free as well. A number is
written by any lexeme that reads as that number.

# What must be in parentheses

An operand of an operator is a literal, a name, a list or a map, possibly with
calls, index steps and members behind it; anything else stands in parentheses.

# What cannot be written

Blocks by themselves, unnamed declarations, named literals, parameters that come
twice and targets that are no places have no rule here.
-/
import Scriptlet.Grammar

namespace Scriptlet

-- ============================================================ gaps

/-- Line ends. -/
def Breaks (tokens : List Token) : Prop := ∀ t ∈ tokens, t.kind = .newline

/-- What separates statements: a line end or a semicolon. -/
def Token.IsSeparator (t : Token) : Prop := t.kind = .newline ∨ t.kind = .symbol .semicolon

/-- Line ends and semicolons. -/
def Gap (tokens : List Token) : Prop := ∀ t ∈ tokens, t.IsSeparator

/-- Items with commas between them. A comma may follow the last one, and line
ends may stand around everything. -/
inductive Listed {α : Type} (R : α → List Token → Prop) : List α → List Token → Prop where
  | none {breaks : List Token} (gap : Breaks breaks) : Listed R [] breaks
  | last {x : α} {before tokens behind : List Token} (gap : Breaks before) (item : R x tokens)
      (gap' : Breaks behind) : Listed R [x] (before ++ (tokens ++ behind))
  | more {x : α} {rest : List α} {before tokens behind others : List Token} {t : Token}
      (gap : Breaks before) (item : R x tokens) (gap' : Breaks behind)
      (comma : t.kind = .symbol .comma) (parts : Listed R rest others) :
      Listed R (x :: rest) (before ++ (tokens ++ (behind ++ t :: others)))

-- ========================================================== leaves

/-- A literal, as one token. -/
inductive Literal.Written : Literal → Token → Prop where
  | number {n : Float} {t : Token} (kind : t.kind = .number)
      (reads : Number.ofText? t.lexeme = some n) : Written (.number n) t
  | string {t : Token} (kind : t.kind = .string) : Written (.string t.lexeme) t
  | true_ {t : Token} (kind : t.kind = .keyword .true_) : Written (.bool true) t
  | false_ {t : Token} (kind : t.kind = .keyword .false_) : Written (.bool false) t
  | nil {t : Token} (kind : t.kind = .keyword .nil) : Written .nil t

/-- A parameter. -/
inductive Param.Written : Param → List Token → Prop where
  | mk {pos : Position} {t : Token} (kind : t.kind = .name) : Written ⟨t.lexeme, pos⟩ [t]

/-- Parameters in parentheses. No name may come twice. -/
structure Param.ListWritten (params : List Param) (t : Token) (tokens : List Token)
    (close : Token) : Prop where
  opens : t.kind = .symbol .leftParen
  parts : Listed Param.Written params tokens
  closes : close.kind = .symbol .rightParen
  distinct : (params.map Param.name).Nodup

/-- What can be assigned to: a name with any number of index steps. -/
def Expr.IsPlace : Expr → Bool
  | .name _ _ => true
  | .index _ collection _ => collection.IsPlace
  | _ => false

-- =========================================================== trees

mutual

/-- An expression that an operator can take for its operand. -/
inductive Expr.Operand : Expr → List Token → Prop where
  | literal {pos : Position} {value : Literal} {t : Token} (leaf : value.Written t) :
      Expr.Operand (.literal pos value) [t]
  | name {pos : Position} {t : Token} (kind : t.kind = .name) :
      Expr.Operand (.name pos t.lexeme) [t]
  | list {pos : Position} {items : List Expr} {t close : Token} {tokens : List Token}
      (opens : t.kind = .symbol .leftBracket) (parts : Listed Expr.Written items tokens)
      (closes : close.kind = .symbol .rightBracket) :
      Expr.Operand (.list pos items) (t :: (tokens ++ [close]))
  | map {pos : Position} {entries : List (Expr × Expr)} {t close : Token} {tokens : List Token}
      (opens : t.kind = .symbol .leftBrace) (parts : Listed Expr.Field entries tokens)
      (closes : close.kind = .symbol .rightBrace) :
      Expr.Operand (.map pos entries) (t :: (tokens ++ [close]))
  | parens {e : Expr} {t close : Token} {before tokens behind : List Token}
      (opens : t.kind = .symbol .leftParen) (gap : Breaks before) (inner : Expr.Written e tokens)
      (gap' : Breaks behind) (closes : close.kind = .symbol .rightParen) :
      Expr.Operand e (t :: (before ++ (tokens ++ (behind ++ [close]))))
  | call {pos : Position} {callee : Expr} {args : List Expr} {front tokens : List Token}
      {t close : Token} (head : Expr.Operand callee front) (opens : t.kind = .symbol .leftParen)
      (parts : Listed Expr.Written args tokens) (closes : close.kind = .symbol .rightParen) :
      Expr.Operand (.call pos callee args) (front ++ t :: (tokens ++ [close]))
  | index {pos : Position} {collection key : Expr} {t close : Token}
      {front before tokens behind : List Token} (head : Expr.Operand collection front)
      (opens : t.kind = .symbol .leftBracket) (gap : Breaks before)
      (inner : Expr.Written key tokens) (gap' : Breaks behind)
      (closes : close.kind = .symbol .rightBracket) :
      Expr.Operand (.index pos collection key)
        (front ++ t :: (before ++ (tokens ++ (behind ++ [close]))))
  | member {pos keyPos : Position} {collection : Expr} {front : List Token} {t name : Token}
      (head : Expr.Operand collection front) (dot : t.kind = .symbol .dot)
      (kind : name.kind = .name) :
      Expr.Operand (.index pos collection (.literal keyPos (.string name.lexeme)))
        (front ++ [t, name])

/-- An expression. -/
inductive Expr.Written : Expr → List Token → Prop where
  | operand {e : Expr} {tokens : List Token} (inner : Expr.Operand e tokens) : Expr.Written e tokens
  | unary {pos : Position} {op : UnaryOp} {e : Expr} {t : Token} {tokens : List Token}
      (sign : unaryOf? t.kind = some op) (inner : Expr.Operand e tokens) :
      Expr.Written (.unary pos op e) (t :: tokens)
  | binary {pos : Position} {op : BinaryOp} {left right : Expr} {front behind : List Token}
      {t : Token} {power : Power} (head : Expr.Operand left front)
      (sign : Power.of? t.kind = some power) (joint : power.joint = .binary op)
      (tail : Expr.Operand right behind) :
      Expr.Written (.binary pos op left right) (front ++ t :: behind)
  | logical {pos : Position} {op : LogicalOp} {left right : Expr} {front behind : List Token}
      {t : Token} {power : Power} (head : Expr.Operand left front)
      (sign : Power.of? t.kind = some power) (joint : power.joint = .logical op)
      (tail : Expr.Operand right behind) :
      Expr.Written (.logical pos op left right) (front ++ t :: behind)
  | function {pos codePos : Position} {params : List Param} {body : List Stmt}
      {t opening closing : Token} {names tokens : List Token}
      (word : t.kind = .keyword .function ∨ t.kind = .keyword .def_)
      (parts : Param.ListWritten params opening names closing) (inner : Expr.Body body tokens) :
      Expr.Written (.function pos ⟨none, params, body, codePos⟩)
        (t :: opening :: (names ++ closing :: tokens))

/-- An entry of a map. -/
inductive Expr.Field : Expr × Expr → List Token → Prop where
  | mk {key value : Expr} {front before behind tokens : List Token} {t : Token}
      (head : Expr.Written key front) (gap : Breaks before) (colon : t.kind = .symbol .colon)
      (gap' : Breaks behind) (tail : Expr.Written value tokens) :
      Expr.Field (key, value) (front ++ (before ++ t :: (behind ++ tokens)))

/-- The body of a function: what it returns behind an arrow, or a block. -/
inductive Expr.Body : List Stmt → List Token → Prop where
  | arrow {pos : Position} {value : Expr} {t : Token} {tokens : List Token}
      (opens : t.kind = .symbol .fatArrow) (inner : Expr.Written value tokens) :
      Expr.Body [.return_ pos (some value)] (t :: tokens)
  | block {body : List Stmt} {tokens : List Token} {t : Token} (inner : Stmt.Block body tokens)
      (closes : t.kind = .keyword .end_) : Expr.Body body (tokens ++ [t])

/-- A statement without what ends it. -/
inductive Stmt.Written : Stmt → List Token → Prop where
  | let_ {pos : Position} {value : Expr} {t name sign : Token} {tokens : List Token}
      (word : t.kind = .keyword .let_) (kind : name.kind = .name)
      (assigns : sign.kind = .symbol .assign) (inner : Expr.Written value tokens) :
      Stmt.Written (.let_ pos name.lexeme value) (t :: name :: sign :: tokens)
  | assign {pos : Position} {target value : Expr} {op : Option BinaryOp} {t : Token}
      {front tokens : List Token} (place : target.IsPlace = true) (head : Expr.Written target front)
      (sign : assignmentOf? t.kind = some op) (inner : Expr.Written value tokens) :
      Stmt.Written (.assign pos target op value) (front ++ t :: tokens)
  | change {pos : Position} {target value : Expr} {t to_ : Token} {front tokens : List Token}
      (word : t.kind = .keyword .change) (place : target.IsPlace = true)
      (head : Expr.Written target front) (sign : to_.kind = .keyword .to_)
      (inner : Expr.Written value tokens) :
      Stmt.Written (.assign pos target none value) (t :: (front ++ to_ :: tokens))
  | expr {pos : Position} {value : Expr} {tokens : List Token} (inner : Expr.Written value tokens) :
      Stmt.Written (.expr pos value) tokens
  | if_ {arms : Stmt} {t close : Token} {tokens : List Token} (word : t.kind = .keyword .if_)
      (inner : Stmt.Arm arms tokens) (closes : close.kind = .keyword .end_) :
      Stmt.Written arms (t :: (tokens ++ [close]))
  | while_ {pos : Position} {condition : Expr} {body : List Stmt} {t separator close : Token}
      {front tokens : List Token} (word : t.kind = .keyword .while_)
      (head : Expr.Written condition front) (separates : separator.IsSeparator)
      (inner : Stmt.Block body tokens) (closes : close.kind = .keyword .end_) :
      Stmt.Written (.while_ pos condition body) (t :: (front ++ separator :: (tokens ++ [close])))
  | for_ {pos : Position} {iterable : Expr} {body : List Stmt} {t name in_ separator close : Token}
      {front tokens : List Token} (word : t.kind = .keyword .for_) (kind : name.kind = .name)
      (word' : in_.kind = .keyword .in_) (head : Expr.Written iterable front)
      (separates : separator.IsSeparator) (inner : Stmt.Block body tokens)
      (closes : close.kind = .keyword .end_) :
      Stmt.Written (.for_ pos name.lexeme iterable body)
        (t :: name :: in_ :: (front ++ separator :: (tokens ++ [close])))
  | function {pos codePos : Position} {params : List Param} {body : List Stmt}
      {t name opening closing : Token} {names tokens : List Token}
      (word : t.kind = .keyword .function ∨ t.kind = .keyword .def_) (kind : name.kind = .name)
      (parts : Param.ListWritten params opening names closing) (inner : Expr.Body body tokens) :
      Stmt.Written (.function pos ⟨some name.lexeme, params, body, codePos⟩)
        (t :: name :: opening :: (names ++ closing :: tokens))
  | short {pos codePos valuePos : Position} {params : List Param} {value : Expr}
      {t name opening closing arrow : Token} {names tokens : List Token}
      (word : t.kind = .keyword .defi) (kind : name.kind = .name)
      (parts : Param.ListWritten params opening names closing)
      (opens : arrow.kind = .symbol .fatArrow) (inner : Expr.Written value tokens) :
      Stmt.Written (.function pos
          ⟨some name.lexeme, params, [.return_ valuePos (some value)], codePos⟩)
        (t :: name :: opening :: (names ++ closing :: arrow :: tokens))
  | returnNone {pos : Position} {t : Token} (word : t.kind = .keyword .return_) :
      Stmt.Written (.return_ pos none) [t]
  | returnSome {pos : Position} {value : Expr} {t : Token} {tokens : List Token}
      (word : t.kind = .keyword .return_) (inner : Expr.Written value tokens) :
      Stmt.Written (.return_ pos (some value)) (t :: tokens)
  | break_ {pos : Position} {t : Token} (word : t.kind = .keyword .break_) :
      Stmt.Written (.break_ pos) [t]
  | continue_ {pos : Position} {t : Token} (word : t.kind = .keyword .continue_) :
      Stmt.Written (.continue_ pos) [t]

/-- An `if` behind its keyword and before its `end`. An arm that follows is
written behind `elif` or `else if` and shares that `end`; behind a plain `else`
there is no `if` at once. -/
inductive Stmt.Arm : Stmt → List Token → Prop where
  | only {pos : Position} {condition : Expr} {yes : List Stmt} {t : Token}
      {front tokens : List Token} (head : Expr.Written condition front)
      (separates : t.kind = .keyword .then_ ∨ t.IsSeparator) (inner : Stmt.Block yes tokens) :
      Stmt.Arm (.if_ pos condition yes none) (front ++ t :: tokens)
  | else_ {pos : Position} {condition : Expr} {yes no : List Stmt} {t word : Token}
      {front tokens others : List Token} (head : Expr.Written condition front)
      (separates : t.kind = .keyword .then_ ∨ t.IsSeparator) (inner : Stmt.Block yes tokens)
      (kind : word.kind = .keyword .else_) (other : Stmt.Block no others)
      (notIf : Parser.nextIs (.keyword .if_) others = false) :
      Stmt.Arm (.if_ pos condition yes (some no)) (front ++ t :: (tokens ++ word :: others))
  | elif {pos : Position} {condition : Expr} {yes : List Stmt} {arm : Stmt} {t word : Token}
      {front tokens others : List Token} (head : Expr.Written condition front)
      (separates : t.kind = .keyword .then_ ∨ t.IsSeparator) (inner : Stmt.Block yes tokens)
      (kind : word.kind = .keyword .elif) (other : Stmt.Arm arm others) :
      Stmt.Arm (.if_ pos condition yes (some [arm])) (front ++ t :: (tokens ++ word :: others))
  | elseIf {pos : Position} {condition : Expr} {yes : List Stmt} {arm : Stmt}
      {t word word' : Token} {front tokens others : List Token}
      (head : Expr.Written condition front)
      (separates : t.kind = .keyword .then_ ∨ t.IsSeparator) (inner : Stmt.Block yes tokens)
      (kind : word.kind = .keyword .else_) (kind' : word'.kind = .keyword .if_)
      (other : Stmt.Arm arm others) :
      Stmt.Arm (.if_ pos condition yes (some [arm]))
        (front ++ t :: (tokens ++ word :: word' :: others))

/-- Statements with separators between them. The last one may go without. -/
inductive Stmt.Block : List Stmt → List Token → Prop where
  | none {gap : List Token} (blank : Gap gap) : Stmt.Block [] gap
  | last {s : Stmt} {gap tokens : List Token} (blank : Gap gap) (inner : Stmt.Written s tokens) :
      Stmt.Block [s] (gap ++ tokens)
  | more {s : Stmt} {rest : List Stmt} {gap tokens others : List Token} {t : Token}
      (blank : Gap gap) (inner : Stmt.Written s tokens) (separates : t.IsSeparator)
      (other : Stmt.Block rest others) : Stmt.Block (s :: rest) (gap ++ (tokens ++ t :: others))

end

/-- A program, written as tokens. -/
def Program.Written (program : Program) (tokens : List Token) : Prop := Stmt.Block program tokens

end Scriptlet
