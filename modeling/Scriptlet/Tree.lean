/-
The tree of a program. Expressions and statements carry the position that
errors about them report: an operator's for operators, the opening bracket's for
calls and index steps, the first token's otherwise.

The tree is wider than what a source can spell. A host may build trees of its
own with blocks as statements, with any expression as an assignment's target,
and with unnamed declarations; the evaluator gives each of them a meaning.
-/
import Scriptlet.Position

namespace Scriptlet

-- ======================================================= operators

/-- Operators that always evaluate both sides. -/
inductive BinaryOp where
  | add | sub | mul | div | mod | pow
  | equal | notEqual | less | lessEqual | greater | greaterEqual
  deriving DecidableEq, Repr

/-- How an operator is spelled. -/
def BinaryOp.text : BinaryOp → String
  | add => "+"
  | sub => "-"
  | mul => "*"
  | div => "/"
  | mod => "%"
  | pow => "**"
  | equal => "=="
  | notEqual => "!="
  | less => "<"
  | lessEqual => "<="
  | greater => ">"
  | greaterEqual => ">="

/-- Operators that may stop after their left side. -/
inductive LogicalOp where
  | and | or
  deriving DecidableEq, Repr

/-- How an operator is spelled. -/
def LogicalOp.text : LogicalOp → String
  | and => "&&"
  | or => "||"

/-- Operators in front of their operand. -/
inductive UnaryOp where
  | negate | not
  deriving DecidableEq, Repr

-- ============================================================ tree

/-- Values that are written down. -/
inductive Literal where
  | number (n : Float)
  | string (s : String)
  | bool (b : Bool)
  | nil
  deriving DecidableEq, Repr

/-- A parameter of a function. -/
structure Param where
  name : String
  pos : Position
  deriving DecidableEq, Repr

mutual

/-- Expressions: what evaluates to a value. -/
inductive Expr where
  | literal (pos : Position) (value : Literal)
  | list (pos : Position) (items : List Expr)
  | map (pos : Position) (entries : List (Expr × Expr))
  | name (pos : Position) (name : String)
  | unary (pos : Position) (op : UnaryOp) (operand : Expr)
  | binary (pos : Position) (op : BinaryOp) (left right : Expr)
  | logical (pos : Position) (op : LogicalOp) (left right : Expr)
  | call (pos : Position) (callee : Expr) (args : List Expr)
  /-- A collection's item under a key; a member is the item under its name. -/
  | index (pos : Position) (collection key : Expr)
  | function (pos : Position) (code : Code)

/-- Statements: what is executed for its effect. -/
inductive Stmt where
  | let_ (pos : Position) (name : String) (value : Expr)
  /-- With an operator, the target's old value is its left side. -/
  | assign (pos : Position) (target : Expr) (op : Option BinaryOp) (value : Expr)
  | expr (pos : Position) (value : Expr)
  | if_ (pos : Position) (condition : Expr) (yes : List Stmt) (no : Option (List Stmt))
  | while_ (pos : Position) (condition : Expr) (body : List Stmt)
  | for_ (pos : Position) (name : String) (iterable : Expr) (body : List Stmt)
  | function (pos : Position) (code : Code)
  | return_ (pos : Position) (value : Option Expr)
  | break_ (pos : Position)
  | continue_ (pos : Position)
  | block (pos : Position) (body : List Stmt)

/-- What a function is made of. Declared functions have a name. -/
structure Code where
  name : Option String
  params : List Param
  body : List Stmt
  pos : Position

end

/-- A program: statements in order. -/
abbrev Program := List Stmt

instance : Inhabited Expr := ⟨.literal .start .nil⟩

-- ======================================================= positions

/-- Where errors about an expression are reported. -/
def Expr.pos : Expr → Position
  | literal pos _ | list pos _ | map pos _ | name pos _ | unary pos _ _ | binary pos _ _ _
  | logical pos _ _ _ | call pos _ _ | index pos _ _ | function pos _ => pos

/-- Where errors about a statement are reported. -/
def Stmt.pos : Stmt → Position
  | let_ pos _ _ | assign pos _ _ _ | expr pos _ | if_ pos _ _ _ | while_ pos _ _ | for_ pos _ _ _
  | function pos _ | return_ pos _ | break_ pos | continue_ pos | block pos _ => pos

-- ======================================================= functions

/-- How many arguments a function takes. -/
def Code.arity (code : Code) : Nat := code.params.length

/-- What messages call a function. -/
def Code.title (code : Code) : String := code.name.getD "anonymous"

-- =========================================================== forms

/-- The form of an expression, without its parts. -/
inductive Expr.Form where
  | literal | list | map | name | unary | binary | logical | call | index | function
  deriving DecidableEq, Repr

/-- The form of an expression. -/
def Expr.form : Expr → Form
  | literal .. => .literal
  | list .. => .list
  | map .. => .map
  | name .. => .name
  | unary .. => .unary
  | binary .. => .binary
  | logical .. => .logical
  | call .. => .call
  | index .. => .index
  | function .. => .function

/-- What messages call a form. -/
def Expr.Form.text : Expr.Form → String
  | literal => "literal"
  | list => "list literal"
  | map => "map literal"
  | name => "identifier"
  | unary => "unary expression"
  | binary => "binary expression"
  | logical => "logical expression"
  | call => "call expression"
  | index => "index expression"
  | function => "function literal"

end Scriptlet
