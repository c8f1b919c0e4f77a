/-
The content of a source, as tokens show it and as trees hold it. Content is
what a reader would have to copy to write the same program again: names,
literals and operators, in order. Brackets, commas, keywords that only
introduce a statement, and line ends are form and not content.

# Two readings

`Token.pieces` reads content off tokens and `Expr.pieces`, `Stmt.pieces` off
trees. They know nothing of each other. The words `and`, `or` and `not` are
read as the symbols they stand for, and `to` as the sign of assignment. A name
behind a point is a member, which the tree holds as the text of a key; the
token reading therefore remembers whether it stands behind a point, and this is
all it remembers.
-/
import Scriptlet.Grammar

namespace Scriptlet

-- ========================================================== pieces

/-- One piece of content. A numeral that spells no number is a piece as well,
so that it cannot get lost. -/
inductive Piece where
  | name (s : String)
  | number (n : Option Float)
  | string (s : String)
  | bool (b : Bool)
  | nil
  | symbol (s : Symbol)
  deriving DecidableEq, Repr

/-- Whether a symbol is an operator or an assignment rather than
punctuation. -/
def Symbol.isOperator : Symbol → Bool
  | leftParen | rightParen | leftBrace | rightBrace | leftBracket | rightBracket
  | comma | dot | colon | semicolon | fatArrow => false
  | _ => true

-- ========================================================== tokens

/-- The content of one token, which may stand behind a point. -/
def Token.piece? (behindDot : Bool) (t : Token) : Option Piece :=
  match t.kind with
  | .name => some (if behindDot then .string t.lexeme else .name t.lexeme)
  | .number => some (.number (Number.ofText? t.lexeme))
  | .string => some (.string t.lexeme)
  | .keyword .true_ => some (.bool true)
  | .keyword .false_ => some (.bool false)
  | .keyword .nil => some .nil
  | .keyword .and_ => some (.symbol .ampersands)
  | .keyword .or_ => some (.symbol .pipes)
  | .keyword .not_ => some (.symbol .bang)
  | .keyword .to_ => some (.symbol .assign)
  | .symbol s => if s.isOperator then some (.symbol s) else none
  | _ => none

/-- The content of tokens in order. -/
def Token.pieces (behindDot : Bool) : List Token → List Piece
  | [] => []
  | t :: rest => (t.piece? behindDot).toList ++ pieces (t.kind = .symbol .dot) rest

@[simp] theorem Token.pieces_nil (behindDot : Bool) : Token.pieces behindDot [] = [] := rfl

/-- The content goes token by token, and only a point before a token matters for it. -/
theorem Token.pieces_cons (behindDot : Bool) (t : Token) (rest : List Token) :
    Token.pieces behindDot (t :: rest)
      = (t.piece? behindDot).toList ++ Token.pieces (t.kind = .symbol .dot) rest := rfl

/-- The tokens that a program is read from: those before the end, without the
marks of indentation. -/
def Token.marks (tokens : List Token) : List Token :=
  (tokens.takeWhile fun t => t.kind ≠ .eof).filter fun t => !t.kind.isIndentation

-- =========================================================== trees

/-- The symbol of an operator in front. -/
def UnaryOp.symbol : UnaryOp → Symbol
  | negate => .minus
  | not => .bang

/-- The symbol of an operator. -/
def BinaryOp.symbol : BinaryOp → Symbol
  | add => .plus
  | sub => .minus
  | mul => .star
  | div => .slash
  | mod => .percent
  | pow => .starStar
  | equal => .equalEqual
  | notEqual => .bangEqual
  | less => .less
  | lessEqual => .lessEqual
  | greater => .greater
  | greaterEqual => .greaterEqual

/-- The symbol of an operator. -/
def LogicalOp.symbol : LogicalOp → Symbol
  | and => .ampersands
  | or => .pipes

/-- The symbol of an assignment, which is compound for four operators. -/
def assignSymbol? : Option BinaryOp → Option Symbol
  | none => some .assign
  | some .add => some .plusAssign
  | some .sub => some .minusAssign
  | some .mul => some .starAssign
  | some .div => some .slashAssign
  | some _ => none

/-- The content of a literal. -/
def Literal.piece : Literal → Piece
  | number n => .number (some n)
  | string s => .string s
  | bool b => .bool b
  | nil => .nil

mutual

/-- The content of an expression from left to right. -/
def Expr.pieces : Expr → List Piece
  | .literal _ value => [value.piece]
  | .list _ items => Expr.itemPieces items
  | .map _ entries => Expr.entryPieces entries
  | .name _ name => [.name name]
  | .unary _ op operand => .symbol op.symbol :: operand.pieces
  | .binary _ op left right => left.pieces ++ .symbol op.symbol :: right.pieces
  | .logical _ op left right => left.pieces ++ .symbol op.symbol :: right.pieces
  | .call _ callee args => callee.pieces ++ Expr.itemPieces args
  | .index _ collection key => collection.pieces ++ key.pieces
  | .function _ code => code.pieces

/-- The content of expressions in order. -/
def Expr.itemPieces : List Expr → List Piece
  | [] => []
  | e :: rest => e.pieces ++ Expr.itemPieces rest

/-- The content of map entries in order, each key before its value. -/
def Expr.entryPieces : List (Expr × Expr) → List Piece
  | [] => []
  | (key, value) :: rest => (key.pieces ++ value.pieces) ++ Expr.entryPieces rest

/-- The content of a statement from left to right. -/
def Stmt.pieces : Stmt → List Piece
  | .let_ _ name value => .name name :: .symbol .assign :: value.pieces
  | .assign _ target op value =>
      target.pieces ++ (assignSymbol? op).toList.map Piece.symbol ++ value.pieces
  | .expr _ value => value.pieces
  | .if_ _ condition yes none => condition.pieces ++ Stmt.bodyPieces yes
  | .if_ _ condition yes (some no) =>
      condition.pieces ++ Stmt.bodyPieces yes ++ Stmt.bodyPieces no
  | .while_ _ condition body => condition.pieces ++ Stmt.bodyPieces body
  | .for_ _ name iterable body => .name name :: iterable.pieces ++ Stmt.bodyPieces body
  | .function _ code => code.pieces
  | .return_ _ none => []
  | .return_ _ (some value) => value.pieces
  | .break_ _ | .continue_ _ => []
  | .block _ body => Stmt.bodyPieces body

/-- The content of statements in order. -/
def Stmt.bodyPieces : List Stmt → List Piece
  | [] => []
  | s :: rest => s.pieces ++ Stmt.bodyPieces rest

/-- The content of a function: its name, its parameters and its body. -/
def Code.pieces : Code → List Piece
  | ⟨name, params, body, _⟩ =>
      name.toList.map Piece.name ++ params.map (fun p => .name p.name) ++ Stmt.bodyPieces body

end

end Scriptlet
