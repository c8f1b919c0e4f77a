/-
The programs that can be written down at all, and that they can. The conditions
are those the relations of `Written` impose on a tree: numbers have a text,
targets are places, compound assignments have one of four operators, parameters
are distinct, declarations are named and literals are not, and no block stands by
itself.

The tokens that are found here are only one way among many. They put everything
in parentheses that may need them, a comma behind every item and a semicolon
behind every statement.
-/
import Mathlib.Data.List.TakeWhile
import Scriptlet.Proofs.Grammar.Piece
import Scriptlet.Proofs.Grammar.Written

namespace Scriptlet

-- ======================================================= conditions

/-- A literal that a token can spell. -/
inductive Literal.Printable : Literal → Prop where
  | number {n : Float} {text : String} (reads : Number.ofText? text = some n) :
      Printable (.number n)
  | string (s : String) : Printable (.string s)
  | bool (b : Bool) : Printable (.bool b)
  | nil : Printable .nil

mutual

/-- An expression that can be written down. -/
inductive Expr.Printable : Expr → Prop where
  | literal {pos : Position} {value : Literal} (leaf : value.Printable) :
      Expr.Printable (.literal pos value)
  | name {pos : Position} {name : String} : Expr.Printable (.name pos name)
  | list {pos : Position} {items : List Expr} (parts : ∀ e ∈ items, Expr.Printable e) :
      Expr.Printable (.list pos items)
  | map {pos : Position} {entries : List (Expr × Expr)}
      (keys : ∀ e ∈ entries, Expr.Printable e.1) (values : ∀ e ∈ entries, Expr.Printable e.2) :
      Expr.Printable (.map pos entries)
  | unary {pos : Position} {op : UnaryOp} {e : Expr} (inner : Expr.Printable e) :
      Expr.Printable (.unary pos op e)
  | binary {pos : Position} {op : BinaryOp} {left right : Expr} (head : Expr.Printable left)
      (tail : Expr.Printable right) : Expr.Printable (.binary pos op left right)
  | logical {pos : Position} {op : LogicalOp} {left right : Expr} (head : Expr.Printable left)
      (tail : Expr.Printable right) : Expr.Printable (.logical pos op left right)
  | call {pos : Position} {callee : Expr} {args : List Expr} (head : Expr.Printable callee)
      (parts : ∀ e ∈ args, Expr.Printable e) : Expr.Printable (.call pos callee args)
  | index {pos : Position} {collection key : Expr} (head : Expr.Printable collection)
      (inner : Expr.Printable key) : Expr.Printable (.index pos collection key)
  | function {pos codePos : Position} {params : List Param} {body : List Stmt}
      (distinct : (params.map Param.name).Nodup) (inner : ∀ s ∈ body, Stmt.Printable s) :
      Expr.Printable (.function pos ⟨none, params, body, codePos⟩)

/-- A statement that can be written down. -/
inductive Stmt.Printable : Stmt → Prop where
  | let_ {pos : Position} {name : String} {value : Expr} (inner : Expr.Printable value) :
      Stmt.Printable (.let_ pos name value)
  | assign {pos : Position} {target value : Expr} {op : Option BinaryOp}
      (place : target.IsPlace = true)
      (sign : op = none ∨ op = some .add ∨ op = some .sub ∨ op = some .mul ∨ op = some .div)
      (head : Expr.Printable target) (inner : Expr.Printable value) :
      Stmt.Printable (.assign pos target op value)
  | expr {pos : Position} {value : Expr} (inner : Expr.Printable value) :
      Stmt.Printable (.expr pos value)
  | ifOnly {pos : Position} {condition : Expr} {yes : List Stmt}
      (head : Expr.Printable condition) (inner : ∀ s ∈ yes, Stmt.Printable s) :
      Stmt.Printable (.if_ pos condition yes none)
  | ifElse {pos : Position} {condition : Expr} {yes no : List Stmt}
      (head : Expr.Printable condition) (inner : ∀ s ∈ yes, Stmt.Printable s)
      (other : ∀ s ∈ no, Stmt.Printable s) : Stmt.Printable (.if_ pos condition yes (some no))
  | while_ {pos : Position} {condition : Expr} {body : List Stmt}
      (head : Expr.Printable condition) (inner : ∀ s ∈ body, Stmt.Printable s) :
      Stmt.Printable (.while_ pos condition body)
  | for_ {pos : Position} {name : String} {iterable : Expr} {body : List Stmt}
      (head : Expr.Printable iterable) (inner : ∀ s ∈ body, Stmt.Printable s) :
      Stmt.Printable (.for_ pos name iterable body)
  | function {pos codePos : Position} {name : String} {params : List Param} {body : List Stmt}
      (distinct : (params.map Param.name).Nodup) (inner : ∀ s ∈ body, Stmt.Printable s) :
      Stmt.Printable (.function pos ⟨some name, params, body, codePos⟩)
  | returnNone {pos : Position} : Stmt.Printable (.return_ pos none)
  | returnSome {pos : Position} {value : Expr} (inner : Expr.Printable value) :
      Stmt.Printable (.return_ pos (some value))
  | break_ {pos : Position} : Stmt.Printable (.break_ pos)
  | continue_ {pos : Position} : Stmt.Printable (.continue_ pos)

end

/-- A program that can be written down. -/
def Program.Printable (program : Program) : Prop := ∀ s ∈ program, s.Printable

-- =========================================================== tokens

/-- A token for a kind. Where it stands does not matter. -/
def Token.spelled (kind : Token.Kind) (lexeme : String) : Token := ⟨kind, lexeme, .start⟩

/-- A token that a program can be read from. -/
def Token.IsMark (t : Token) : Prop := t.kind ≠ .eof ∧ t.kind.isIndentation = false

/-- Nothing is dropped from tokens that are marks already. -/
private theorem Token.marks_eq_self {tokens : List Token} (h : ∀ t ∈ tokens, t.IsMark) :
    Token.marks tokens = tokens := by
  rw [Token.marks, List.takeWhile_eq_self_iff.2 fun t ht => decide_eq_true (h t ht).1]
  exact List.filter_eq_self.2 fun t ht => by rw [(h t ht).2]; rfl

/-- The relation holds of some tokens, and a program can be read from each of
them. -/
def Spelled (R : List Token → Prop) : Prop := ∃ tokens, R tokens ∧ ∀ t ∈ tokens, t.IsMark

private theorem isMark_keyword (k : Keyword) :
    (Token.spelled (.keyword k) "").IsMark := ⟨nofun, rfl⟩

private theorem isMark_symbol (s : Symbol) : (Token.spelled (.symbol s) "").IsMark := ⟨nofun, rfl⟩

private theorem isMark_name (lexeme : String) : (Token.spelled .name lexeme).IsMark := ⟨nofun, rfl⟩

theorem breaks_nil : Breaks [] := fun _ ht => nomatch ht

theorem gap_nil : Gap [] := fun _ ht => nomatch ht

/-- Items with a comma behind each of them, also behind the last. -/
private theorem listed_spelled {α : Type} {R : α → List Token → Prop} {xs : List α}
    (h : ∀ x ∈ xs, Spelled (R x)) : Spelled (Listed R xs) := by
  induction xs with
  | nil => exact ⟨[], .none breaks_nil, fun _ ht => nomatch ht⟩
  | cons x rest ih =>
    obtain ⟨hx, hrest⟩ := List.forall_mem_cons.1 h
    obtain ⟨tokens, htokens, hmarks⟩ := hx
    obtain ⟨others, hothers, hmarks'⟩ := ih hrest
    refine ⟨_, .more (t := .spelled (.symbol .comma) "") breaks_nil htokens breaks_nil rfl hothers,
      ?_⟩
    simp only [List.nil_append, List.forall_mem_append, List.forall_mem_cons]
    exact ⟨hmarks, isMark_symbol .comma, hmarks'⟩

/-- A block, behind a semicolon of its own. -/
theorem block_spelled {body : List Stmt} (h : ∀ s ∈ body, Spelled s.Written) :
    Spelled fun tokens =>
      Stmt.Block body tokens ∧ Parser.nextIs (.symbol .semicolon) tokens = true := by
  have hgap : Gap [Token.spelled (.symbol .semicolon) ""] := by
    intro t ht
    cases List.mem_singleton.1 ht
    exact .inr rfl
  induction body with
  | nil =>
    refine ⟨_, ⟨.none hgap, rfl⟩, ?_⟩
    intro t ht
    cases List.mem_singleton.1 ht
    exact isMark_symbol .semicolon
  | cons s rest ih =>
    obtain ⟨hs, hrest⟩ := List.forall_mem_cons.1 h
    obtain ⟨tokens, htokens, hmarks⟩ := hs
    obtain ⟨others, ⟨hothers, -⟩, hmarks'⟩ := ih hrest
    refine ⟨_, ⟨.more (t := .spelled (.symbol .semicolon) "") hgap htokens (.inr rfl) hothers,
      rfl⟩, ?_⟩
    simp only [List.cons_append, List.nil_append, List.forall_mem_append, List.forall_mem_cons]
    exact ⟨isMark_symbol .semicolon, hmarks, isMark_symbol .semicolon, hmarks'⟩

/-- Whatever is written can be put in parentheses. -/
theorem operand_spelled {e : Expr} (h : Spelled e.Written) : Spelled e.Operand := by
  obtain ⟨tokens, htokens, hmarks⟩ := h
  have hparens : e.Operand (Token.spelled (.symbol .leftParen) "" ::
      ([] ++ (tokens ++ ([] ++ [Token.spelled (.symbol .rightParen) ""])))) :=
    .parens rfl breaks_nil htokens breaks_nil rfl
  refine ⟨_, hparens, ?_⟩
  simp only [List.nil_append, List.forall_mem_append, List.forall_mem_cons]
  exact ⟨isMark_symbol .leftParen, hmarks, isMark_symbol .rightParen, fun _ ht => nomatch ht⟩

-- ========================================================== writing

/-- A number is spelled by the text that is read as it. -/
private theorem literal_spelled {value : Literal} (h : value.Printable) :
    ∃ t, value.Written t ∧ t.IsMark := by
  cases h with
  | @number n text reads => exact ⟨.spelled .number text, .number rfl reads, nofun, rfl⟩
  | string s => exact ⟨.spelled .string s, .string (t := .spelled .string s) rfl, nofun, rfl⟩
  | bool b =>
    cases b with
    | false => exact ⟨.spelled (.keyword .false_) "", .false_ rfl, nofun, rfl⟩
    | true => exact ⟨.spelled (.keyword .true_) "", .true_ rfl, nofun, rfl⟩
  | nil => exact ⟨.spelled (.keyword .nil) "", .nil rfl, nofun, rfl⟩

/-- The parameters, each with a comma behind it. -/
private theorem params_spelled {params : List Param} (h : (params.map Param.name).Nodup) :
    Spelled fun tokens => Param.ListWritten params (.spelled (.symbol .leftParen) "") tokens
      (.spelled (.symbol .rightParen) "") := by
  have hparts : Spelled (Listed Param.Written params) := listed_spelled fun param _ =>
    ⟨[.spelled .name param.name], .mk (t := .spelled .name param.name) rfl, fun t ht => by
      cases List.mem_singleton.1 ht
      exact isMark_name param.name⟩
  obtain ⟨tokens, htokens, hmarks⟩ := hparts
  exact ⟨tokens, ⟨rfl, htokens, rfl, h⟩, hmarks⟩

/-- The body of a function, as a block. -/
theorem body_spelled {body : List Stmt} (h : ∀ s ∈ body, Spelled s.Written) :
    Spelled (Expr.Body body) := by
  obtain ⟨tokens, ⟨htokens, -⟩, hmarks⟩ := block_spelled h
  refine ⟨_, .block (t := .spelled (.keyword .end_) "") htokens rfl, ?_⟩
  simp only [List.forall_mem_append, List.forall_mem_cons]
  exact ⟨hmarks, isMark_keyword .end_, fun _ ht => nomatch ht⟩

/-- Operators stand between operands, which are in parentheses where they have to be. -/
private theorem unary_spelled {pos : Position} {op : UnaryOp} {e : Expr} (h : Spelled e.Operand) :
    Spelled (Expr.unary pos op e).Written := by
  obtain ⟨tokens, htokens, hmarks⟩ := h
  refine ⟨_, .unary (t := .spelled (.symbol op.symbol) "") (by cases op <;> rfl) htokens, ?_⟩
  exact List.forall_mem_cons.2 ⟨isMark_symbol op.symbol, hmarks⟩

/-- The operator between its operands, each of them written as an operand. -/
private theorem binary_spelled {pos : Position} {op : BinaryOp} {left right : Expr}
    (hleft : Spelled left.Operand) (hright : Spelled right.Operand) :
    Spelled (Expr.binary pos op left right).Written := by
  obtain ⟨front, hfront, hmarks⟩ := hleft
  obtain ⟨behind, hbehind, hmarks'⟩ := hright
  have hsign : ∃ power, Power.of? (.symbol op.symbol) = some power ∧ power.joint = .binary op := by
    cases op <;> exact ⟨_, rfl, rfl⟩
  obtain ⟨power, hpower, hjoint⟩ := hsign
  refine ⟨_, .binary (t := .spelled (.symbol op.symbol) "") hfront hpower hjoint hbehind, ?_⟩
  exact List.forall_mem_append.2
    ⟨hmarks, List.forall_mem_cons.2 ⟨isMark_symbol op.symbol, hmarks'⟩⟩

private theorem logical_spelled {pos : Position} {op : LogicalOp} {left right : Expr}
    (hleft : Spelled left.Operand) (hright : Spelled right.Operand) :
    Spelled (Expr.logical pos op left right).Written := by
  obtain ⟨front, hfront, hmarks⟩ := hleft
  obtain ⟨behind, hbehind, hmarks'⟩ := hright
  have hsign : ∃ power, Power.of? (.symbol op.symbol) = some power ∧ power.joint = .logical op := by
    cases op <;> exact ⟨_, rfl, rfl⟩
  obtain ⟨power, hpower, hjoint⟩ := hsign
  refine ⟨_, .logical (t := .spelled (.symbol op.symbol) "") hfront hpower hjoint hbehind, ?_⟩
  exact List.forall_mem_append.2
    ⟨hmarks, List.forall_mem_cons.2 ⟨isMark_symbol op.symbol, hmarks'⟩⟩

private theorem list_spelled {pos : Position} {items : List Expr}
    (h : ∀ e ∈ items, Spelled e.Written) :
    Spelled (Expr.list pos items).Operand := by
  obtain ⟨tokens, htokens, hmarks⟩ := listed_spelled h
  have hlist : (Expr.list pos items).Operand (Token.spelled (.symbol .leftBracket) "" ::
      (tokens ++ [Token.spelled (.symbol .rightBracket) ""])) := .list rfl htokens rfl
  refine ⟨_, hlist, ?_⟩
  simp only [List.forall_mem_append, List.forall_mem_cons]
  exact ⟨isMark_symbol .leftBracket, hmarks, isMark_symbol .rightBracket, fun _ ht => nomatch ht⟩

/-- An entry of a map with its key as an expression of its own. -/
private theorem field_spelled {key value : Expr} (hkey : Spelled key.Written)
    (hvalue : Spelled value.Written) : Spelled (Expr.Field (key, value)) := by
  obtain ⟨front, hfront, hmarks⟩ := hkey
  obtain ⟨tokens, htokens, hmarks'⟩ := hvalue
  refine ⟨_, .mk (t := .spelled (.symbol .colon) "") hfront breaks_nil rfl breaks_nil htokens, ?_⟩
  simp only [List.nil_append, List.forall_mem_append, List.forall_mem_cons]
  exact ⟨hmarks, isMark_symbol .colon, hmarks'⟩

private theorem map_spelled {pos : Position} {entries : List (Expr × Expr)}
    (h : ∀ e ∈ entries, Spelled (Expr.Field e)) : Spelled (Expr.map pos entries).Operand := by
  obtain ⟨tokens, htokens, hmarks⟩ := listed_spelled h
  have hmap : (Expr.map pos entries).Operand (Token.spelled (.symbol .leftBrace) "" ::
      (tokens ++ [Token.spelled (.symbol .rightBrace) ""])) := .map rfl htokens rfl
  refine ⟨_, hmap, ?_⟩
  simp only [List.forall_mem_append, List.forall_mem_cons]
  exact ⟨isMark_symbol .leftBrace, hmarks, isMark_symbol .rightBrace, fun _ ht => nomatch ht⟩

private theorem call_spelled {pos : Position} {callee : Expr} {args : List Expr}
    (hcallee : Spelled callee.Operand) (hargs : ∀ e ∈ args, Spelled e.Written) :
    Spelled (Expr.call pos callee args).Operand := by
  obtain ⟨front, hfront, hmarks⟩ := hcallee
  obtain ⟨tokens, htokens, hmarks'⟩ := listed_spelled hargs
  have hcall : (Expr.call pos callee args).Operand
      (front ++ Token.spelled (.symbol .leftParen) "" ::
        (tokens ++ [Token.spelled (.symbol .rightParen) ""])) := .call hfront rfl htokens rfl
  refine ⟨_, hcall, ?_⟩
  simp only [List.forall_mem_append, List.forall_mem_cons]
  exact ⟨hmarks, isMark_symbol .leftParen, hmarks', isMark_symbol .rightParen,
    fun _ ht => nomatch ht⟩

/-- A key is written in brackets, also where a dot and a name would do. -/
private theorem index_spelled {pos : Position} {collection key : Expr}
    (hhead : Spelled collection.Operand)
    (hkey : Spelled key.Written) : Spelled (Expr.index pos collection key).Operand := by
  obtain ⟨front, hfront, hmarks⟩ := hhead
  obtain ⟨tokens, htokens, hmarks'⟩ := hkey
  have hindex : (Expr.index pos collection key).Operand
      (front ++ Token.spelled (.symbol .leftBracket) "" ::
        ([] ++ (tokens ++ ([] ++ [Token.spelled (.symbol .rightBracket) ""])))) :=
    .index hfront rfl breaks_nil htokens breaks_nil rfl
  refine ⟨_, hindex, ?_⟩
  simp only [List.nil_append, List.forall_mem_append, List.forall_mem_cons]
  exact ⟨hmarks, isMark_symbol .leftBracket, hmarks', isMark_symbol .rightBracket,
    fun _ ht => nomatch ht⟩

/-- A function literal with its body in a block and closed by `end`. -/
private theorem function_spelled {pos codePos : Position} {params : List Param} {body : List Stmt}
    (hdistinct : (params.map Param.name).Nodup) (hbody : ∀ s ∈ body, Spelled s.Written) :
    Spelled (Expr.function pos ⟨none, params, body, codePos⟩).Written := by
  obtain ⟨names, hnames, hmarks⟩ := params_spelled hdistinct
  obtain ⟨tokens, htokens, hmarks'⟩ := body_spelled hbody
  refine ⟨_, .function (t := .spelled (.keyword .function) "") (.inl rfl) hnames htokens, ?_⟩
  simp only [List.forall_mem_append, List.forall_mem_cons]
  exact ⟨isMark_keyword .function, isMark_symbol .leftParen, hmarks, isMark_symbol .rightParen,
    hmarks'⟩

private theorem declaration_spelled {pos codePos : Position} {name : String} {params : List Param}
    {body : List Stmt} (hdistinct : (params.map Param.name).Nodup)
    (hbody : ∀ s ∈ body, Spelled s.Written) :
    Spelled (Stmt.function pos ⟨some name, params, body, codePos⟩).Written := by
  obtain ⟨names, hnames, hmarks⟩ := params_spelled hdistinct
  obtain ⟨tokens, htokens, hmarks'⟩ := body_spelled hbody
  have hdeclares : (Stmt.function pos
      ⟨some (Token.spelled .name name).lexeme, params, body, codePos⟩).Written
      (Token.spelled (.keyword .function) "" :: Token.spelled .name name ::
        Token.spelled (.symbol .leftParen) "" ::
          (names ++ Token.spelled (.symbol .rightParen) "" :: tokens)) :=
    .function (.inl rfl) rfl hnames htokens
  refine ⟨_, hdeclares, ?_⟩
  simp only [List.forall_mem_append, List.forall_mem_cons]
  exact ⟨isMark_keyword .function, isMark_name name, isMark_symbol .leftParen, hmarks,
    isMark_symbol .rightParen, hmarks'⟩

private theorem let_spelled {pos : Position} {name : String} {value : Expr}
    (h : Spelled value.Written) : Spelled (Stmt.let_ pos name value).Written := by
  obtain ⟨tokens, htokens, hmarks⟩ := h
  have hlet : (Stmt.let_ pos (Token.spelled .name name).lexeme value).Written
      (Token.spelled (.keyword .let_) "" :: Token.spelled .name name ::
        Token.spelled (.symbol .assign) "" :: tokens) :=
    .let_ rfl rfl rfl htokens
  refine ⟨_, hlet, ?_⟩
  simp only [List.forall_mem_cons]
  exact ⟨isMark_keyword .let_, isMark_name name, isMark_symbol .assign, hmarks⟩

/-- Only the four compound operators have a sign of their own. -/
private theorem assign_spelled {pos : Position} {target value : Expr} {op : Option BinaryOp}
    (hplace : target.IsPlace = true)
    (hsign : op = none ∨ op = some .add ∨ op = some .sub ∨ op = some .mul ∨ op = some .div)
    (htarget : Spelled target.Written) (hvalue : Spelled value.Written) :
    Spelled (Stmt.assign pos target op value).Written := by
  obtain ⟨front, hfront, hmarks⟩ := htarget
  obtain ⟨tokens, htokens, hmarks'⟩ := hvalue
  have hsymbol : ∃ s : Symbol, assignmentOf? (.symbol s) = some op := by
    rcases hsign with rfl | rfl | rfl | rfl | rfl
    exacts [⟨.assign, rfl⟩, ⟨.plusAssign, rfl⟩, ⟨.minusAssign, rfl⟩, ⟨.starAssign, rfl⟩,
      ⟨.slashAssign, rfl⟩]
  obtain ⟨s, hs⟩ := hsymbol
  refine ⟨_, .assign (t := .spelled (.symbol s) "") hplace hfront hs htokens, ?_⟩
  exact List.forall_mem_append.2 ⟨hmarks, List.forall_mem_cons.2 ⟨isMark_symbol s, hmarks'⟩⟩

private theorem while_spelled {pos : Position} {condition : Expr} {body : List Stmt}
    (hcondition : Spelled condition.Written) (hbody : ∀ s ∈ body, Spelled s.Written) :
    Spelled (Stmt.while_ pos condition body).Written := by
  obtain ⟨front, hfront, hmarks⟩ := hcondition
  obtain ⟨tokens, ⟨htokens, -⟩, hmarks'⟩ := block_spelled hbody
  have hwhile : (Stmt.while_ pos condition body).Written (Token.spelled (.keyword .while_) "" ::
      (front ++ Token.spelled (.symbol .semicolon) "" ::
        (tokens ++ [Token.spelled (.keyword .end_) ""]))) :=
    .while_ rfl hfront (.inr rfl) htokens rfl
  refine ⟨_, hwhile, ?_⟩
  simp only [List.forall_mem_append, List.forall_mem_cons]
  exact ⟨isMark_keyword .while_, hmarks, isMark_symbol .semicolon, hmarks', isMark_keyword .end_,
    fun _ ht => nomatch ht⟩

private theorem for_spelled {pos : Position} {name : String} {iterable : Expr} {body : List Stmt}
    (hiterable : Spelled iterable.Written) (hbody : ∀ s ∈ body, Spelled s.Written) :
    Spelled (Stmt.for_ pos name iterable body).Written := by
  obtain ⟨front, hfront, hmarks⟩ := hiterable
  obtain ⟨tokens, ⟨htokens, -⟩, hmarks'⟩ := block_spelled hbody
  have hfor : (Stmt.for_ pos (Token.spelled .name name).lexeme iterable body).Written
      (Token.spelled (.keyword .for_) "" :: Token.spelled .name name ::
        Token.spelled (.keyword .in_) "" ::
        (front ++ Token.spelled (.symbol .semicolon) "" ::
          (tokens ++ [Token.spelled (.keyword .end_) ""]))) :=
    .for_ rfl rfl rfl hfront (.inr rfl) htokens rfl
  refine ⟨_, hfor, ?_⟩
  simp only [List.forall_mem_append, List.forall_mem_cons]
  exact ⟨isMark_keyword .for_, isMark_name name, isMark_keyword .in_, hmarks,
    isMark_symbol .semicolon, hmarks', isMark_keyword .end_, fun _ ht => nomatch ht⟩

/-- The arms of an `if`, with its keyword and its `end`. -/
theorem if_spelled {arms : Stmt} (h : Spelled arms.Arm) : Spelled arms.Written := by
  obtain ⟨tokens, htokens, hmarks⟩ := h
  have hif : arms.Written (Token.spelled (.keyword .if_) "" ::
      (tokens ++ [Token.spelled (.keyword .end_) ""])) := .if_ rfl htokens rfl
  refine ⟨_, hif, ?_⟩
  simp only [List.forall_mem_append, List.forall_mem_cons]
  exact ⟨isMark_keyword .if_, hmarks, isMark_keyword .end_, fun _ ht => nomatch ht⟩

/-- An arm without `else`, which both the whole statement and an `elif` can be. -/
private theorem ifOnly_spelled {pos : Position} {condition : Expr} {yes : List Stmt}
    (hcondition : Spelled condition.Written) (hyes : ∀ s ∈ yes, Spelled s.Written) :
    Spelled (Stmt.if_ pos condition yes none).Arm := by
  obtain ⟨front, hfront, hmarks⟩ := hcondition
  obtain ⟨tokens, ⟨htokens, -⟩, hmarks'⟩ := block_spelled hyes
  refine ⟨_, .only (t := .spelled (.keyword .then_) "") hfront (.inl rfl) htokens, ?_⟩
  exact List.forall_mem_append.2
    ⟨hmarks, List.forall_mem_cons.2 ⟨isMark_keyword .then_, hmarks'⟩⟩

/-- The other branch is always a block of its own here. -/
theorem ifElse_spelled {pos : Position} {condition : Expr} {yes no : List Stmt}
    (hcondition : Spelled condition.Written) (hyes : ∀ s ∈ yes, Spelled s.Written)
    (hno : ∀ s ∈ no, Spelled s.Written) :
    Spelled (Stmt.if_ pos condition yes (some no)).Arm := by
  obtain ⟨front, hfront, hmarks⟩ := hcondition
  obtain ⟨tokens, ⟨htokens, -⟩, hmarks'⟩ := block_spelled hyes
  obtain ⟨others, ⟨hothers, hsemicolon⟩, hmarks''⟩ := block_spelled hno
  have hnotIf : Parser.nextIs (.keyword .if_) others = false := by
    cases others with
    | nil => rfl
    | cons t rest =>
      refine decide_eq_false fun ht => ?_
      have hkind : t.kind = .symbol .semicolon := of_decide_eq_true hsemicolon
      rw [hkind] at ht
      cases ht
  have harm : (Stmt.if_ pos condition yes (some no)).Arm
      (front ++ Token.spelled (.keyword .then_) "" ::
        (tokens ++ Token.spelled (.keyword .else_) "" :: others)) :=
    .else_ hfront (.inl rfl) htokens rfl hothers hnotIf
  refine ⟨_, harm, ?_⟩
  simp only [List.forall_mem_append, List.forall_mem_cons]
  exact ⟨hmarks, isMark_keyword .then_, hmarks', isMark_keyword .else_, hmarks''⟩

private theorem return_spelled {pos : Position} {value : Expr} (h : Spelled value.Written) :
    Spelled (Stmt.return_ pos (some value)).Written := by
  obtain ⟨tokens, htokens, hmarks⟩ := h
  refine ⟨_, .returnSome (t := .spelled (.keyword .return_) "") rfl htokens, ?_⟩
  exact List.forall_mem_cons.2 ⟨isMark_keyword .return_, hmarks⟩

/-- A statement that is a keyword by itself. -/
theorem keyword_spelled {s : Stmt} {k : Keyword}
    (h : s.Written [Token.spelled (.keyword k) ""]) : Spelled s.Written :=
  ⟨_, h, List.forall_mem_cons.2 ⟨isMark_keyword k, fun _ ht => nomatch ht⟩⟩

/-- What is written as an operand can stand on its own as well. -/
private theorem written_of_operand {e : Expr} (h : Spelled e.Operand) : Spelled e.Written := by
  obtain ⟨tokens, htokens, hmarks⟩ := h
  exact ⟨tokens, .operand htokens, hmarks⟩

mutual

/-- What is printable can be written as an operand. -/
theorem Expr.Printable.spelled {e : Expr} : e.Printable → Spelled e.Operand
  | .literal leaf => by
    obtain ⟨t, ht, hmark⟩ := literal_spelled leaf
    exact ⟨[t], .literal ht, List.forall_mem_cons.2 ⟨hmark, fun _ ht => nomatch ht⟩⟩
  | @Expr.Printable.name _ name =>
    ⟨[.spelled .name name], .name (t := .spelled .name name) rfl,
      List.forall_mem_cons.2 ⟨isMark_name name, fun _ ht => nomatch ht⟩⟩
  | .list parts => list_spelled fun e he => written_of_operand (parts e he).spelled
  | .map keys values => map_spelled fun e he =>
    field_spelled (written_of_operand (keys e he).spelled)
      (written_of_operand (values e he).spelled)
  | .unary inner => operand_spelled (unary_spelled inner.spelled)
  | .binary head tail => operand_spelled (binary_spelled head.spelled tail.spelled)
  | .logical head tail => operand_spelled (logical_spelled head.spelled tail.spelled)
  | .call head parts =>
    call_spelled head.spelled fun e he => written_of_operand (parts e he).spelled
  | .index head inner => index_spelled head.spelled (written_of_operand inner.spelled)
  | .function distinct inner =>
    operand_spelled (function_spelled distinct fun s hs => (inner s hs).spelled)

/-- What is printable can be written. -/
theorem Stmt.Printable.spelled {s : Stmt} : s.Printable → Spelled s.Written
  | .let_ inner => let_spelled (written_of_operand inner.spelled)
  | .assign place sign head inner =>
    assign_spelled place sign (written_of_operand head.spelled) (written_of_operand inner.spelled)
  | .expr inner => by
    obtain ⟨tokens, htokens, hmarks⟩ := written_of_operand inner.spelled
    exact ⟨tokens, .expr htokens, hmarks⟩
  | .ifOnly head inner =>
    if_spelled (ifOnly_spelled (written_of_operand head.spelled) fun s hs => (inner s hs).spelled)
  | .ifElse head inner other =>
    if_spelled (ifElse_spelled (written_of_operand head.spelled) (fun s hs => (inner s hs).spelled)
      fun s hs => (other s hs).spelled)
  | .while_ head inner =>
    while_spelled (written_of_operand head.spelled) fun s hs => (inner s hs).spelled
  | .for_ head inner =>
    for_spelled (written_of_operand head.spelled) fun s hs => (inner s hs).spelled
  | .function distinct inner => declaration_spelled distinct fun s hs => (inner s hs).spelled
  | .returnNone => keyword_spelled (.returnNone rfl)
  | .returnSome inner => return_spelled (written_of_operand inner.spelled)
  | .break_ => keyword_spelled (.break_ rfl)
  | .continue_ => keyword_spelled (.continue_ rfl)

end

/-- Every printable program is written by some tokens. -/
theorem Program.Printable.exists_written {program : Program} (h : program.Printable) :
    ∃ tokens, program.Written (Token.marks tokens) := by
  obtain ⟨tokens, ⟨htokens, -⟩, hmarks⟩ := block_spelled fun s hs => (h s hs).spelled
  refine ⟨tokens, ?_⟩
  rw [Token.marks_eq_self hmarks]
  exact htokens

end Scriptlet
