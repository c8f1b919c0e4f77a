/-
The grammar keeps all content. Whatever a parser reads, the content of the
tokens it took is the content of the tree it made: nothing is dropped, nothing
comes twice, nothing changes places. The same induction shows that every reading
takes at least one token, which the budgets of `Grammar` rest on.

# How the induction goes

`Reads content p` says both things of a parser `p` at once. Parsers take the
smaller ones they are built from as arguments, so there is one lemma for each of
them, from `Reads` of the arguments to `Reads` of the result; `expression` and
`statement` tie the knot by induction on the depth. Parsers that go on with an
expression they were given (`suffixes`, `climb`) add its content in front, and
blocks, which may be empty, need not take a token.
-/
import Scriptlet.Proofs.Grammar.Mirror
import Scriptlet.Proofs.Grammar.Piece

namespace Scriptlet

/-- A step of a reading that succeeded: its first part did, and the rest went on
from there. -/
theorem Except.ok_of_bind {ε α β : Type} {x : Except ε α} {f : α → Except ε β} {b : β}
    (h : (x >>= f) = .ok b) : ∃ a, x = .ok a ∧ f a = .ok b := by
  cases x with
  | error e => cases h
  | ok a => exact ⟨a, rfl, h⟩

/-- Between `tokens` and `rest` at least `count` tokens were taken, and their
content is `pieces`. -/
structure Took (count : Nat) (pieces : List Piece) (tokens rest : List Token) : Prop where
  length : rest.length + count ≤ tokens.length
  content : Token.pieces false tokens = pieces ++ Token.pieces false rest

namespace Took

variable {count more : Nat} {pieces others : List Piece} {tokens middle rest : List Token}

/-- Taking in turn. -/
theorem trans (h : Took count pieces tokens middle) (h' : Took more others middle rest) :
    Took (count + more) (pieces ++ others) tokens rest := by
  have hlen := h.length
  have hlen' := h'.length
  refine ⟨by omega, ?_⟩
  rw [h.content, h'.content, List.append_assoc]

/-- The same taking with a lower count and its content spelled otherwise. -/
theorem as (h : Took count pieces tokens rest) (hcount : more ≤ count) (hpieces : pieces = others) :
    Took more others tokens rest := by
  have hlen := h.length
  exact ⟨by omega, hpieces ▸ h.content⟩

/-- Nothing is taken, and nothing is said. -/
theorem none (tokens : List Token) : Took 0 [] tokens tokens := ⟨Nat.le_refl _, rfl⟩

end Took

namespace Parser

variable {α : Type} {content : α → List Piece} {stop : Position}

/-- A parser that takes at least one token and keeps the content of those it
takes. -/
def Reads (content : α → List Piece) (p : Parser α) : Prop :=
  ∀ ⦃tokens : List Token⦄ ⦃x : α⦄ ⦃rest : List Token⦄, p tokens = .ok (x, rest) →
    Took 1 (content x) tokens rest

-- ==================================================== single tokens

/-- Whether tokens of a kind have no content and are no point. -/
def isForm : Token.Kind → Bool
  | .keyword .true_ | .keyword .false_ | .keyword .nil | .keyword .and_ | .keyword .or_
  | .keyword .not_ | .keyword .to_ => false
  | .symbol s => !s.isOperator && s ≠ .dot
  | .name | .number | .string => false
  | _ => true

private theorem piece?_of_isForm {t : Token} {behindDot : Bool} (h : isForm t.kind = true) :
    t.piece? behindDot = none := by
  obtain ⟨kind, lexeme, pos⟩ := t
  cases kind with
  | keyword k => cases k <;> first | rfl | cases h
  | symbol s => cases s <;> first | rfl | cases h
  | newline | indent | dedent | eof => rfl
  | name | number | string => cases h

/-- A token that is no point adds its own content in front. -/
theorem took_cons {t : Token} (hdot : t.kind ≠ .symbol .dot) (rest : List Token) :
    Took 1 (t.piece? false).toList (t :: rest) rest := by
  refine ⟨Nat.le_refl _, ?_⟩
  rw [Token.pieces_cons, decide_eq_false hdot]

/-- A token of form is taken without a piece of content. -/
private theorem took_form {t : Token} (h : isForm t.kind = true) (rest : List Token) :
    Took 1 [] (t :: rest) rest := by
  refine (took_cons (fun hdot => ?_) rest).as (Nat.le_refl _) (by rw [piece?_of_isForm h]; rfl)
  rw [hdot] at h
  cases h

/-- What is asked for is the next token, of the kind that was asked for. -/
theorem expect_eq_ok {kind : Token.Kind} {expected : Expected} {tokens rest : List Token}
    {t : Token} (h : expect stop kind expected tokens = .ok (t, rest)) :
    tokens = t :: rest ∧ t.kind = kind := by
  cases tokens with
  | nil => cases h
  | cons u us =>
    simp only [expect] at h
    split at h
    · next hk =>
      cases h
      exact ⟨rfl, hk⟩
    · cases h

/-- Reading a token without content. -/
theorem took_expect {kind : Token.Kind} {expected : Expected} {tokens rest : List Token}
    {t : Token} (h : expect stop kind expected tokens = .ok (t, rest))
    (hform : isForm kind = true) : Took 1 [] tokens rest := by
  obtain ⟨rfl, rfl⟩ := expect_eq_ok h
  exact took_form hform rest

/-- Reading a name. -/
theorem took_name {expected : Expected} {tokens rest : List Token} {t : Token}
    (h : expect stop .name expected tokens = .ok (t, rest)) :
    Took 1 [.name t.lexeme] tokens rest := by
  obtain ⟨rfl, hk⟩ := expect_eq_ok h
  refine (took_cons (by simp [hk]) rest).as (Nat.le_refl _) ?_
  simp [Token.piece?, hk]

/-- A question about the next token that is answered with yes finds it. -/
theorem nextIs_eq_true {kind : Token.Kind} {tokens : List Token} (h : nextIs kind tokens = true) :
    ∃ t rest, tokens = t :: rest ∧ t.kind = kind := by
  cases tokens with
  | nil => cases h
  | cons t rest => exact ⟨t, rest, rfl, by simpa [nextIs] using h⟩

/-- Passing over a token that was looked at. -/
theorem took_next {kind : Token.Kind} {tokens : List Token} (h : nextIs kind tokens = true)
    (hform : isForm kind = true) : Took 1 [] tokens tokens.tail := by
  obtain ⟨t, rest, rfl, rfl⟩ := nextIs_eq_true h
  exact took_form hform rest

/-- Passing over any number of tokens without content. -/
theorem took_dropWhile {skip : Token → Bool} (hskip : ∀ t, skip t = true → isForm t.kind = true)
    (tokens : List Token) : Took 0 [] tokens (tokens.dropWhile skip) := by
  induction tokens with
  | nil => exact .none _
  | cons t rest ih =>
    rw [List.dropWhile_cons]
    split
    · next h => exact ((took_form (hskip t h) rest).trans ih).as (Nat.zero_le _) rfl
    · exact .none _

/-- Line ends and separators are form, whatever their number. -/
theorem took_newlines (tokens : List Token) : Took 0 [] tokens (skipNewlines tokens) := by
  refine took_dropWhile (fun t h => ?_) tokens
  have hk : t.kind = .newline := by simpa using h
  rw [hk]
  rfl

theorem took_separators (tokens : List Token) : Took 0 [] tokens (skipSeparators tokens) := by
  refine took_dropWhile (fun t h => ?_) tokens
  have hk : t.kind = .newline ∨ t.kind = .symbol .semicolon := by simpa using h
  rcases hk with hk | hk <;> rw [hk] <;> rfl

-- ====================================================== item lists

/-- A list of items keeps the content of its items. -/
theorem commaList_reads {item : Parser α} (hitem : Reads content item) {close : Symbol}
    (hclose : isForm (.symbol close) = true) (rounds : Nat) :
    Reads (fun xs => xs.flatMap content) (commaList stop item close rounds) := by
  induction rounds with
  | zero => intro tokens xs rest h; cases h
  | succ rounds ih =>
    intro tokens xs rest h
    have hstart := took_newlines tokens
    simp only [commaList] at h
    split at h
    · next hnext =>
      cases h
      exact hstart.trans (took_next hnext hclose)
    · obtain ⟨⟨first, behind⟩, hfirst, h⟩ := Except.ok_of_bind h
      have hitem := (hstart.trans (hitem hfirst)).trans (took_newlines behind)
      dsimp only at h
      split at h
      · next hnext =>
        obtain ⟨⟨others, left⟩, hothers, h⟩ := Except.ok_of_bind h
        dsimp only at h
        cases h
        refine ((hitem.trans (took_next hnext rfl)).trans (ih hothers)).as (by omega) ?_
        simp
      · obtain ⟨⟨t, left⟩, hexpect, h⟩ := Except.ok_of_bind h
        dsimp only at h
        cases h
        refine (hitem.trans (took_expect hexpect hclose)).as (by omega) ?_
        simp

/-- The content of parameters: their names. -/
def paramPieces (params : List Param) : List Piece := params.map fun p => .name p.name

/-- Parameters are read as their names. -/
private theorem parameters_reads (rounds : Nat) (seen : List String) :
    Reads paramPieces (parameters stop rounds seen) := by
  induction rounds generalizing seen with
  | zero => intro tokens xs rest h; cases h
  | succ rounds ih =>
    intro tokens xs rest h
    have hstart := took_newlines tokens
    simp only [parameters] at h
    split at h
    · next hnext =>
      cases h
      exact hstart.trans (took_next hnext rfl)
    · obtain ⟨⟨name, behind⟩, hname, h⟩ := Except.ok_of_bind h
      have hparam := (hstart.trans (took_name hname)).trans (took_newlines behind)
      dsimp only at h
      split at h
      · obtain ⟨_, h, _⟩ := Except.ok_of_bind h
        cases h
      · split at h
        · next hnext =>
          obtain ⟨⟨others, left⟩, hothers, h⟩ := Except.ok_of_bind h
          dsimp only at h
          cases h
          exact ((hparam.trans (took_next hnext rfl)).trans (ih _ hothers)).as (by omega) rfl
        · obtain ⟨⟨t, left⟩, hexpect, h⟩ := Except.ok_of_bind h
          dsimp only at h
          cases h
          exact (hparam.trans (took_expect hexpect rfl)).as (by omega) rfl

/-- The parentheses around them are form. -/
theorem parameterList_reads (rounds : Nat) : Reads paramPieces (parameterList stop rounds) := by
  intro tokens xs rest h
  obtain ⟨⟨t, behind⟩, hopen, h⟩ := Except.ok_of_bind h
  exact ((took_expect hopen rfl).trans (parameters_reads rounds [] h)).as (by omega) rfl

-- ========================================================== blocks

/-- A block keeps the content of its statements. It may be empty and take no
token. -/
theorem block_took {statement : Parser Stmt} (hstmt : Reads Stmt.pieces statement)
    (stops : List Keyword) (rounds : Nat) {tokens rest : List Token} {body : List Stmt}
    (h : block stop statement stops rounds tokens = .ok (body, rest)) :
    Took 0 (Stmt.bodyPieces body) tokens rest := by
  induction rounds generalizing tokens body with
  | zero => cases h
  | succ rounds ih =>
    have hstart := took_separators tokens
    simp only [block] at h
    split at h
    · cases h
      exact hstart
    · obtain ⟨⟨first, behind⟩, hfirst, h⟩ := Except.ok_of_bind h
      obtain ⟨⟨others, left⟩, hothers, h⟩ := Except.ok_of_bind h
      dsimp only at h
      cases h
      exact ((hstart.trans (hstmt hfirst)).trans (ih hothers)).as (by omega) rfl

private theorem closedBlock_reads {statement : Parser Stmt} (hstmt : Reads Stmt.pieces statement)
    (rounds : Nat) : Reads Stmt.bodyPieces (closedBlock stop statement rounds) := by
  intro tokens body rest h
  obtain ⟨⟨body', behind⟩, hbody, h⟩ := Except.ok_of_bind h
  obtain ⟨⟨t, left⟩, hend, h⟩ := Except.ok_of_bind h
  dsimp only at h
  cases h
  refine ((block_took hstmt _ _ hbody).trans (took_expect hend rfl)).as (by omega) ?_
  simp

/-- An arrow and an `end` are form both, so a body has the content of its statements
either way. -/
private theorem functionBody_reads {expression : Parser Expr} {statement : Parser Stmt}
    (hexpr : Reads Expr.pieces expression) (hstmt : Reads Stmt.pieces statement) (rounds : Nat) :
    Reads Stmt.bodyPieces (functionBody stop expression statement rounds) := by
  intro tokens body rest h
  simp only [functionBody] at h
  split at h
  · next hnext =>
    obtain ⟨⟨value, left⟩, hvalue, h⟩ := Except.ok_of_bind h
    dsimp only at h
    cases h
    refine ((took_next hnext rfl).trans (hexpr hvalue)).as (by omega) ?_
    simp [Stmt.bodyPieces, Stmt.pieces]
  · exact closedBlock_reads hstmt rounds h

-- ===================================================== expressions

section Expressions

variable {expression : Parser Expr} {statement : Parser Stmt}

/-- The content of one map entry. -/
def entryPieces (e : Expr × Expr) : List Piece := e.1.pieces ++ e.2.pieces

private theorem itemPieces_eq_flatMap (items : List Expr) :
    Expr.itemPieces items = items.flatMap Expr.pieces := by
  induction items with
  | nil => rfl
  | cons e rest ih => rw [Expr.itemPieces, ih, List.flatMap_cons]

private theorem entryPieces_eq_flatMap (entries : List (Expr × Expr)) :
    Expr.entryPieces entries = entries.flatMap entryPieces := by
  induction entries with
  | nil => rfl
  | cons e rest ih => rw [Expr.entryPieces, ih, List.flatMap_cons, entryPieces]

/-- An entry has the content of its key and then of its value. -/
theorem entry_reads (hexpr : Reads Expr.pieces expression) :
    Reads entryPieces (entry stop expression) := by
  intro tokens e rest h
  obtain ⟨⟨key, ts₁⟩, hkey, h⟩ := Except.ok_of_bind h
  obtain ⟨⟨colon, ts₂⟩, hcolon, h⟩ := Except.ok_of_bind h
  obtain ⟨⟨value, ts₃⟩, hvalue, h⟩ := Except.ok_of_bind h
  dsimp only at h
  cases h
  have hfront := ((hexpr hkey).trans (took_newlines ts₁)).trans (took_expect hcolon rfl)
  refine ((hfront.trans (took_newlines ts₂)).trans (hexpr hvalue)).as (by omega) ?_
  simp [entryPieces]

private theorem parenthesized_reads (hexpr : Reads Expr.pieces expression) :
    Reads Expr.pieces (parenthesized stop expression) := by
  intro tokens e rest h
  obtain ⟨⟨inner, ts₁⟩, hinner, h⟩ := Except.ok_of_bind h
  obtain ⟨⟨paren, ts₂⟩, hparen, h⟩ := Except.ok_of_bind h
  dsimp only at h
  cases h
  have hfront := ((took_newlines tokens).trans (hexpr hinner)).trans (took_newlines ts₁)
  refine (hfront.trans (took_expect hparen rfl)).as (by omega) ?_
  simp

private theorem functionLiteral_reads (hexpr : Reads Expr.pieces expression)
    (hstmt : Reads Stmt.pieces statement) (rounds : Nat) (pos : Position) :
    Reads Expr.pieces (functionLiteral stop expression statement rounds pos) := by
  intro tokens e rest h
  obtain ⟨⟨params, ts₁⟩, hparams, h⟩ := Except.ok_of_bind h
  obtain ⟨⟨body, ts₂⟩, hbody, h⟩ := Except.ok_of_bind h
  dsimp only at h
  cases h
  have hfront := parameterList_reads rounds hparams
  exact (hfront.trans (functionBody_reads hexpr hstmt rounds hbody)).as (by omega) rfl

/-- Each primary in the order of its tokens. A literal is its own content, and brackets
are form. -/
theorem primary_reads (hexpr : Reads Expr.pieces expression) (hstmt : Reads Stmt.pieces statement)
    (rounds : Nat) : Reads Expr.pieces (primary stop expression statement rounds) := by
  intro tokens e rest h
  cases tokens with
  | nil => cases h
  | cons t ts =>
    have hone (hdot : t.kind ≠ .symbol .dot) := took_cons hdot ts
    simp only [primary] at h
    split at h
    case h_1 hk =>
      -- a numeral is content as the number it spells
      split at h
      · next n hn =>
        cases h
        refine (hone (by simp [hk])).as (Nat.le_refl _) ?_
        simp [Token.piece?, hk, hn, Expr.pieces, Literal.piece]
      · cases h
    case h_2 hk | h_3 hk | h_4 hk | h_5 hk | h_6 hk =>
      cases h
      refine (hone (by simp [hk])).as (Nat.le_refl _) ?_
      simp [Token.piece?, hk, Expr.pieces, Literal.piece]
    case h_7 hk =>
      have hopen := took_form (t := t) (by rw [hk]; rfl) ts
      exact (hopen.trans (parenthesized_reads hexpr h)).as (by omega) rfl
    case h_8 hk =>
      have hopen := took_form (t := t) (by rw [hk]; rfl) ts
      obtain ⟨⟨items, left⟩, hitems, h⟩ := Except.ok_of_bind h
      dsimp only at h
      cases h
      refine (hopen.trans (commaList_reads hexpr rfl rounds hitems)).as (by omega) ?_
      simp [Expr.pieces, itemPieces_eq_flatMap]
    case h_9 hk =>
      have hopen := took_form (t := t) (by rw [hk]; rfl) ts
      obtain ⟨⟨entries, left⟩, hentries, h⟩ := Except.ok_of_bind h
      dsimp only at h
      cases h
      refine (hopen.trans (commaList_reads (entry_reads hexpr) rfl rounds hentries)).as
        (by omega) ?_
      simp [Expr.pieces, entryPieces_eq_flatMap]
    case h_10 hk | h_11 hk =>
      have hopen := took_form (t := t) (by rw [hk]; rfl) ts
      exact (hopen.trans (functionLiteral_reads hexpr hstmt rounds _ h)).as (by omega) rfl
    case h_12 => cases h

/-- A suffix adds its content behind that of the expression it is put on. -/
theorem suffix?_took (hexpr : Reads Expr.pieces expression) (rounds : Nat) {e e' : Expr}
    {tokens rest : List Token}
    (h : suffix? stop expression rounds e tokens = some (.ok (e', rest))) :
    ∃ added, e'.pieces = e.pieces ++ added ∧ Took 1 added tokens rest := by
  cases tokens with
  | nil => cases h
  | cons t ts =>
    simp only [suffix?] at h
    split at h
    · next hk =>
      have hopen := took_form (t := t) (by rw [hk]; rfl) ts
      obtain ⟨⟨args, left⟩, hargs, h⟩ := Except.ok_of_bind (Option.some.inj h)
      dsimp only at h
      cases h
      refine ⟨_, ?_, (hopen.trans (commaList_reads hexpr rfl rounds hargs)).as (by omega) rfl⟩
      simp [Expr.pieces, itemPieces_eq_flatMap]
    · next hk =>
      have hopen := took_form (t := t) (by rw [hk]; rfl) ts
      obtain ⟨⟨key, ts₁⟩, hkey, h⟩ := Except.ok_of_bind (Option.some.inj h)
      obtain ⟨⟨bracket, ts₂⟩, hbracket, h⟩ := Except.ok_of_bind h
      dsimp only at h
      cases h
      have hfront := (hopen.trans (took_newlines ts)).trans (hexpr hkey)
      refine ⟨_, rfl, ((hfront.trans (took_newlines ts₁)).trans (took_expect hbracket rfl)).as
        (by omega) ?_⟩
      simp
    · next hk =>
      -- the name behind the point is read as the text of a key
      obtain ⟨⟨member, left⟩, hmember, h⟩ := Except.ok_of_bind (Option.some.inj h)
      dsimp only at h
      cases h
      obtain ⟨rfl, hmk⟩ := expect_eq_ok hmember
      refine ⟨_, rfl, by simp, ?_⟩
      simp [Token.pieces_cons, Token.piece?, hk, hmk, Symbol.isOperator, Expr.pieces, Literal.piece]
    · cases h

/-- Suffixes add to the content of what they are attached to. -/
theorem suffixes_took (hexpr : Reads Expr.pieces expression) (rounds : Nat) {e e' : Expr}
    {tokens rest : List Token} (h : suffixes stop expression rounds e tokens = .ok (e', rest)) :
    ∃ added, e'.pieces = e.pieces ++ added ∧ Took 0 added tokens rest := by
  induction rounds generalizing e tokens with
  | zero => cases h
  | succ rounds ih =>
    simp only [suffixes] at h
    split at h
    · cases h
      exact ⟨[], by simp, .none _⟩
    · cases h
    · next hsuffix =>
      obtain ⟨first, hfirst, htook⟩ := suffix?_took hexpr rounds hsuffix
      obtain ⟨others, hothers, htook'⟩ := ih h
      exact ⟨first ++ others, by rw [hothers, hfirst, List.append_assoc],
        (htook.trans htook').as (Nat.zero_le _) rfl⟩

/-- An operator between two expressions is the content that stands there. -/
theorem took_joint {t : Token} {power : Power} (h : Power.of? t.kind = some power)
    (pos : Position) (left right : Expr) (rest : List Token) :
    ∃ s, (power.joint.join pos left right).pieces = left.pieces ++ .symbol s :: right.pieces
      ∧ Took 1 [.symbol s] (t :: rest) rest := by
  have hone (hdot : t.kind ≠ .symbol .dot) := took_cons hdot rest
  unfold Power.of? at h
  split at h
  case h_17 => cases h
  all_goals
    next hk =>
    cases h
    refine ⟨_, rfl, (hone (by simp [hk])).as (Nat.le_refl _) ?_⟩
    simp [Token.piece?, hk, Symbol.isOperator, BinaryOp.symbol, LogicalOp.symbol]

private theorem took_unary {t : Token} {op : UnaryOp} (h : unaryOf? t.kind = some op)
    (rest : List Token) : Took 1 [.symbol op.symbol] (t :: rest) rest := by
  have hone (hdot : t.kind ≠ .symbol .dot) := took_cons hdot rest
  unfold unaryOf? at h
  split at h
  case h_4 => cases h
  all_goals
    next hk =>
    cases h
    refine (hone (by simp [hk])).as (Nat.le_refl _) ?_
    simp [Token.piece?, hk, Symbol.isOperator, UnaryOp.symbol]

end Expressions

/-- A sign is a piece of content and stands before that of its operand. -/
theorem operand_reads {expression : Nat → Parser Expr} {statement : Parser Stmt}
    (hexpr : ∀ demand, Reads Expr.pieces (expression demand))
    (hstmt : Reads Stmt.pieces statement) (rounds : Nat) :
    Reads Expr.pieces (operand stop expression statement rounds) := by
  intro tokens e rest h
  cases tokens with
  | nil => cases h
  | cons t ts =>
    simp only [operand] at h
    split at h
    · next op hop =>
      obtain ⟨⟨inner, left⟩, hinner, h⟩ := Except.ok_of_bind h
      dsimp only at h
      cases h
      exact ((took_unary hop ts).trans (hexpr _ hinner)).as (by omega) rfl
    · obtain ⟨⟨head, left⟩, hhead, h⟩ := Except.ok_of_bind h
      obtain ⟨added, hadded, htook⟩ := suffixes_took (hexpr 0) rounds h
      exact ((primary_reads (hexpr 0) hstmt rounds hhead).trans htook).as (by omega) hadded.symm

/-- Each round adds the operator and the content of what is to the right of it, whatever
the powers are: they decide about the tree and not about the order of its leaves. -/
private theorem climb_took {expression : Nat → Parser Expr}
    (hexpr : ∀ demand, Reads Expr.pieces (expression demand)) (demand rounds : Nat)
    {left e : Expr} {tokens rest : List Token}
    (h : climb stop expression demand rounds left tokens = .ok (e, rest)) :
    ∃ added, e.pieces = left.pieces ++ added ∧ Took 0 added tokens rest := by
  induction rounds generalizing left tokens with
  | zero => cases h
  | succ rounds ih =>
    cases tokens with
    | nil =>
      cases h
      exact ⟨[], by simp, .none _⟩
    | cons t ts =>
      simp only [climb] at h
      split at h
      · cases h
        exact ⟨[], by simp, .none _⟩
      · next power hpower =>
        split at h
        · cases h
          exact ⟨[], by simp, .none _⟩
        · obtain ⟨⟨right, ts₁⟩, hright, h⟩ := Except.ok_of_bind h
          obtain ⟨s, hjoin, hone⟩ := took_joint hpower t.pos left right ts
          obtain ⟨added, hadded, htook⟩ := ih h
          refine ⟨[.symbol s] ++ right.pieces ++ added, ?_,
            ((hone.trans (hexpr _ hright)).trans htook).as (by omega) rfl⟩
          rw [hadded, hjoin]
          simp

-- ====================================================== statements

section Statements

variable {expression : Parser Expr} {statement : Parser Stmt}

private theorem letStatement_reads (hexpr : Reads Expr.pieces expression) (pos : Position) :
    Reads Stmt.pieces (letStatement stop expression pos) := by
  intro tokens s rest h
  obtain ⟨⟨name, ts₁⟩, hname, h⟩ := Except.ok_of_bind h
  obtain ⟨⟨sign, ts₂⟩, hsign, h⟩ := Except.ok_of_bind h
  obtain ⟨⟨value, ts₃⟩, hvalue, h⟩ := Except.ok_of_bind h
  dsimp only at h
  cases h
  obtain ⟨rfl, hk⟩ := expect_eq_ok hsign
  have hassign := took_cons (t := sign) (by simp [hk]) ts₂
  refine (((took_name hname).trans hassign).trans (hexpr hvalue)).as (by omega) ?_
  simp [Stmt.pieces, Token.piece?, hk, Symbol.isOperator]

private theorem changeStatement_reads (hexpr : Reads Expr.pieces expression) (pos : Position) :
    Reads Stmt.pieces (changeStatement stop expression pos) := by
  intro tokens s rest h
  obtain ⟨⟨target, ts₁⟩, htarget, h⟩ := Except.ok_of_bind h
  obtain ⟨-, -, h⟩ := Except.ok_of_bind h
  obtain ⟨⟨word, ts₂⟩, hword, h⟩ := Except.ok_of_bind h
  obtain ⟨⟨value, ts₃⟩, hvalue, h⟩ := Except.ok_of_bind h
  dsimp only at h
  cases h
  obtain ⟨rfl, hk⟩ := expect_eq_ok hword
  have hassign := took_cons (t := word) (by simp [hk]) ts₂
  refine (((hexpr htarget).trans hassign).trans (hexpr hvalue)).as (by omega) ?_
  simp [Stmt.pieces, Token.piece?, hk, assignSymbol?]

/-- Whether `then` is written or not makes no difference to the content. -/
theorem took_optional_then (tokens : List Token) :
    Took 0 [] tokens (if nextIs (.keyword .then_) tokens then tokens.tail else tokens) := by
  split
  · next h => exact (took_next h rfl).as (Nat.zero_le _) rfl
  · exact .none _

/-- The arms of an `if`, in the order they are written. All its keywords are form. -/
private theorem ifArm_reads (hexpr : Reads Expr.pieces expression)
    (hstmt : Reads Stmt.pieces statement)
    (rounds : Nat) (pos : Position) :
    Reads Stmt.pieces (ifArm stop expression statement rounds pos) := by
  induction rounds generalizing pos with
  | zero => intro tokens s rest h; cases h
  | succ rounds ih =>
    intro tokens s rest h
    simp only [ifArm] at h
    obtain ⟨⟨condition, ts₁⟩, hcondition, h⟩ := Except.ok_of_bind h
    obtain ⟨⟨yes, ts₂⟩, hyes, h⟩ := Except.ok_of_bind h
    have hfront := ((hexpr hcondition).trans (took_optional_then ts₁)).trans
      (block_took hstmt _ _ hyes)
    dsimp only at h
    split at h
    · -- `elif`
      obtain ⟨⟨arm, ts₃⟩, harm, h⟩ := Except.ok_of_bind h
      dsimp only at h
      cases h
      refine ((hfront.trans (took_form rfl _)).trans (ih _ harm)).as (by omega) ?_
      simp [Stmt.pieces, Stmt.bodyPieces]
    · -- `else if`
      obtain ⟨⟨arm, ts₃⟩, harm, h⟩ := Except.ok_of_bind h
      dsimp only at h
      cases h
      refine (((hfront.trans (took_form rfl _)).trans (took_form rfl _)).trans (ih _ harm)).as
        (by omega) ?_
      simp [Stmt.pieces, Stmt.bodyPieces]
    · -- `else`
      obtain ⟨⟨no, ts₃⟩, hno, h⟩ := Except.ok_of_bind h
      dsimp only at h
      cases h
      refine ((hfront.trans (took_form rfl _)).trans (block_took hstmt _ _ hno)).as (by omega) ?_
      simp [Stmt.pieces]
    · cases h
      refine hfront.as (by omega) ?_
      simp [Stmt.pieces]

private theorem ifStatement_reads (hexpr : Reads Expr.pieces expression)
    (hstmt : Reads Stmt.pieces statement) (rounds : Nat) (pos : Position) :
    Reads Stmt.pieces (ifStatement stop expression statement rounds pos) := by
  intro tokens s rest h
  obtain ⟨⟨arms, ts₁⟩, harms, h⟩ := Except.ok_of_bind h
  obtain ⟨⟨word, ts₂⟩, hword, h⟩ := Except.ok_of_bind h
  dsimp only at h
  cases h
  refine ((ifArm_reads hexpr hstmt rounds pos harms).trans (took_expect hword rfl)).as
    (by omega) ?_
  simp

private theorem whileStatement_reads (hexpr : Reads Expr.pieces expression)
    (hstmt : Reads Stmt.pieces statement) (rounds : Nat) (pos : Position) :
    Reads Stmt.pieces (whileStatement stop expression statement rounds pos) := by
  intro tokens s rest h
  obtain ⟨⟨condition, ts₁⟩, hcondition, h⟩ := Except.ok_of_bind h
  obtain ⟨⟨body, ts₂⟩, hbody, h⟩ := Except.ok_of_bind h
  dsimp only at h
  cases h
  exact ((hexpr hcondition).trans (closedBlock_reads hstmt rounds hbody)).as (by omega) rfl

private theorem forStatement_reads (hexpr : Reads Expr.pieces expression)
    (hstmt : Reads Stmt.pieces statement) (rounds : Nat) (pos : Position) :
    Reads Stmt.pieces (forStatement stop expression statement rounds pos) := by
  intro tokens s rest h
  obtain ⟨⟨name, ts₁⟩, hname, h⟩ := Except.ok_of_bind h
  obtain ⟨⟨word, ts₂⟩, hword, h⟩ := Except.ok_of_bind h
  obtain ⟨⟨iterable, ts₃⟩, hiterable, h⟩ := Except.ok_of_bind h
  obtain ⟨⟨body, ts₄⟩, hbody, h⟩ := Except.ok_of_bind h
  dsimp only at h
  cases h
  have hfront := ((took_name hname).trans (took_expect hword rfl)).trans (hexpr hiterable)
  refine (hfront.trans (closedBlock_reads hstmt rounds hbody)).as (by omega) ?_
  simp [Stmt.pieces]

private theorem functionStatement_reads (hexpr : Reads Expr.pieces expression)
    (hstmt : Reads Stmt.pieces statement) (rounds : Nat) (keyword : Keyword) (pos : Position) :
    Reads Stmt.pieces (functionStatement stop expression statement rounds keyword pos) := by
  intro tokens s rest h
  obtain ⟨⟨name, ts₁⟩, hname, h⟩ := Except.ok_of_bind h
  obtain ⟨⟨params, ts₂⟩, hparams, h⟩ := Except.ok_of_bind h
  have hfront := (took_name hname).trans (parameterList_reads rounds hparams)
  dsimp only at h
  split at h
  · obtain ⟨-, h, -⟩ := Except.ok_of_bind h
    cases h
  · obtain ⟨⟨body, ts₃⟩, hbody, h⟩ := Except.ok_of_bind h
    dsimp only at h
    cases h
    refine (hfront.trans (functionBody_reads hexpr hstmt rounds hbody)).as (by omega) ?_
    simp [Stmt.pieces, Code.pieces, paramPieces]

/-- A `return` may be followed by nothing. -/
theorem returnStatement_took (hexpr : Reads Expr.pieces expression) (pos : Position)
    {tokens rest : List Token} {s : Stmt}
    (h : returnStatement expression pos tokens = .ok (s, rest)) :
    Took 0 s.pieces tokens rest := by
  simp only [returnStatement] at h
  split at h
  · cases h
    exact .none _
  · obtain ⟨⟨value, ts₁⟩, hvalue, h⟩ := Except.ok_of_bind h
    dsimp only at h
    cases h
    exact (hexpr hvalue).as (Nat.zero_le _) rfl

/-- The sign of an assignment is a piece of content, which tells the compound ones from each
other and from the plain one. -/
private theorem took_assignment {t : Token} {op : Option BinaryOp}
    (h : assignmentOf? t.kind = some op)
    (rest : List Token) : Took 1 ((assignSymbol? op).toList.map Piece.symbol) (t :: rest) rest := by
  have hone (hdot : t.kind ≠ .symbol .dot) := took_cons hdot rest
  unfold assignmentOf? at h
  split at h
  case h_6 => cases h
  all_goals
    next hk =>
    cases h
    refine (hone (by simp [hk])).as (Nat.le_refl _) ?_
    simp [Token.piece?, hk, Symbol.isOperator, assignSymbol?]

private theorem expressionStatement_reads (hexpr : Reads Expr.pieces expression) :
    Reads Stmt.pieces (expressionStatement expression) := by
  intro tokens s rest h
  obtain ⟨⟨e, ts₁⟩, he, h⟩ := Except.ok_of_bind h
  dsimp only at h
  split at h
  · cases h
    exact hexpr he
  · next t ts =>
    split at h
    · cases h
      exact hexpr he
    · next op hop =>
      obtain ⟨-, -, h⟩ := Except.ok_of_bind h
      obtain ⟨⟨value, ts₂⟩, hvalue, h⟩ := Except.ok_of_bind h
      dsimp only at h
      cases h
      exact (((hexpr he).trans (took_assignment hop ts)).trans (hexpr hvalue)).as (by omega) rfl

private theorem openStatement_reads (hexpr : Reads Expr.pieces expression)
    (hstmt : Reads Stmt.pieces statement) (rounds : Nat) :
    Reads Stmt.pieces (openStatement stop expression statement rounds) := by
  intro tokens s rest h
  cases tokens with
  | nil => exact expressionStatement_reads hexpr h
  | cons t ts =>
    have hform (hk : isForm t.kind = true) := took_form hk ts
    simp only [openStatement] at h
    split at h
    case h_1 hk =>
      exact ((hform (by rw [hk]; rfl)).trans (letStatement_reads hexpr _ h)).as (by omega) rfl
    case h_2 hk =>
      exact ((hform (by rw [hk]; rfl)).trans (changeStatement_reads hexpr _ h)).as (by omega) rfl
    case h_3 hk =>
      exact ((hform (by rw [hk]; rfl)).trans (ifStatement_reads hexpr hstmt rounds _ h)).as
        (by omega) rfl
    case h_4 hk =>
      exact ((hform (by rw [hk]; rfl)).trans (whileStatement_reads hexpr hstmt rounds _ h)).as
        (by omega) rfl
    case h_5 hk =>
      exact ((hform (by rw [hk]; rfl)).trans (forStatement_reads hexpr hstmt rounds _ h)).as
        (by omega) rfl
    case h_6 hk =>
      exact ((hform (by rw [hk]; rfl)).trans (returnStatement_took hexpr _ h)).as (by omega) rfl
    case h_7 hk | h_8 hk =>
      cases h
      exact hform (by rw [hk]; rfl)
    case h_9 k _ _ _ _ _ _ _ _ hk =>
      split at h
      · next hcond =>
        simp only [Bool.and_eq_true, Bool.or_eq_true, decide_eq_true_eq] at hcond
        have hk' : isForm t.kind = true := by
          rcases hcond.1 with (rfl | rfl) | rfl <;> rw [hk] <;> rfl
        exact ((hform hk').trans (functionStatement_reads hexpr hstmt rounds k _ h)).as
          (by omega) rfl
      · exact expressionStatement_reads hexpr h
    case h_10 => exact expressionStatement_reads hexpr h

private theorem statementEnd_took {tokens rest : List Token}
    (h : statementEnd stop tokens = .ok rest) :
    Took 0 [] tokens rest := by
  simp only [statementEnd, Bool.or_eq_true] at h
  split at h
  · next hnext =>
    cases h
    rcases hnext with hnext | hnext
    · exact (took_next hnext rfl).as (Nat.zero_le _) rfl
    · exact (took_next hnext rfl).as (Nat.zero_le _) rfl
  · split at h
    · cases h
      exact .none _
    · cases h

private theorem endedStatement_reads (hexpr : Reads Expr.pieces expression)
    (hstmt : Reads Stmt.pieces statement) (rounds : Nat) :
    Reads Stmt.pieces (endedStatement stop expression statement rounds) := by
  intro tokens s rest h
  obtain ⟨⟨s', ts₁⟩, hs, h⟩ := Except.ok_of_bind h
  obtain ⟨ts₂, hend, h⟩ := Except.ok_of_bind h
  cases h
  refine ((openStatement_reads hexpr hstmt rounds hs).trans (statementEnd_took hend)).as
    (by omega) ?_
  simp

end Statements

-- ======================================================== the knot

/-- Expressions and statements keep their content at every depth. -/
theorem reads (stop : Position) (depth : Nat) :
    (∀ demand, Reads Expr.pieces (expression stop depth demand))
      ∧ Reads Stmt.pieces (statement stop depth) := by
  induction depth with
  | zero => exact ⟨fun demand tokens e rest h => (by cases h), fun tokens s rest h => (by cases h)⟩
  | succ depth ih =>
    obtain ⟨hexpr, hstmt⟩ := ih
    refine ⟨fun demand tokens e rest h => ?_, fun tokens s rest h => ?_⟩
    · simp only [expression] at h
      obtain ⟨⟨left, ts₁⟩, hleft, h⟩ := Except.ok_of_bind h
      obtain ⟨added, hadded, htook⟩ := climb_took hexpr demand depth h
      exact ((operand_reads hexpr hstmt depth hleft).trans htook).as (by omega) hadded.symm
    · simp only [statement] at h
      exact endedStatement_reads (hexpr 0) hstmt depth h

/-- A block that no keyword closes goes on to the end. -/
theorem block_rest_atEnd {statement : Parser Stmt} (rounds : Nat) {tokens rest : List Token}
    {body : List Stmt} (h : block stop statement [] rounds tokens = .ok (body, rest)) :
    AtEnd rest := by
  induction rounds generalizing tokens body with
  | zero => cases h
  | succ rounds ih =>
    simp only [block] at h
    split at h
    · next hend =>
      cases h
      exact atEnd_of_atBlockEnd hend
    · obtain ⟨⟨first, behind⟩, hfirst, h⟩ := Except.ok_of_bind h
      obtain ⟨⟨others, left⟩, hothers, h⟩ := Except.ok_of_bind h
      dsimp only at h
      cases h
      exact ih hothers

/-- Without an end mark that is the end of the tokens. -/
theorem block_rest_eq_nil {depth : Nat} (rounds : Nat) {tokens rest : List Token}
    {body : List Stmt} (heof : ∀ t ∈ tokens, t.kind ≠ .eof)
    (h : block stop (statement stop depth) [] rounds tokens = .ok (body, rest)) : rest = [] := by
  obtain ⟨taken, rfl, -⟩ := block_left h
  rcases (block_rest_atEnd rounds h).eq with hnil | ⟨t, others, rfl, ht⟩
  · exact hnil
  · exact absurd ht (heof t (by simp))

end Parser

-- ======================================================== programs

/-- It makes no difference whether the marks of indentation are dropped before
or behind the search for the end. -/
theorem Token.marks_eq (tokens : List Token) :
    ((tokens.filter fun t => !t.kind.isIndentation).takeWhile fun t => t.kind ≠ .eof)
      = Token.marks tokens := by
  unfold Token.marks
  induction tokens with
  | nil => rfl
  | cons t rest ih =>
    by_cases hindent : t.kind.isIndentation = true
    · have heof : t.kind ≠ .eof := fun h => by rw [h] at hindent; cases hindent
      simpa [hindent, heof] using ih
    · by_cases heof : t.kind = .eof
      · simp [heof, Token.Kind.isIndentation]
      · simp only [Bool.not_eq_true] at hindent
        simpa [hindent, heof] using ih

/-- The tokens that are parsed stand before the first end mark. -/
theorem Token.marks_ne_eof {tokens : List Token} {t : Token} (ht : t ∈ Token.marks tokens) :
    t.kind ≠ .eof := by
  rw [← Token.marks_eq] at ht
  exact of_decide_eq_true (List.all_eq_true.1 List.all_takeWhile t ht)

/-- A program that is read is one block that leaves no token. -/
theorem Program.ofTokens_eq_ok {tokens : List Token} {program : Program}
    (h : Program.ofTokens tokens = .ok program) :
    ∃ stop, Parser.block stop (Parser.statement stop (Parser.depthFor (Token.marks tokens))) []
      (Parser.depthFor (Token.marks tokens)) (Token.marks tokens) = .ok (program, []) := by
  simp only [Program.ofTokens, Token.marks_eq, Parser.program] at h
  obtain ⟨⟨statements, rest⟩, hblock, h⟩ := Except.ok_of_bind h
  dsimp only at h
  cases h
  obtain rfl := Parser.block_rest_eq_nil _ (fun _ => Token.marks_ne_eof) hblock
  exact ⟨_, hblock⟩

/-- A program holds the content of its tokens, all of it and in order, and was
read to the last of them. -/
theorem Program.ofTokens_content {tokens : List Token} {program : Program}
    (h : Program.ofTokens tokens = .ok program) :
    Token.pieces false (Token.marks tokens) = Stmt.bodyPieces program
      ∧ ∃ stop, Parser.block stop (Parser.statement stop (Parser.depthFor (Token.marks tokens))) []
          (Parser.depthFor (Token.marks tokens)) (Token.marks tokens) = .ok (program, []) := by
  obtain ⟨stop, hblock⟩ := Program.ofTokens_eq_ok h
  have htook := Parser.block_took (Parser.reads stop _).2 [] _ hblock
  refine ⟨?_, stop, hblock⟩
  simpa using htook.content

/-- The words of `change a.b to not c`, in a line that is indented and ended by
a semicolon. -/
theorem Program.ofTokens_content_change :
    let at_ (column : Nat) : Position := ⟨1, column⟩
    let tokens : List Token :=
      [⟨.indent, "", at_ 3⟩, ⟨.keyword .change, "change", at_ 3⟩, ⟨.name, "a", at_ 10⟩,
        ⟨.symbol .dot, ".", at_ 11⟩, ⟨.name, "b", at_ 12⟩, ⟨.keyword .to_, "to", at_ 14⟩,
        ⟨.keyword .not_, "not", at_ 17⟩, ⟨.name, "c", at_ 21⟩, ⟨.symbol .semicolon, ";", at_ 22⟩,
        ⟨.eof, "", at_ 23⟩, ⟨.name, "d", at_ 24⟩]
    ∃ program, Program.ofTokens tokens = .ok program
      ∧ Stmt.bodyPieces program
          = [.name "a", .string "b", .symbol .assign, .symbol .bang, .name "c"]
      ∧ Token.pieces false (Token.marks tokens) = Stmt.bodyPieces program :=
  ⟨_, rfl, rfl, (Program.ofTokens_content rfl).1⟩

end Scriptlet
