/-
What reading does not depend on. Parsers never look at positions, so moving
the positions of the tokens moves those of the result and changes nothing else;
and once the depth and the rounds exceed what the number of tokens calls for, it
makes no difference by how much.

# One induction for both

The two facts are one: a parser over some tokens and a parser with another
budget over the moved tokens give results that differ by the move
(`Follows`). With the identity for the move this is independence of the budget,
with equal budgets it is independence of positions. The lemmas take `Follows`
of the smaller parsers only up to a length of the tokens, because that is what
the induction has to offer: every reading takes a token (`Parser.reads`), so all
but the first of several readings, and everything inside brackets, is over
fewer tokens than the whole.
-/
import Scriptlet.Proofs.Grammar.Content
import Scriptlet.Proofs.Moved.Tree

namespace Scriptlet.Parser

variable {α β γ δ : Type} {f : Position → Position} {stop : Position}

-- ========================================================= results

/-- A parser's result with the positions of the tokens and errors moved, and
its meaning moved by `g`. -/
def movedResult (f : Position → Position) (g : α → β) :
    Except ParseError (α × List Token) → Except ParseError (β × List Token)
  | .ok (x, rest) => .ok (g x, rest.map (Token.moved f))
  | .error e => .error (e.moved f)

/-- On up to `n` tokens, `q` reads what `p` does with the positions moved. -/
def Follows (f : Position → Position) (g : α → β) (n : Nat) (p : Parser α) (q : Parser β) : Prop :=
  ∀ tokens : List Token, tokens.length ≤ n →
    q (tokens.map (Token.moved f)) = movedResult f g (p tokens)

/-- A parser that takes at least one token. -/
def Shrinks (p : Parser α) : Prop :=
  ∀ ⦃tokens : List Token⦄ ⦃x : α⦄ ⦃rest : List Token⦄, p tokens = .ok (x, rest) →
    rest.length < tokens.length

/-- What is read has at least one piece of content, and that is a token taken. -/
theorem Reads.shrinks {content : α → List Piece} {p : Parser α} (h : Reads content p) :
    Shrinks p :=
  fun _ _ _ hp => (h hp).length

/-- Steps in turn follow if each does. -/
theorem movedResult_bind {g : α → β} {g' : γ → δ} {x : Except ParseError (α × List Token)}
    {x' : Except ParseError (β × List Token)}
    {k : α × List Token → Except ParseError (γ × List Token)}
    {k' : β × List Token → Except ParseError (δ × List Token)} (hx : x' = movedResult f g x)
    (hk : ∀ a rest, x = .ok (a, rest) →
      k' (g a, rest.map (Token.moved f)) = movedResult f g' (k (a, rest))) :
    (x' >>= k') = movedResult f g' (x >>= k) := by
  subst hx
  cases x with
  | error e => rfl
  | ok a => exact hk a.1 a.2 rfl

/-- A result whose meaning the move of no position keeps is not moved by it. -/
theorem movedResult_id {g : α → α} (hg : ∀ x, g x = x)
    (result : Except ParseError (α × List Token)) : movedResult id g result = result := by
  have hmap : Token.moved id = id := rfl
  cases result with
  | error e =>
    obtain ⟨expected, found, pos⟩ := e
    cases found <;> rfl
  | ok a =>
    obtain ⟨x, rest⟩ := a
    rw [movedResult, hmap, List.map_id, hg]

/-- To follow without a move is to agree. -/
theorem follows_id {g : α → α} (hg : ∀ x, g x = x) {n : Nat} {p q : Parser α} :
    Follows id g n p q ↔ ∀ tokens : List Token, tokens.length ≤ n → q tokens = p tokens := by
  have hmap (tokens : List Token) : tokens.map (Token.moved id) = tokens := List.map_id tokens
  simp only [Follows, hmap, movedResult_id hg]

-- ==================================================== single tokens

/-- What parsers ask about the next token concerns its kind and its lexeme, never its
position. So the questions have the same answers, and what is skipped is the same. -/
@[simp] theorem unexpected_moved (expected : Expected) (tokens : List Token) :
    unexpected (f stop) expected (tokens.map (Token.moved f))
      = (unexpected stop expected tokens).moved f := by
  cases tokens <;> rfl

@[simp] theorem nextIs_moved (kind : Token.Kind) (tokens : List Token) :
    nextIs kind (tokens.map (Token.moved f)) = nextIs kind tokens := by
  cases tokens <;> rfl

@[simp] theorem atStatementEnd_moved (tokens : List Token) :
    atStatementEnd (tokens.map (Token.moved f)) = atStatementEnd tokens := by
  cases tokens <;> rfl

@[simp] theorem atBlockEnd_moved (stops : List Keyword) (tokens : List Token) :
    atBlockEnd stops (tokens.map (Token.moved f)) = atBlockEnd stops tokens := by
  cases tokens <;> rfl

/-- Line ends are seen by their kind, which a move keeps. -/
@[simp] theorem skipNewlines_moved (tokens : List Token) :
    skipNewlines (tokens.map (Token.moved f)) = (skipNewlines tokens).map (Token.moved f) :=
  List.dropWhile_map ..

@[simp] theorem skipSeparators_moved (tokens : List Token) :
    skipSeparators (tokens.map (Token.moved f)) = (skipSeparators tokens).map (Token.moved f) :=
  List.dropWhile_map ..

/-- Positions are not looked at, so the same token is found, moved, or the same error,
moved. -/
private theorem expect_moved (kind : Token.Kind) (expected : Expected) (tokens : List Token) :
    expect (f stop) kind expected (tokens.map (Token.moved f))
      = movedResult f (Token.moved f) (expect stop kind expected tokens) := by
  cases tokens with
  | nil => rfl
  | cons t rest =>
    by_cases hk : t.kind = kind
    · simp [expect, hk, movedResult]
    · simp [expect, hk, movedResult, unexpected, ParseError.moved, Found.moved]

private theorem expect_shrinks {kind : Token.Kind} {expected : Expected} :
    Shrinks (expect stop kind expected) := fun tokens t rest h => by
  obtain ⟨rfl, -⟩ := expect_eq_ok h
  exact Nat.lt_succ_self _

private theorem skipNewlines_length_le (tokens : List Token) :
    (skipNewlines tokens).length ≤ tokens.length :=
  (took_newlines tokens).length

/-- Skipping never makes more tokens. -/
theorem skipSeparators_length_le (tokens : List Token) :
    (skipSeparators tokens).length ≤ tokens.length :=
  (took_separators tokens).length

-- ====================================================== item lists

/-- Lists of items follow when the items do and neither side's rounds run out. -/
theorem commaList_follows {g : α → β} {n : Nat} {p : Parser α} {q : Parser β}
    (hitem : Follows f g n p q) (hp : Shrinks p) (close : Symbol) {r r' : Nat}
    {tokens : List Token} (hlen : tokens.length ≤ n) (hr : tokens.length < r)
    (hr' : tokens.length < r') :
    commaList (f stop) q close r' (tokens.map (Token.moved f))
      = movedResult f (List.map g) (commaList stop p close r tokens) := by
  induction r generalizing r' tokens with
  | zero => omega
  | succ r ih =>
    obtain ⟨r', rfl⟩ : ∃ k, r' = k + 1 := ⟨r' - 1, by omega⟩
    have hskip := skipNewlines_length_le tokens
    simp only [commaList, skipNewlines_moved, nextIs_moved]
    by_cases hclose : nextIs (.symbol close) (skipNewlines tokens) = true
    · rw [if_pos hclose, if_pos hclose, ← List.map_tail]
      rfl
    · rw [if_neg hclose, if_neg hclose]
      refine movedResult_bind (hitem _ (by omega)) fun first behind hfirst => ?_
      have hbehind := hp hfirst
      have hskip' := skipNewlines_length_le behind
      simp only [skipNewlines_moved, nextIs_moved]
      by_cases hcomma : nextIs (.symbol .comma) (skipNewlines behind) = true
      · have htail := List.length_tail (l := skipNewlines behind)
        rw [if_pos hcomma, if_pos hcomma, ← List.map_tail]
        refine movedResult_bind (ih (by omega) (by omega) (by omega)) fun others left _ => ?_
        rfl
      · rw [if_neg hcomma, if_neg hcomma]
        refine movedResult_bind (expect_moved _ _ _) fun t left _ => ?_
        rfl

/-- A name that was seen before is seen before in the moved tokens too. -/
private theorem parameters_follow {r r' : Nat} {tokens : List Token} (hr : tokens.length < r)
    (hr' : tokens.length < r') (seen : List String) :
    parameters (f stop) r' seen (tokens.map (Token.moved f))
      = movedResult f (List.map (Param.moved f)) (parameters stop r seen tokens) := by
  induction r generalizing r' tokens seen with
  | zero => omega
  | succ r ih =>
    obtain ⟨r', rfl⟩ : ∃ k, r' = k + 1 := ⟨r' - 1, by omega⟩
    have hskip := skipNewlines_length_le tokens
    simp only [parameters, skipNewlines_moved, nextIs_moved]
    by_cases hclose : nextIs (.symbol .rightParen) (skipNewlines tokens) = true
    · rw [if_pos hclose, if_pos hclose, ← List.map_tail]
      rfl
    · rw [if_neg hclose, if_neg hclose]
      refine movedResult_bind (expect_moved _ _ _) fun name behind hname => ?_
      have hbehind := expect_shrinks hname
      have hskip' := skipNewlines_length_le behind
      simp only [skipNewlines_moved, nextIs_moved, Token.moved_lexeme, Token.moved_pos]
      by_cases hseen : seen.contains name.lexeme = true
      · rw [if_pos hseen, if_pos hseen]
        rfl
      · rw [if_neg hseen, if_neg hseen]
        by_cases hcomma : nextIs (.symbol .comma) (skipNewlines behind) = true
        · have htail := List.length_tail (l := skipNewlines behind)
          rw [if_pos hcomma, if_pos hcomma, ← List.map_tail]
          refine movedResult_bind (ih (by omega) (by omega) _) fun others left _ => ?_
          rfl
        · rw [if_neg hcomma, if_neg hcomma]
          refine movedResult_bind (expect_moved _ _ _) fun t left _ => ?_
          rfl

private theorem parameterList_follows {r r' : Nat} {tokens : List Token} (hr : tokens.length < r)
    (hr' : tokens.length < r') :
    parameterList (f stop) r' (tokens.map (Token.moved f))
      = movedResult f (List.map (Param.moved f)) (parameterList stop r tokens) := by
  refine movedResult_bind (expect_moved _ _ _) fun t behind ht => ?_
  have hbehind := expect_shrinks ht
  exact parameters_follow (by omega) (by omega) []

-- ========================================================== blocks

/-- Each round of a block reads a statement and thereby a token, so the rounds on both
sides last for all of them. -/
theorem block_follows {n : Nat} {p q : Parser Stmt} (hstmt : Follows f (Stmt.moved f) n p q)
    (hp : Shrinks p) (stops : List Keyword) {r r' : Nat} {tokens : List Token}
    (hlen : tokens.length ≤ n) (hr : tokens.length < r) (hr' : tokens.length < r') :
    block (f stop) q stops r' (tokens.map (Token.moved f))
      = movedResult f (Stmt.movedBody f) (block stop p stops r tokens) := by
  induction r generalizing r' tokens with
  | zero => omega
  | succ r ih =>
    obtain ⟨r', rfl⟩ : ∃ k, r' = k + 1 := ⟨r' - 1, by omega⟩
    have hskip := skipSeparators_length_le tokens
    simp only [block, skipSeparators_moved, atBlockEnd_moved]
    by_cases hend : atBlockEnd stops (skipSeparators tokens) = true
    · rw [if_pos hend, if_pos hend]
      rfl
    · rw [if_neg hend, if_neg hend]
      refine movedResult_bind (hstmt _ (by omega)) fun first behind hfirst => ?_
      have hbehind := hp hfirst
      refine movedResult_bind (ih (by omega) (by omega) (by omega)) fun others left _ => ?_
      rfl

section Nested

variable {n r r' : Nat} {p q : Parser Expr} {ps qs : Parser Stmt}

/-- What the parsers of nested expressions and statements have to offer: on up
to `n` tokens they follow, and they take tokens. -/
structure Nested (f : Position → Position) (n : Nat) (p q : Parser Expr) (ps qs : Parser Stmt) :
    Prop where
  expr : Follows f (Expr.moved f) n p q
  stmt : Follows f (Stmt.moved f) n ps qs
  exprReads : Reads Expr.pieces p
  stmtReads : Reads Stmt.pieces ps

/-- The rounds count statements, of which there are fewer than tokens. -/
private theorem closedBlock_follows (h : Nested f n p q ps qs) {tokens : List Token}
    (hlen : tokens.length ≤ n) (hr : tokens.length < r) (hr' : tokens.length < r') :
    closedBlock (f stop) qs r' (tokens.map (Token.moved f))
      = movedResult f (Stmt.movedBody f) (closedBlock stop ps r tokens) := by
  refine movedResult_bind (block_follows h.stmt h.stmtReads.shrinks _ hlen hr hr')
    fun body behind _ => ?_
  refine movedResult_bind (expect_moved _ _ _) fun t left _ => ?_
  rfl

private theorem functionBody_follows (h : Nested f n p q ps qs) {tokens : List Token}
    (hlen : tokens.length ≤ n) (hr : tokens.length < r) (hr' : tokens.length < r') :
    functionBody (f stop) q qs r' (tokens.map (Token.moved f))
      = movedResult f (Stmt.movedBody f) (functionBody stop p ps r tokens) := by
  simp only [functionBody, nextIs_moved]
  by_cases harrow : nextIs (.symbol .fatArrow) tokens = true
  · have htail := List.length_tail (l := tokens)
    rw [if_pos harrow, if_pos harrow, ← List.map_tail]
    refine movedResult_bind (h.expr _ (by omega)) fun value left _ => ?_
    simp [movedResult, pure, Except.pure, Stmt.moved]
  · rw [if_neg harrow, if_neg harrow]
    exact closedBlock_follows h hlen hr hr'

-- ===================================================== expressions

private theorem entry_follows (h : Nested f n p q ps qs) :
    Follows f (fun e => (e.1.moved f, e.2.moved f)) n (entry stop p) (entry (f stop) q) := by
  intro tokens hlen
  refine movedResult_bind (h.expr _ hlen) fun key ts₁ hkey => ?_
  have hts₁ := h.exprReads.shrinks hkey
  have hskip := skipNewlines_length_le ts₁
  simp only [skipNewlines_moved]
  refine movedResult_bind (expect_moved _ _ _) fun colon ts₂ hcolon => ?_
  have hts₂ := expect_shrinks hcolon
  have hskip' := skipNewlines_length_le ts₂
  simp only [skipNewlines_moved]
  refine movedResult_bind (h.expr _ (by omega)) fun value ts₃ _ => ?_
  rfl

private theorem parenthesized_follows (h : Nested f n p q ps qs) :
    Follows f (Expr.moved f) n (parenthesized stop p) (parenthesized (f stop) q) := by
  intro tokens hlen
  have hskip := skipNewlines_length_le tokens
  simp only [parenthesized, skipNewlines_moved]
  refine movedResult_bind (h.expr _ (by omega)) fun inner ts₁ _ => ?_
  simp only [skipNewlines_moved]
  refine movedResult_bind (expect_moved _ _ _) fun t ts₂ _ => ?_
  rfl

private theorem functionLiteral_follows (h : Nested f n p q ps qs) (pos : Position)
    {tokens : List Token}
    (hlen : tokens.length ≤ n) (hr : tokens.length < r) (hr' : tokens.length < r') :
    functionLiteral (f stop) q qs r' (f pos) (tokens.map (Token.moved f))
      = movedResult f (Expr.moved f) (functionLiteral stop p ps r pos tokens) := by
  refine movedResult_bind (parameterList_follows hr hr') fun params ts₁ hparams => ?_
  have hts₁ := (parameterList_reads r hparams).length
  refine movedResult_bind (functionBody_follows h (by omega) (by omega) (by omega))
    fun body ts₂ _ => ?_
  rfl

/-- An operand opens with a token, so what is nested in it stands behind that. -/
theorem primary_follows (h : Nested f n p q ps qs) {tokens : List Token}
    (hlen : tokens.length ≤ n + 1) (hr : tokens.length ≤ r) (hr' : tokens.length ≤ r') :
    primary (f stop) q qs r' (tokens.map (Token.moved f))
      = movedResult f (Expr.moved f) (primary stop p ps r tokens) := by
  cases tokens with
  | nil => rfl
  | cons t rest =>
    simp only [List.length_cons] at hlen hr hr'
    simp only [primary, List.map_cons, Token.moved_kind, Token.moved_lexeme, Token.moved_pos]
    split
    case h_1 => split <;> rfl
    case h_2 | h_3 | h_4 | h_5 | h_6 => rfl
    case h_7 => exact parenthesized_follows h _ (by omega)
    case h_8 =>
      refine movedResult_bind (commaList_follows h.expr h.exprReads.shrinks _ (by omega) (by omega)
        (by omega)) fun items left _ => ?_
      simp [movedResult, pure, Except.pure, Expr.moved]
    case h_9 =>
      refine movedResult_bind (commaList_follows (entry_follows h)
        (entry_reads h.exprReads).shrinks _ (by omega) (by omega) (by omega))
        fun entries left _ => ?_
      simp [movedResult, pure, Except.pure, Expr.moved]
    case h_10 | h_11 => exact functionLiteral_follows h _ (by omega) (by omega) (by omega)
    case h_12 => rfl

/-- What is in the brackets of a suffix is over fewer tokens, since the bracket was
taken. -/
private theorem suffix?_follows (h : Nested f n p q ps qs) (e : Expr) {tokens : List Token}
    (hlen : tokens.length ≤ n) (hr : tokens.length ≤ r) (hr' : tokens.length ≤ r') :
    suffix? (f stop) q r' (e.moved f) (tokens.map (Token.moved f))
      = (suffix? stop p r e tokens).map (movedResult f (Expr.moved f)) := by
  cases tokens with
  | nil => rfl
  | cons t rest =>
    simp only [List.length_cons] at hlen hr hr'
    have hskip := skipNewlines_length_le rest
    simp only [suffix?, List.map_cons, Token.moved_kind, Token.moved_pos]
    split
    case h_1 =>
      refine congrArg some (movedResult_bind (commaList_follows h.expr h.exprReads.shrinks _
        (by omega) (by omega) (by omega)) fun args left _ => ?_)
      simp [movedResult, pure, Except.pure, Expr.moved]
    case h_2 =>
      simp only [skipNewlines_moved]
      refine congrArg some (movedResult_bind (h.expr _ (by omega)) fun key ts₁ _ => ?_)
      simp only [skipNewlines_moved]
      refine movedResult_bind (expect_moved _ _ _) fun bracket ts₂ _ => ?_
      rfl
    case h_3 =>
      refine congrArg some (movedResult_bind (expect_moved _ _ _) fun member left _ => ?_)
      rfl
    case h_4 => rfl

/-- The chain as a whole is read in as many rounds as there are suffixes. -/
theorem suffixes_follow (h : Nested f n p q ps qs) (e : Expr) {tokens : List Token}
    (hlen : tokens.length ≤ n) (hr : tokens.length < r) (hr' : tokens.length < r') :
    suffixes (f stop) q r' (e.moved f) (tokens.map (Token.moved f))
      = movedResult f (Expr.moved f) (suffixes stop p r e tokens) := by
  induction r generalizing r' e tokens with
  | zero => omega
  | succ r ih =>
    obtain ⟨r', rfl⟩ : ∃ k, r' = k + 1 := ⟨r' - 1, by omega⟩
    simp only [suffixes, suffix?_follows h e hlen (Nat.le_of_lt_succ hr) (Nat.le_of_lt_succ hr')]
    cases hsuffix : suffix? stop p r e tokens with
    | none => rfl
    | some result =>
      cases result with
      | error e => rfl
      | ok a =>
        obtain ⟨e', rest⟩ := a
        obtain ⟨_, -, htook⟩ := suffix?_took h.exprReads r hsuffix
        have hrest := htook.length
        exact ih e' (by omega) (by omega) (by omega)

end Nested

-- ======================================================= operators

section Operators

variable {n r r' : Nat} {p q : Nat → Parser Expr} {ps qs : Parser Stmt}

/-- An operand is a primary and its suffixes, or a sign and an expression behind it. -/
theorem operand_follows (h : ∀ demand, Nested f n (p demand) (q demand) ps qs)
    {tokens : List Token} (hlen : tokens.length ≤ n + 1) (hr : tokens.length ≤ r)
    (hr' : tokens.length ≤ r') :
    operand (f stop) q qs r' (tokens.map (Token.moved f))
      = movedResult f (Expr.moved f) (operand stop p ps r tokens) := by
  cases tokens with
  | nil => rfl
  | cons t rest =>
    simp only [operand, List.map_cons, Token.moved_kind, Token.moved_pos]
    split
    · refine movedResult_bind ((h _).expr _ (Nat.le_of_succ_le_succ hlen)) fun e left _ => ?_
      rfl
    · refine movedResult_bind (primary_follows (h 0) hlen hr hr') fun e left hhead => ?_
      have hleft := (primary_reads (h 0).exprReads (h 0).stmtReads r hhead).length
      exact suffixes_follow (h 0) e (by omega) (by omega) (by omega)

private theorem join_moved (joint : Joint) (pos : Position) (left right : Expr) :
    (joint.join pos left right).moved f = joint.join (f pos) (left.moved f) (right.moved f) := by
  cases joint <;> rfl

/-- Each round of climbing takes an operator, and what stands to the right of it is over
fewer tokens. -/
theorem climb_follows (h : ∀ demand, Nested f n (p demand) (q demand) ps qs) (demand : Nat)
    (left : Expr) {tokens : List Token} (hlen : tokens.length ≤ n) (hr : tokens.length < r)
    (hr' : tokens.length < r') :
    climb (f stop) q demand r' (left.moved f) (tokens.map (Token.moved f))
      = movedResult f (Expr.moved f) (climb stop p demand r left tokens) := by
  induction r generalizing r' left tokens with
  | zero => omega
  | succ r ih =>
    obtain ⟨r', rfl⟩ : ∃ k, r' = k + 1 := ⟨r' - 1, by omega⟩
    cases tokens with
    | nil => rfl
    | cons t rest =>
      simp only [List.length_cons] at hlen hr hr'
      simp only [climb, List.map_cons, Token.moved_kind, Token.moved_pos]
      split
      · rfl
      · next power hpower =>
        by_cases hweak : power.left < demand
        · rw [if_pos hweak, if_pos hweak]
          rfl
        · rw [if_neg hweak, if_neg hweak]
          refine movedResult_bind ((h _).expr _ (by omega)) fun right left' hright => ?_
          have hleft := (h _).exprReads.shrinks hright
          dsimp only
          rw [← join_moved]
          exact ih _ (by omega) (by omega) (by omega)

end Operators

-- ====================================================== statements

section Statements

variable {n r r' : Nat} {p q : Parser Expr} {ps qs : Parser Stmt}

/-- What cannot be assigned to is refused in the same words wherever it
stands. -/
theorem checkTarget_moved (e : Expr) :
    checkTarget (e.moved f) = (checkTarget e).mapError (ParseError.moved f) := by
  fun_induction checkTarget e with
  | case1 => rfl
  | case2 pos collection key ih => exact ih
  | case3 e hname hindex =>
    cases e with
    | name pos name => exact absurd rfl (hname pos name)
    | index pos collection key => exact absurd rfl (hindex pos collection key)
    | _ => rfl

private theorem movedResult_check {g : α → β} (e : Expr) {k : Except ParseError (α × List Token)}
    {k' : Except ParseError (β × List Token)} (hk : k' = movedResult f g k) :
    (checkTarget (e.moved f) >>= fun _ => k') = movedResult f g (checkTarget e >>= fun _ => k) := by
  rw [checkTarget_moved]
  cases checkTarget e with
  | error error => rfl
  | ok a => exact hk

private theorem letStatement_follows (h : Nested f n p q ps qs) (pos : Position) :
    Follows f (Stmt.moved f) n (letStatement stop p pos) (letStatement (f stop) q (f pos)) := by
  intro tokens hlen
  refine movedResult_bind (expect_moved _ _ _) fun name ts₁ hname => ?_
  have hts₁ := expect_shrinks hname
  refine movedResult_bind (expect_moved _ _ _) fun sign ts₂ hsign => ?_
  have hts₂ := expect_shrinks hsign
  refine movedResult_bind (h.expr _ (by omega)) fun value ts₃ _ => ?_
  rfl

private theorem changeStatement_follows (h : Nested f n p q ps qs) (pos : Position) :
    Follows f (Stmt.moved f) n (changeStatement stop p pos)
      (changeStatement (f stop) q (f pos)) := by
  intro tokens hlen
  refine movedResult_bind (h.expr _ hlen) fun target ts₁ htarget => ?_
  have hts₁ := h.exprReads.shrinks htarget
  refine movedResult_check target ?_
  refine movedResult_bind (expect_moved _ _ _) fun word ts₂ hword => ?_
  have hts₂ := expect_shrinks hword
  refine movedResult_bind (h.expr _ (by omega)) fun value ts₃ _ => ?_
  rfl

private theorem optional_then_moved (tokens : List Token) :
    (if nextIs (.keyword .then_) (tokens.map (Token.moved f)) then
        (tokens.map (Token.moved f)).tail
      else tokens.map (Token.moved f))
      = (if nextIs (.keyword .then_) tokens then tokens.tail else tokens).map (Token.moved f) := by
  rw [nextIs_moved, ← List.map_tail]
  split <;> rfl

/-- An arm takes its condition's first token at least, so the next arm is over fewer
tokens. -/
private theorem ifArm_follows (h : Nested f n p q ps qs) (pos : Position) {tokens : List Token}
    (hlen : tokens.length ≤ n) (hr : tokens.length < r) (hr' : tokens.length < r') :
    ifArm (f stop) q qs r' (f pos) (tokens.map (Token.moved f))
      = movedResult f (Stmt.moved f) (ifArm stop p ps r pos tokens) := by
  induction r generalizing r' pos tokens with
  | zero => omega
  | succ r ih =>
    obtain ⟨r', rfl⟩ : ∃ k, r' = k + 1 := ⟨r' - 1, by omega⟩
    simp only [ifArm]
    refine movedResult_bind (h.expr _ hlen) fun condition ts₁ hcondition => ?_
    have hts₁ := h.exprReads.shrinks hcondition
    have hthen := (took_optional_then ts₁).length
    dsimp only
    rw [optional_then_moved]
    refine movedResult_bind (block_follows h.stmt h.stmtReads.shrinks _ (by omega) (by omega)
      (by omega)) fun yes ts₂ hyes => ?_
    have hts₂ := (block_took h.stmtReads _ _ hyes).length
    have harm (next : Position) {rest : List Token} (hrest : rest.length < ts₂.length) :
        (ifArm (f stop) q qs r' (f next) (rest.map (Token.moved f)) >>= fun x =>
          pure (Stmt.if_ (f pos) (condition.moved f) (Stmt.movedBody f yes) (some [x.1]), x.2))
          = movedResult f (Stmt.moved f) (ifArm stop p ps r next rest >>= fun x =>
              pure (Stmt.if_ pos condition yes (some [x.1]), x.2)) := by
      refine movedResult_bind (ih next (by omega) (by omega) (by omega)) fun arm ts₃ _ => ?_
      rfl
    have helse (rest : List Token) (hrest : rest.length < ts₂.length) :
        (block (f stop) qs [.end_] r' (rest.map (Token.moved f)) >>= fun x =>
          pure (Stmt.if_ (f pos) (condition.moved f) (Stmt.movedBody f yes) (some x.1), x.2))
          = movedResult f (Stmt.moved f) (block stop ps [.end_] r rest >>= fun x =>
              pure (Stmt.if_ pos condition yes (some x.1), x.2)) := by
      refine movedResult_bind (block_follows h.stmt h.stmtReads.shrinks _ (by omega) (by omega)
        (by omega)) fun no ts₃ _ => ?_
      rfl
    -- the next keyword, and for `else` the one behind it, says which arm follows
    dsimp only
    rcases ts₂ with _ | ⟨⟨kind, lexeme, next⟩, ts⟩
    · rfl
    · cases kind with
      | keyword k =>
        cases k with
        | elif => exact harm next (by simp)
        | else_ =>
          rcases ts with _ | ⟨⟨kind', lexeme', next'⟩, ts'⟩
          · exact helse [] (by simp)
          · cases kind' with
            | keyword k' =>
              cases k' with
              | if_ => exact harm next' (Nat.lt_succ_of_lt (Nat.lt_succ_self _))
              | _ => exact helse (⟨_, lexeme', next'⟩ :: ts') (by simp)
            | _ => exact helse (⟨_, lexeme', next'⟩ :: ts') (by simp)
        | _ => rfl
      | _ => rfl

private theorem ifStatement_follows (h : Nested f n p q ps qs) (pos : Position)
    {tokens : List Token}
    (hlen : tokens.length ≤ n) (hr : tokens.length < r) (hr' : tokens.length < r') :
    ifStatement (f stop) q qs r' (f pos) (tokens.map (Token.moved f))
      = movedResult f (Stmt.moved f) (ifStatement stop p ps r pos tokens) := by
  refine movedResult_bind (ifArm_follows h pos hlen hr hr') fun arms ts₁ _ => ?_
  refine movedResult_bind (expect_moved _ _ _) fun word ts₂ _ => ?_
  rfl

private theorem whileStatement_follows (h : Nested f n p q ps qs) (pos : Position)
    {tokens : List Token}
    (hlen : tokens.length ≤ n) (hr : tokens.length < r) (hr' : tokens.length < r') :
    whileStatement (f stop) q qs r' (f pos) (tokens.map (Token.moved f))
      = movedResult f (Stmt.moved f) (whileStatement stop p ps r pos tokens) := by
  refine movedResult_bind (h.expr _ hlen) fun condition ts₁ hcondition => ?_
  have hts₁ := h.exprReads.shrinks hcondition
  refine movedResult_bind (closedBlock_follows h (by omega) (by omega) (by omega))
    fun body ts₂ _ => ?_
  rfl

private theorem forStatement_follows (h : Nested f n p q ps qs) (pos : Position)
    {tokens : List Token}
    (hlen : tokens.length ≤ n) (hr : tokens.length < r) (hr' : tokens.length < r') :
    forStatement (f stop) q qs r' (f pos) (tokens.map (Token.moved f))
      = movedResult f (Stmt.moved f) (forStatement stop p ps r pos tokens) := by
  refine movedResult_bind (expect_moved _ _ _) fun name ts₁ hname => ?_
  have hts₁ := expect_shrinks hname
  refine movedResult_bind (expect_moved _ _ _) fun word ts₂ hword => ?_
  have hts₂ := expect_shrinks hword
  refine movedResult_bind (h.expr _ (by omega)) fun iterable ts₃ hiterable => ?_
  have hts₃ := h.exprReads.shrinks hiterable
  refine movedResult_bind (closedBlock_follows h (by omega) (by omega) (by omega))
    fun body ts₄ _ => ?_
  rfl

private theorem functionStatement_follows (h : Nested f n p q ps qs) (keyword : Keyword)
    (pos : Position)
    {tokens : List Token} (hlen : tokens.length ≤ n) (hr : tokens.length < r)
    (hr' : tokens.length < r') :
    functionStatement (f stop) q qs r' keyword (f pos) (tokens.map (Token.moved f))
      = movedResult f (Stmt.moved f) (functionStatement stop p ps r keyword pos tokens) := by
  refine movedResult_bind (expect_moved _ _ _) fun name ts₁ hname => ?_
  have hts₁ := expect_shrinks hname
  refine movedResult_bind (parameterList_follows (by omega) (by omega)) fun params ts₂ hparams => ?_
  have hts₂ := (parameterList_reads r hparams).length
  dsimp only
  rw [nextIs_moved, unexpected_moved]
  split
  · rfl
  · refine movedResult_bind (functionBody_follows h (by omega) (by omega) (by omega))
      fun body ts₃ _ => ?_
    rfl

private theorem returnStatement_follows (h : Nested f n p q ps qs) (pos : Position) :
    Follows f (Stmt.moved f) n (returnStatement p pos) (returnStatement q (f pos)) := by
  intro tokens hlen
  simp only [returnStatement, atStatementEnd_moved]
  by_cases hend : atStatementEnd tokens = true
  · rw [if_pos hend, if_pos hend]
    rfl
  · rw [if_neg hend, if_neg hend]
    refine movedResult_bind (h.expr _ hlen) fun value ts₁ _ => ?_
    rfl

private theorem expressionStatement_follows (h : Follows f (Expr.moved f) n p q) (hp : Shrinks p) :
    Follows f (Stmt.moved f) n (expressionStatement p) (expressionStatement q) := by
  intro tokens hlen
  refine movedResult_bind (h _ hlen) fun e ts₁ he => ?_
  have hts₁ := hp he
  cases ts₁ with
  | nil => simp [movedResult, pure, Except.pure, Stmt.moved]
  | cons t rest =>
    simp only [List.length_cons] at hts₁
    simp only [List.map_cons, Token.moved_kind, Expr.moved_pos]
    split
    · simp [movedResult, pure, Except.pure, Stmt.moved]
    · refine movedResult_check e ?_
      refine movedResult_bind (h _ (by omega)) fun value ts₂ _ => ?_
      rfl

/-- A statement opens with a keyword, behind which its parts stand, or it is an
expression from its first token on. -/
private theorem openStatement_follows (h : Nested f n p q ps qs)
    (hwhole : Follows f (Expr.moved f) (n + 1) p q) {tokens : List Token}
    (hlen : tokens.length ≤ n + 1) (hr : tokens.length ≤ r) (hr' : tokens.length ≤ r') :
    openStatement (f stop) q qs r' (tokens.map (Token.moved f))
      = movedResult f (Stmt.moved f) (openStatement stop p ps r tokens) := by
  have hexpression := expressionStatement_follows hwhole h.exprReads.shrinks
  cases tokens with
  | nil => exact hexpression [] (by simp)
  | cons t rest =>
    have hwhole := hexpression (t :: rest) hlen
    simp only [List.length_cons] at hlen hr hr'
    simp only [openStatement, List.map_cons, Token.moved_kind, Token.moved_pos, nextIs_moved]
    split
    case h_1 => exact letStatement_follows h _ _ (by omega)
    case h_2 => exact changeStatement_follows h _ _ (by omega)
    case h_3 => exact ifStatement_follows h _ (by omega) (by omega) (by omega)
    case h_4 => exact whileStatement_follows h _ (by omega) (by omega) (by omega)
    case h_5 => exact forStatement_follows h _ (by omega) (by omega) (by omega)
    case h_6 => exact returnStatement_follows h _ _ (by omega)
    case h_7 | h_8 => rfl
    case h_9 k _ _ _ _ _ _ _ _ _ =>
      split
      · exact functionStatement_follows h k _ (by omega) (by omega) (by omega)
      · exact hwhole
    case h_10 => exact hwhole

private theorem statementEnd_moved (tokens : List Token) :
    statementEnd (f stop) (tokens.map (Token.moved f))
      = match statementEnd stop tokens with
        | .ok rest => .ok (rest.map (Token.moved f))
        | .error e => .error (e.moved f) := by
  simp only [statementEnd, nextIs_moved, atStatementEnd_moved, unexpected_moved, ← List.map_tail]
  split
  · rfl
  · split <;> rfl

/-- A statement and what ends it. The end may be a token that is left alone, so it does
not count for the length. -/
theorem endedStatement_follows (h : Nested f n p q ps qs)
    (hwhole : Follows f (Expr.moved f) (n + 1) p q) {tokens : List Token}
    (hlen : tokens.length ≤ n + 1) (hr : tokens.length ≤ r) (hr' : tokens.length ≤ r') :
    endedStatement (f stop) q qs r' (tokens.map (Token.moved f))
      = movedResult f (Stmt.moved f) (endedStatement stop p ps r tokens) := by
  refine movedResult_bind (openStatement_follows h hwhole hlen hr hr') fun s ts₁ _ => ?_
  dsimp only
  rw [statementEnd_moved]
  cases statementEnd stop ts₁ <;> rfl

end Statements

-- ======================================================== the knot

/-- The parsers of one depth, as those of the next depth call them. -/
def Knot (f : Position → Position) (stop : Position) (n depth depth' : Nat) : Prop :=
  ∀ demand, Nested f n (expression stop depth demand) (expression (f stop) depth' demand)
    (statement stop depth) (statement (f stop) depth')

/-- One layer more of depth reaches one token further. -/
private theorem expression_follows {n depth depth' : Nat} (h : Knot f stop n depth depth')
    (hdepth : n + 1 ≤ depth) (hdepth' : n + 1 ≤ depth') (demand : Nat) :
    Follows f (Expr.moved f) (n + 1) (expression stop (depth + 1) demand)
      (expression (f stop) (depth' + 1) demand) := by
  intro tokens hlen
  simp only [expression]
  refine movedResult_bind (operand_follows h hlen (by omega) (by omega)) fun left ts₁ hleft => ?_
  have hts₁ := (operand_reads (fun demand => (h demand).exprReads) (h 0).stmtReads _ hleft).length
  exact climb_follows h demand left (by omega) (by omega) (by omega)

/-- One layer of the recursion through statements: everything nested is shorter, and the
whole expression is taken from `hwhole`. -/
private theorem statement_follows {n depth depth' : Nat} (h : Knot f stop n depth depth')
    (hwhole : Follows f (Expr.moved f) (n + 1) (expression stop depth 0)
      (expression (f stop) depth' 0))
    (hdepth : n + 1 ≤ depth) (hdepth' : n + 1 ≤ depth') :
    Follows f (Stmt.moved f) (n + 1) (statement stop (depth + 1))
      (statement (f stop) (depth' + 1)) := by
  intro tokens hlen
  simp only [statement]
  exact endedStatement_follows (h 0) hwhole hlen (by omega) (by omega)

/-- Expressions need a depth of twice the number of tokens and one more,
statements of two more; above that the depth plays no part. -/
theorem follows (f : Position → Position) (stop : Position) (n : Nat) :
    (∀ depth depth', 2 * n + 1 ≤ depth → 2 * n + 1 ≤ depth' → ∀ demand,
      Follows f (Expr.moved f) n (expression stop depth demand)
        (expression (f stop) depth' demand))
    ∧ (∀ depth depth', 2 * n + 2 ≤ depth → 2 * n + 2 ≤ depth' →
      Follows f (Stmt.moved f) n (statement stop depth) (statement (f stop) depth')) := by
  induction n with
  | zero =>
    refine ⟨fun depth depth' hd hd' demand tokens hlen => ?_,
      fun depth depth' hd hd' tokens hlen => ?_⟩
    · obtain ⟨depth, rfl⟩ : ∃ k, depth = k + 1 := ⟨depth - 1, by omega⟩
      obtain ⟨depth', rfl⟩ : ∃ k, depth' = k + 1 := ⟨depth' - 1, by omega⟩
      obtain rfl := List.length_eq_zero_iff.1 (Nat.le_zero.1 hlen)
      rfl
    · obtain ⟨depth, rfl⟩ : ∃ k, depth = k + 2 := ⟨depth - 2, by omega⟩
      obtain ⟨depth', rfl⟩ : ∃ k, depth' = k + 2 := ⟨depth' - 2, by omega⟩
      obtain rfl := List.length_eq_zero_iff.1 (Nat.le_zero.1 hlen)
      rfl
  | succ n ih =>
    -- a statement costs a level more than the expressions in it, which the two bounds allow
    -- for
    have hknot {depth depth' : Nat} (hd : 2 * n + 2 ≤ depth) (hd' : 2 * n + 2 ≤ depth') :
        Knot f stop n depth depth' := fun demand =>
      ⟨ih.1 depth depth' (by omega) (by omega) demand, ih.2 depth depth' hd hd',
        (reads stop depth).1 demand, (reads stop depth).2⟩
    have hexpr (depth depth' : Nat) (hd : 2 * (n + 1) + 1 ≤ depth) (hd' : 2 * (n + 1) + 1 ≤ depth')
        (demand : Nat) : Follows f (Expr.moved f) (n + 1) (expression stop depth demand)
          (expression (f stop) depth' demand) := by
      obtain ⟨depth, rfl⟩ : ∃ k, depth = k + 1 := ⟨depth - 1, by omega⟩
      obtain ⟨depth', rfl⟩ : ∃ k, depth' = k + 1 := ⟨depth' - 1, by omega⟩
      exact expression_follows (hknot (by omega) (by omega)) (by omega) (by omega) demand
    refine ⟨hexpr, fun depth depth' hd hd' => ?_⟩
    obtain ⟨depth, rfl⟩ : ∃ k, depth = k + 1 := ⟨depth - 1, by omega⟩
    obtain ⟨depth', rfl⟩ : ∃ k, depth' = k + 1 := ⟨depth' - 1, by omega⟩
    exact statement_follows (hknot (by omega) (by omega)) (hexpr _ _ (by omega) (by omega) 0)
      (by omega) (by omega)

-- ======================================================== programs

/-- A whole program reads the same with every budget from `depthFor` on, and
moving its tokens moves it. -/
theorem program_follows (f : Position → Position) (stop : Position) (tokens : List Token)
    {depth depth' rounds rounds' : Nat} (hd : depthFor tokens ≤ depth)
    (hd' : depthFor tokens ≤ depth') (hr : depthFor tokens ≤ rounds)
    (hr' : depthFor tokens ≤ rounds') :
    block (f stop) (statement (f stop) depth') [] rounds' (tokens.map (Token.moved f))
      = movedResult f (Stmt.movedBody f) (block stop (statement stop depth) [] rounds tokens) := by
  unfold depthFor at hd hd' hr hr'
  exact block_follows ((follows f stop tokens.length).2 _ _ hd hd') (reads stop depth).2.shrinks []
    (Nat.le_refl _) (by omega) (by omega)

/-- Every budget from `depthFor` on is enough. -/
theorem block_eq_of_depthFor_le (stop : Position) (tokens : List Token)
    {depth depth' rounds rounds' : Nat} (hd : depthFor tokens ≤ depth)
    (hd' : depthFor tokens ≤ depth') (hr : depthFor tokens ≤ rounds)
    (hr' : depthFor tokens ≤ rounds') :
    block stop (statement stop depth') [] rounds' tokens
      = block stop (statement stop depth) [] rounds tokens := by
  have hmap : tokens.map (Token.moved id) = tokens := List.map_id tokens
  have h := program_follows id stop tokens hd hd' hr hr'
  rwa [movedResult_id Program.moved_id, hmap] at h

/-- The program that tokens spell, read with any budget that is enough. -/
theorem program_eq_of_depthFor_le (stop : Position) (tokens : List Token) {depth rounds : Nat}
    (hd : depthFor tokens ≤ depth) (hr : depthFor tokens ≤ rounds) :
    program stop tokens
      = block stop (statement stop depth) [] rounds tokens >>= fun a => pure a.1 := by
  rw [← block_eq_of_depthFor_le stop tokens hd (Nat.le_refl _) hr (Nat.le_refl _)]
  rfl

/-- Moving the tokens of a program moves the program, or the error. -/
theorem program_moved (f : Position → Position) (stop : Position) (tokens : List Token) :
    program (f stop) (tokens.map (Token.moved f))
      = match program stop tokens with
        | .ok statements => .ok (Program.moved f statements)
        | .error e => .error (e.moved f) := by
  have hdepth : depthFor (tokens.map (Token.moved f)) = depthFor tokens := by
    simp only [depthFor, List.length_map]
  simp only [program, hdepth,
    program_follows f stop tokens (Nat.le_refl (depthFor tokens)) (Nat.le_refl _)
      (Nat.le_refl (depthFor tokens)) (Nat.le_refl _)]
  cases block stop (statement stop (depthFor tokens)) [] (depthFor tokens) tokens <;> rfl

end Scriptlet.Parser
