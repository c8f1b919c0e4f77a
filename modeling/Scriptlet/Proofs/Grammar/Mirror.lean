/-
What parsers see of their tokens. They look at the first tokens one by one, and of the end
they see only that nothing is left: an end mark and the end of the list are the same to
them, and nobody reads on behind an end mark. So two lists of tokens that agree as far as
that goes are read alike, with errors that agree where the lists do.

# What agreement is

A `Mirror` says when two lists agree and when two errors do. All that is asked of it is
`next`, which takes agreeing lists apart: both are at their end, or they begin with the
same token and agree behind it. Which further facts agreement holds is left open, and every
choice gives a theorem about the grammar of its own. With equal lists that are followed by
a given end it says that reading does not pass an end; with a list and its part before the
first end mark, that reading does not see what is behind it; with equal lists whose numbers
are well spelled, that no error is about a number.

# How the induction goes

There is one lemma for each parser, from the parsers it is built from (`Mirror.Reflects`).
Both sides have the same budget, so the induction on the depth needs nothing else.
-/
import Scriptlet.Grammar

namespace Scriptlet.Parser

-- ========================================================= the end

/-- Nothing is left to read: the list is at its end, or at an end mark. -/
def AtEnd (tokens : List Token) : Prop := ∀ t ∈ tokens.head?, t.kind = .eof

namespace AtEnd

variable {tokens : List Token} {stop : Position}

/-- The two ends that parsers cannot tell apart. -/
theorem eq (h : AtEnd tokens) : tokens = [] ∨ ∃ t rest, tokens = t :: rest ∧ t.kind = .eof := by
  cases tokens with
  | nil => exact .inl rfl
  | cons t rest => exact .inr ⟨t, rest, rfl, h t rfl⟩

/-- No token stands at the end, so none of the wanted ones does. -/
theorem nextIs_eq_false (h : AtEnd tokens) {kind : Token.Kind} (hkind : kind ≠ .eof) :
    nextIs kind tokens = false := by
  rcases h.eq with rfl | ⟨t, rest, rfl, ht⟩
  · rfl
  · exact decide_eq_false fun heq => hkind (heq.symm.trans ht)

/-- What is asked for at the end is missed there, and nothing is taken. -/
private theorem expect_eq (h : AtEnd tokens) {kind : Token.Kind} (hkind : kind ≠ .eof)
    (expected : Expected) :
    expect stop kind expected tokens = .error (unexpected stop expected tokens) := by
  rcases h.eq with rfl | ⟨t, rest, rfl, ht⟩
  · rfl
  · exact if_neg fun heq => hkind (heq.symm.trans ht)

/-- A parser that skips what is not the end stays at the end. -/
private theorem dropWhile_eq (h : AtEnd tokens) {skip : Token → Bool}
    (hskip : ∀ t : Token, t.kind = .eof → skip t = false) : tokens.dropWhile skip = tokens := by
  rcases h.eq with rfl | ⟨t, rest, rfl, ht⟩
  · rfl
  · rw [List.dropWhile_cons, hskip t ht]
    rfl

/-- A statement may end with its tokens, as may a block. -/
theorem atStatementEnd_eq (h : AtEnd tokens) : atStatementEnd tokens = true := by
  rcases h.eq with rfl | ⟨t, rest, rfl, ht⟩
  · rfl
  · simp only [atStatementEnd, ht]

private theorem atBlockEnd_eq (h : AtEnd tokens) (stops : List Keyword) :
    atBlockEnd stops tokens = true := by
  rcases h.eq with rfl | ⟨t, rest, rfl, ht⟩
  · rfl
  · simp only [atBlockEnd, ht]

/-- Each parser at the end of its tokens: those that need one refuse, those that could go
on stop. -/
private theorem primary_eq (h : AtEnd tokens) {p : Parser Expr} {ps : Parser Stmt} {rounds : Nat} :
    primary stop p ps rounds tokens = .error (unexpected stop .expression tokens) := by
  rcases h.eq with rfl | ⟨t, rest, rfl, ht⟩
  · rfl
  · simp only [primary, ht]

private theorem suffix?_eq (h : AtEnd tokens) {p : Parser Expr} {rounds : Nat} (e : Expr) :
    suffix? stop p rounds e tokens = none := by
  rcases h.eq with rfl | ⟨t, rest, rfl, ht⟩
  · rfl
  · simp only [suffix?, ht]

/-- At the end no operand can start, so the error says that an expression is missing. -/
theorem operand_eq (h : AtEnd tokens) {p : Nat → Parser Expr} {ps : Parser Stmt} {rounds : Nat} :
    operand stop p ps rounds tokens = .error (unexpected stop .expression tokens) := by
  rcases h.eq with rfl | ⟨t, rest, rfl, ht⟩
  · rfl
  · simp only [operand, ht, unaryOf?, primary]
    rfl

/-- At the end no operator follows, and the expression on the left is the result. -/
private theorem climb_eq (h : AtEnd tokens) {p : Nat → Parser Expr} {demand rounds : Nat}
    {left : Expr} : climb stop p demand (rounds + 1) left tokens = .ok (left, tokens) := by
  rcases h.eq with rfl | ⟨t, rest, rfl, ht⟩
  · rfl
  · simp only [climb, ht, Power.of?]

/-- No keyword opens a statement here, so it is read as an expression. -/
private theorem openStatement_eq (h : AtEnd tokens) {p : Parser Expr} {ps : Parser Stmt}
    {rounds : Nat} : openStatement stop p ps rounds tokens = expressionStatement p tokens := by
  rcases h.eq with rfl | ⟨t, rest, rfl, ht⟩
  · rfl
  · simp only [openStatement, ht]

end AtEnd

/-- Where no keyword closes a block, only the end does. -/
theorem atEnd_of_atBlockEnd {tokens : List Token} (h : atBlockEnd [] tokens = true) :
    AtEnd tokens := by
  cases tokens with
  | nil => exact fun _ ht => nomatch ht
  | cons t rest =>
    simp only [atBlockEnd] at h
    split at h
    · next ht => exact fun u hu => Option.some.inj hu ▸ ht
    · simp at h
    · cases h

/-- The first token is meant to be a number and is none. -/
def BadNumber (tokens : List Token) : Prop :=
  ∃ t ∈ tokens.head?, t.kind = .number ∧ Number.ofText? t.lexeme = none

-- ======================================================= agreement

/-- When two lists of tokens agree, and when two errors do. -/
structure Mirror where
  stop : Position
  stop' : Position
  Tokens : List Token → List Token → Prop
  Errors : ParseError → ParseError → Prop
  next : ∀ {tokens tokens' : List Token}, Tokens tokens tokens' →
    (AtEnd tokens ∧ AtEnd tokens')
      ∨ ∃ t rest rest', tokens = t :: rest ∧ tokens' = t :: rest' ∧ t.kind ≠ .eof
        ∧ Tokens rest rest'
  refused : ∀ {tokens tokens' : List Token} {expected : Expected}, Tokens tokens tokens' →
    (expected = .number → BadNumber tokens) →
      Errors (unexpected stop expected tokens) (unexpected stop' expected tokens')
  own : ∀ e : ParseError, e.expected = .distinctParameters ∨ e.expected = .assignmentTarget →
    Errors e e

namespace Mirror

variable {α β : Type} {M : Mirror}

/-- Readings that agree: they give the same and leave lists that agree, or both are
refused. -/
inductive Results (M : Mirror) : Except ParseError (α × List Token) →
    Except ParseError (α × List Token) → Prop where
  | ok (x : α) {rest rest' : List Token} (h : M.Tokens rest rest') :
      Results M (.ok (x, rest)) (.ok (x, rest'))
  | error {e e' : ParseError} (h : M.Errors e e') : Results M (.error e) (.error e')

/-- On lists that agree, the readings of two parsers do. -/
def Reflects (M : Mirror) (p q : Parser α) : Prop :=
  ∀ ⦃tokens tokens' : List Token⦄, M.Tokens tokens tokens' → M.Results (p tokens) (q tokens')

/-- Steps in turn agree if each does. -/
theorem Results.bind {x x' : Except ParseError (α × List Token)} (h : M.Results x x')
    {k k' : α × List Token → Except ParseError (β × List Token)}
    (hk : ∀ a rest rest', M.Tokens rest rest' → M.Results (k (a, rest)) (k' (a, rest'))) :
    M.Results (x >>= k) (x' >>= k') := by
  cases h with
  | ok a hrest => exact hk a _ _ hrest
  | error he => exact .error he

end Mirror

variable {α : Type} {M : Mirror}

/-- Both readings miss the same thing, each at its own place. Only where a number is missed
is more asked, namely a lexeme that is none; that case is `primary_reflects`. -/
private theorem refused_reflects {tokens tokens' : List Token} (h : M.Tokens tokens tokens')
    (expected : Expected) (hexpected : expected ≠ .number) :
    M.Results (α := α) (.error (unexpected M.stop expected tokens))
      (.error (unexpected M.stop' expected tokens')) :=
  .error (M.refused h fun heq => absurd heq hexpected)

-- ================================================== the next token

section Next

variable {tokens tokens' : List Token}

/-- The end mark apart, the next token is of a kind in one list where it is in the
other. -/
private theorem nextIs_reflects (h : M.Tokens tokens tokens') (kind : Token.Kind)
    (hkind : kind ≠ .eof) : nextIs kind tokens' = nextIs kind tokens := by
  rcases M.next h with ⟨hend, hend'⟩ | ⟨t, rest, rest', rfl, rfl, -, -⟩
  · rw [hend.nextIs_eq_false hkind, hend'.nextIs_eq_false hkind]
  · rfl

/-- A token that is no end mark may be taken from both lists. -/
private theorem tail_reflects (h : M.Tokens tokens tokens') {kind : Token.Kind}
    (hkind : kind ≠ .eof)
    (hnext : nextIs kind tokens = true) : M.Tokens tokens.tail tokens'.tail := by
  rcases M.next h with ⟨hend, -⟩ | ⟨t, rest, rest', rfl, rfl, -, hrest⟩
  · rw [hend.nextIs_eq_false hkind] at hnext
    exact Bool.noConfusion hnext
  · exact hrest

/-- What passes over tokens stops at an end mark. -/
theorem dropWhile_reflects {skip : Token → Bool}
    (hskip : ∀ t : Token, t.kind = .eof → skip t = false) (h : M.Tokens tokens tokens') :
    M.Tokens (tokens.dropWhile skip) (tokens'.dropWhile skip) := by
  induction tokens generalizing tokens' with
  | nil =>
    rcases M.next h with ⟨hend, hend'⟩ | ⟨t, rest, rest', heq, -, -, -⟩
    · rwa [hend'.dropWhile_eq hskip]
    · cases heq
  | cons t rest ih =>
    rcases M.next h with ⟨hend, hend'⟩ | ⟨t, rest, rest', heq, rfl, -, hrest⟩
    · rwa [hend.dropWhile_eq hskip, hend'.dropWhile_eq hskip]
    · obtain ⟨rfl, rfl⟩ := List.cons.inj heq
      rw [List.dropWhile_cons, List.dropWhile_cons]
      by_cases ht : skip t = true
      · rw [if_pos ht, if_pos ht]
        exact ih hrest
      · rwa [if_neg ht, if_neg ht]

private theorem skipNewlines_reflects (h : M.Tokens tokens tokens') :
    M.Tokens (skipNewlines tokens) (skipNewlines tokens') :=
  dropWhile_reflects (fun t ht => by simp [ht]) h

private theorem skipSeparators_reflects (h : M.Tokens tokens tokens') :
    M.Tokens (skipSeparators tokens) (skipSeparators tokens') :=
  dropWhile_reflects (fun t ht => by simp [ht]) h

private theorem atStatementEnd_reflects (h : M.Tokens tokens tokens') :
    atStatementEnd tokens' = atStatementEnd tokens := by
  rcases M.next h with ⟨hend, hend'⟩ | ⟨t, rest, rest', rfl, rfl, -, -⟩
  · rw [hend.atStatementEnd_eq, hend'.atStatementEnd_eq]
  · rfl

private theorem atBlockEnd_reflects (h : M.Tokens tokens tokens') (stops : List Keyword) :
    atBlockEnd stops tokens' = atBlockEnd stops tokens := by
  rcases M.next h with ⟨hend, hend'⟩ | ⟨t, rest, rest', rfl, rfl, -, -⟩
  · rw [hend.atBlockEnd_eq, hend'.atBlockEnd_eq]
  · rfl

end Next

/-- A token that is asked for is found in both lists or in neither; the end mark is never
asked for here. -/
private theorem expect_reflects {kind : Token.Kind} {expected : Expected} (hkind : kind ≠ .eof)
    (hexpected : expected ≠ .number) :
    M.Reflects (expect M.stop kind expected) (expect M.stop' kind expected) := by
  intro tokens tokens' h
  have hrefused := refused_reflects (α := Token) h expected hexpected
  rcases M.next h with ⟨hend, hend'⟩ | ⟨t, rest, rest', rfl, rfl, -, hrest⟩
  · rwa [hend.expect_eq hkind, hend'.expect_eq hkind]
  · simp only [expect]
    by_cases ht : t.kind = kind
    · rw [if_pos ht, if_pos ht]
      exact .ok t hrest
    · rwa [if_neg ht, if_neg ht]

private theorem expectKeyword_reflects (k : Keyword) :
    M.Reflects (expectKeyword M.stop k) (expectKeyword M.stop' k) :=
  expect_reflects (by simp) (by simp)

-- ===================================================== item lists

/-- Rounds of a list go in step: agreeing lists have a comma or a close in the same
places. -/
theorem commaList_reflects {p q : Parser α} (hitem : M.Reflects p q) (close : Symbol)
    (rounds : Nat) :
    M.Reflects (commaList M.stop p close rounds) (commaList M.stop' q close rounds) := by
  induction rounds with
  | zero => exact fun _ _ h => refused_reflects h _ (by simp)
  | succ rounds ih =>
    intro tokens tokens' h
    have hskip := skipNewlines_reflects h
    simp only [commaList, nextIs_reflects hskip (.symbol close) (by simp)]
    by_cases hclose : nextIs (.symbol close) (skipNewlines tokens) = true
    · rw [if_pos hclose, if_pos hclose]
      exact .ok _ (tail_reflects hskip (by simp) hclose)
    · rw [if_neg hclose, if_neg hclose]
      refine (hitem hskip).bind fun first ts ts' hts => ?_
      have hskip' := skipNewlines_reflects hts
      simp only [nextIs_reflects hskip' (.symbol .comma) (by simp)]
      by_cases hcomma : nextIs (.symbol .comma) (skipNewlines ts) = true
      · rw [if_pos hcomma, if_pos hcomma]
        exact (ih (tail_reflects hskip' (by simp) hcomma)).bind fun others _ _ hrest =>
          .ok _ hrest
      · rw [if_neg hcomma, if_neg hcomma]
        exact (expect_reflects (by simp) (by simp) hskip').bind fun _ _ _ hrest =>
          .ok _ hrest

/-- Parameters, where a name that was seen before is refused at that name on both
sides. -/
private theorem parameters_reflects (rounds : Nat) (seen : List String) :
    M.Reflects (parameters M.stop rounds seen) (parameters M.stop' rounds seen) := by
  induction rounds generalizing seen with
  | zero => exact fun _ _ h => refused_reflects h _ (by simp)
  | succ rounds ih =>
    intro tokens tokens' h
    have hskip := skipNewlines_reflects h
    simp only [parameters, nextIs_reflects hskip (.symbol .rightParen) (by simp)]
    by_cases hclose : nextIs (.symbol .rightParen) (skipNewlines tokens) = true
    · rw [if_pos hclose, if_pos hclose]
      exact .ok _ (tail_reflects hskip (by simp) hclose)
    · rw [if_neg hclose, if_neg hclose]
      refine (expect_reflects (by simp) (by simp) hskip).bind fun name ts ts' hts => ?_
      have hskip' := skipNewlines_reflects hts
      simp only [nextIs_reflects hskip' (.symbol .comma) (by simp)]
      by_cases hseen : seen.contains name.lexeme = true
      · rw [if_pos hseen, if_pos hseen]
        exact .error (M.own _ (.inl rfl))
      · rw [if_neg hseen, if_neg hseen]
        by_cases hcomma : nextIs (.symbol .comma) (skipNewlines ts) = true
        · rw [if_pos hcomma, if_pos hcomma]
          exact (ih _ (tail_reflects hskip' (by simp) hcomma)).bind fun others _ _ hrest =>
            .ok _ hrest
        · rw [if_neg hcomma, if_neg hcomma]
          exact (expect_reflects (by simp) (by simp) hskip').bind fun _ _ _ hrest =>
            .ok _ hrest

private theorem parameterList_reflects (rounds : Nat) :
    M.Reflects (parameterList M.stop rounds) (parameterList M.stop' rounds) := fun _ _ h =>
  (expect_reflects (by simp) (by simp) h).bind fun _ _ _ hts => parameters_reflects rounds [] hts

-- ========================================================== blocks

/-- Statements of a block are read in step, and the block ends on both sides at once. -/
theorem block_reflects {p q : Parser Stmt} (hstmt : M.Reflects p q) (stops : List Keyword)
    (rounds : Nat) :
    M.Reflects (block M.stop p stops rounds) (block M.stop' q stops rounds) := by
  induction rounds with
  | zero => exact fun _ _ h => refused_reflects h _ (by simp)
  | succ rounds ih =>
    intro tokens tokens' h
    have hskip := skipSeparators_reflects h
    simp only [block, atBlockEnd_reflects hskip]
    by_cases hend : atBlockEnd stops (skipSeparators tokens) = true
    · rw [if_pos hend, if_pos hend]
      exact .ok [] hskip
    · rw [if_neg hend, if_neg hend]
      refine (hstmt hskip).bind fun first ts ts' hts => ?_
      exact (ih hts).bind fun others _ _ hrest => .ok _ hrest

section Nested

variable {p q : Parser Expr} {ps qs : Parser Stmt} {rounds : Nat}

/-- A block and the `end` behind it. -/
private theorem closedBlock_reflects (hs : M.Reflects ps qs) :
    M.Reflects (closedBlock M.stop ps rounds) (closedBlock M.stop' qs rounds) := fun _ _ h =>
  (block_reflects hs [.end_] rounds h).bind fun body _ _ hts =>
    (expectKeyword_reflects .end_ hts).bind fun _ _ _ hrest => .ok body hrest

private theorem functionBody_reflects (he : M.Reflects p q) (hs : M.Reflects ps qs) :
    M.Reflects (functionBody M.stop p ps rounds) (functionBody M.stop' q qs rounds) := by
  intro tokens tokens' h
  simp only [functionBody, nextIs_reflects h (.symbol .fatArrow) (by simp)]
  by_cases harrow : nextIs (.symbol .fatArrow) tokens = true
  · rw [if_pos harrow, if_pos harrow]
    exact (he (tail_reflects h (by simp) harrow)).bind fun value _ _ hrest =>
      .ok _ hrest
  · rw [if_neg harrow, if_neg harrow]
    exact closedBlock_reflects hs h

-- ===================================================== expressions

private theorem entry_reflects (he : M.Reflects p q) :
    M.Reflects (entry M.stop p) (entry M.stop' q) := by
  intro tokens tokens' h
  refine (he h).bind fun key _ _ hkey => ?_
  refine (expect_reflects (by simp) (by simp) (skipNewlines_reflects hkey)).bind
    fun _ _ _ hcolon => ?_
  exact (he (skipNewlines_reflects hcolon)).bind fun value _ _ hrest => .ok _ hrest

private theorem parenthesized_reflects (he : M.Reflects p q) :
    M.Reflects (parenthesized M.stop p) (parenthesized M.stop' q) := by
  intro tokens tokens' h
  refine (he (skipNewlines_reflects h)).bind fun inner _ _ hinner => ?_
  exact (expect_reflects (by simp) (by simp) (skipNewlines_reflects hinner)).bind
    fun _ _ _ hrest => .ok inner hrest

private theorem functionLiteral_reflects (he : M.Reflects p q) (hs : M.Reflects ps qs)
    (pos : Position) :
    M.Reflects (functionLiteral M.stop p ps rounds pos)
      (functionLiteral M.stop' q qs rounds pos) := by
  intro tokens tokens' h
  refine (parameterList_reflects rounds h).bind fun params _ _ hparams => ?_
  exact (functionBody_reflects he hs hparams).bind fun body _ _ hrest =>
    .ok _ hrest

/-- The first token decides between the primaries, and both lists have the same. -/
private theorem primary_reflects (he : M.Reflects p q) (hs : M.Reflects ps qs) (rounds : Nat) :
    M.Reflects (primary M.stop p ps rounds) (primary M.stop' q qs rounds) := by
  intro tokens tokens' h
  have hrefused := refused_reflects (α := Expr) h .expression (by simp)
  rcases M.next h with ⟨hend, hend'⟩ | ⟨t, rest, rest', rfl, rfl, -, hrest⟩
  · rwa [hend.primary_eq, hend'.primary_eq]
  · simp only [primary]
    split
    case h_1 hkind =>
      cases hnumber : Number.ofText? t.lexeme with
      | some n => exact .ok _ hrest
      | none => exact .error (M.refused h fun _ => ⟨t, rfl, hkind, hnumber⟩)
    case h_2 | h_3 | h_4 | h_5 | h_6 => exact .ok _ hrest
    case h_7 => exact parenthesized_reflects he hrest
    case h_8 =>
      exact (commaList_reflects he _ rounds hrest).bind fun items _ _ hleft =>
        .ok _ hleft
    case h_9 =>
      exact (commaList_reflects (entry_reflects he) _ rounds hrest).bind fun entries _ _ hleft =>
        .ok _ hleft
    case h_10 | h_11 => exact functionLiteral_reflects he hs t.pos hrest
    case h_12 => exact hrefused

/-- Either nothing stands behind an expression on both sides, or it is read alike. -/
theorem suffix?_reflects (he : M.Reflects p q) (rounds : Nat) (e : Expr)
    {tokens tokens' : List Token} (h : M.Tokens tokens tokens') :
    (suffix? M.stop p rounds e tokens = none ∧ suffix? M.stop' q rounds e tokens' = none)
      ∨ ∃ x x', suffix? M.stop p rounds e tokens = some x
        ∧ suffix? M.stop' q rounds e tokens' = some x' ∧ M.Results x x' := by
  rcases M.next h with ⟨hend, hend'⟩ | ⟨t, rest, rest', rfl, rfl, -, hrest⟩
  · exact .inl ⟨hend.suffix?_eq e, hend'.suffix?_eq e⟩
  · simp only [suffix?]
    split
    case h_1 =>
      exact .inr ⟨_, _, rfl, rfl, (commaList_reflects he _ rounds hrest).bind fun args _ _ hleft =>
        .ok _ hleft⟩
    case h_2 =>
      refine .inr ⟨_, _, rfl, rfl, ?_⟩
      refine (he (skipNewlines_reflects hrest)).bind fun key _ _ hkey => ?_
      exact (expect_reflects (by simp) (by simp) (skipNewlines_reflects hkey)).bind
        fun _ _ _ hleft => .ok _ hleft
    case h_3 =>
      exact .inr ⟨_, _, rfl, rfl, (expect_reflects (by simp) (by simp) hrest).bind
        fun member _ _ hleft =>
          .ok _ hleft⟩
    case h_4 => exact .inl ⟨rfl, rfl⟩

private theorem suffixes_reflects (he : M.Reflects p q) (e : Expr) :
    M.Reflects (suffixes M.stop p rounds e) (suffixes M.stop' q rounds e) := by
  induction rounds generalizing e with
  | zero => exact fun _ _ h => refused_reflects h _ (by simp)
  | succ rounds ih =>
    intro tokens tokens' h
    simp only [suffixes]
    rcases suffix?_reflects he rounds e h with
      ⟨hnone, hnone'⟩ | ⟨_, _, hsome, hsome', hx⟩
    · rw [hnone, hnone']
      exact .ok e h
    · rw [hsome, hsome']
      cases hx with
      | ok e' hrest => exact ih e' hrest
      | error herror => exact .error herror

end Nested

section Operators

variable {p q : Nat → Parser Expr} {ps qs : Parser Stmt} {rounds : Nat}

private theorem operand_reflects (he : ∀ demand, M.Reflects (p demand) (q demand))
    (hs : M.Reflects ps qs) :
    M.Reflects (operand M.stop p ps rounds) (operand M.stop' q qs rounds) := by
  intro tokens tokens' h
  have hrefused := refused_reflects (α := Expr) h .expression (by simp)
  have hprimary := primary_reflects (he 0) hs rounds h
  rcases M.next h with ⟨hend, hend'⟩ | ⟨t, rest, rest', rfl, rfl, -, hrest⟩
  · rwa [hend.operand_eq, hend'.operand_eq]
  · simp only [operand]
    split
    · next op _ =>
      exact (he unaryPower hrest).bind fun e _ _ hleft => .ok _ hleft
    · exact hprimary.bind fun e _ _ hleft => suffixes_reflects (he 0) e hleft

/-- Climbing asks only for the power of the next token, so it joins the same operands on
both sides. -/
private theorem climb_reflects (he : ∀ demand, M.Reflects (p demand) (q demand)) (demand : Nat)
    (left : Expr) :
    M.Reflects (climb M.stop p demand rounds left) (climb M.stop' q demand rounds left) := by
  induction rounds generalizing left with
  | zero => exact fun _ _ h => refused_reflects h _ (by simp)
  | succ rounds ih =>
    intro tokens tokens' h
    rcases M.next h with ⟨hend, hend'⟩ | ⟨t, rest, rest', rfl, rfl, -, hrest⟩
    · rw [hend.climb_eq, hend'.climb_eq]
      exact .ok left h
    · simp only [climb]
      split
      · exact .ok left h
      · next power _ =>
        by_cases hweak : power.left < demand
        · rw [if_pos hweak, if_pos hweak]
          exact .ok left h
        · rw [if_neg hweak, if_neg hweak]
          exact (he power.right hrest).bind fun right _ _ hleft => ih _ hleft

end Operators

-- ====================================================== statements

section Statements

variable {p q : Parser Expr} {ps qs : Parser Stmt} {rounds : Nat}

/-- The one error about a target is about the expression, not about the tokens. -/
theorem checkTarget_error (e : Expr) {error : ParseError} (h : checkTarget e = .error error) :
    error.expected = .assignmentTarget := by
  fun_induction checkTarget e with
  | case1 => cases h
  | case2 pos collection key ih => exact ih h
  | case3 e hname hindex =>
    cases h
    rfl

/-- A target is judged without looking at tokens, so both sides accept it or neither
does. -/
private theorem check_reflects (e : Expr) {k k' : Except ParseError (α × List Token)}
    (h : M.Results k k') :
    M.Results (checkTarget e >>= fun _ => k) (checkTarget e >>= fun _ => k') := by
  cases hcheck : checkTarget e with
  | error error => exact .error (M.own _ (.inr (checkTarget_error e hcheck)))
  | ok u => exact h

private theorem letStatement_reflects (he : M.Reflects p q) (pos : Position) :
    M.Reflects (letStatement M.stop p pos) (letStatement M.stop' q pos) := by
  intro tokens tokens' h
  refine (expect_reflects (by simp) (by simp) h).bind fun name _ _ hname => ?_
  refine (expect_reflects (by simp) (by simp) hname).bind fun _ _ _ hsign => ?_
  exact (he hsign).bind fun value _ _ hrest => .ok _ hrest

private theorem changeStatement_reflects (he : M.Reflects p q) (pos : Position) :
    M.Reflects (changeStatement M.stop p pos) (changeStatement M.stop' q pos) := by
  intro tokens tokens' h
  refine (he h).bind fun target _ _ htarget => check_reflects target ?_
  refine (expectKeyword_reflects .to_ htarget).bind fun _ _ _ hword => ?_
  exact (he hword).bind fun value _ _ hrest => .ok _ hrest

/-- The word `then` may be left out, and is in both lists where it is in one. -/
private theorem optional_then_reflects {tokens tokens' : List Token} (h : M.Tokens tokens tokens') :
    M.Tokens (if nextIs (.keyword .then_) tokens then tokens.tail else tokens)
      (if nextIs (.keyword .then_) tokens' then tokens'.tail else tokens') := by
  rw [nextIs_reflects h _ (by simp)]
  by_cases hthen : nextIs (.keyword .then_) tokens = true
  · rw [if_pos hthen, if_pos hthen]
    exact tail_reflects h (by simp) hthen
  · rwa [if_neg hthen, if_neg hthen]

/-- An arm goes on with another one, with `else` or with `end`; which of them is seen in
the next token. -/
private theorem ifArm_reflects (he : M.Reflects p q) (hs : M.Reflects ps qs) (pos : Position) :
    M.Reflects (ifArm M.stop p ps rounds pos) (ifArm M.stop' q qs rounds pos) := by
  induction rounds generalizing pos with
  | zero => exact fun _ _ h => refused_reflects h _ (by simp)
  | succ rounds ih =>
    intro tokens tokens' h
    simp only [ifArm]
    refine (he h).bind fun condition ts₁ ts₁' hts₁ => ?_
    refine (block_reflects hs _ rounds (optional_then_reflects hts₁)).bind
      fun yes ts₂ ts₂' hts₂ => ?_
    have harm (next : Position) {rest rest' : List Token} (hrest : M.Tokens rest rest') :
        M.Results
          (ifArm M.stop p ps rounds next rest >>= fun x =>
            pure (Stmt.if_ pos condition yes (some [x.1]), x.2))
          (ifArm M.stop' q qs rounds next rest' >>= fun x =>
            pure (Stmt.if_ pos condition yes (some [x.1]), x.2)) :=
      (ih next hrest).bind fun arm _ _ hleft => .ok _ hleft
    have helse {rest rest' : List Token} (hrest : M.Tokens rest rest') :
        M.Results
          (block M.stop ps [.end_] rounds rest >>= fun x =>
            pure (Stmt.if_ pos condition yes (some x.1), x.2))
          (block M.stop' qs [.end_] rounds rest' >>= fun x =>
            pure (Stmt.if_ pos condition yes (some x.1), x.2)) :=
      (block_reflects hs _ rounds hrest).bind fun no _ _ hleft => .ok _ hleft
    have hnone := Mirror.Results.ok (Stmt.if_ pos condition yes none) hts₂
    -- the next keyword, and for `else` the one behind it, says which arm follows
    dsimp only
    rcases M.next hts₂ with ⟨hend, hend'⟩ | ⟨⟨kind, lexeme, next⟩, ts, ts', rfl, rfl, -, hts⟩
    · rcases hend.eq with rfl | ⟨⟨_, lexeme, next⟩, ts, rfl, rfl⟩ <;>
        rcases hend'.eq with rfl | ⟨⟨_, lexeme', next'⟩, ts', rfl, rfl⟩ <;>
        exact hnone
    · cases kind with
      | keyword k =>
        cases k with
        | elif => exact harm next hts
        | else_ =>
          rcases M.next hts with
            ⟨hend, hend'⟩ | ⟨⟨kind', lexeme', next'⟩, rest, rest', rfl, rfl, -, hrest⟩
          · rcases hend.eq with rfl | ⟨⟨_, lexeme, next⟩, ts, rfl, rfl⟩ <;>
              rcases hend'.eq with rfl | ⟨⟨_, lexeme', next'⟩, ts', rfl, rfl⟩ <;>
              exact helse hts
          · cases kind' with
            | keyword k' =>
              cases k' with
              | if_ => exact harm next' hrest
              | _ => exact helse hts
            | _ => exact helse hts
        | _ => exact hnone
      | _ => exact hnone

private theorem ifStatement_reflects (he : M.Reflects p q) (hs : M.Reflects ps qs)
    (pos : Position) :
    M.Reflects (ifStatement M.stop p ps rounds pos) (ifStatement M.stop' q qs rounds pos) :=
  fun _ _ h => (ifArm_reflects he hs pos h).bind fun arms _ _ harms =>
    (expectKeyword_reflects .end_ harms).bind fun _ _ _ hrest => .ok arms hrest

private theorem whileStatement_reflects (he : M.Reflects p q) (hs : M.Reflects ps qs)
    (pos : Position) : M.Reflects (whileStatement M.stop p ps rounds pos)
      (whileStatement M.stop' q qs rounds pos) :=
  fun _ _ h => (he h).bind fun _ _ _ hcondition =>
    (closedBlock_reflects hs hcondition).bind fun _ _ _ hrest => .ok _ hrest

private theorem forStatement_reflects (he : M.Reflects p q) (hs : M.Reflects ps qs)
    (pos : Position) :
    M.Reflects (forStatement M.stop p ps rounds pos) (forStatement M.stop' q qs rounds pos) := by
  intro tokens tokens' h
  refine (expect_reflects (by simp) (by simp) h).bind fun name _ _ hname => ?_
  refine (expectKeyword_reflects .in_ hname).bind fun _ _ _ hword => ?_
  refine (he hword).bind fun iterable _ _ hiterable => ?_
  exact (closedBlock_reflects hs hiterable).bind fun body _ _ hrest =>
    .ok _ hrest

private theorem functionStatement_reflects (he : M.Reflects p q) (hs : M.Reflects ps qs)
    (keyword : Keyword) (pos : Position) :
    M.Reflects (functionStatement M.stop p ps rounds keyword pos)
      (functionStatement M.stop' q qs rounds keyword pos) := by
  intro tokens tokens' h
  refine (expect_reflects (by simp) (by simp) h).bind fun name _ _ hname => ?_
  refine (parameterList_reflects rounds hname).bind fun params _ _ hparams => ?_
  have hrefused := refused_reflects (α := Stmt) hparams .arrowAfterDefi (by simp)
  dsimp only
  rw [nextIs_reflects hparams _ (by simp)]
  split
  · exact hrefused
  · exact (functionBody_reflects he hs hparams).bind fun _ _ _ hrest => .ok _ hrest

private theorem returnStatement_reflects (he : M.Reflects p q) (pos : Position) :
    M.Reflects (returnStatement p pos) (returnStatement q pos) := by
  intro tokens tokens' h
  simp only [returnStatement, atStatementEnd_reflects h]
  by_cases hend : atStatementEnd tokens = true
  · rw [if_pos hend, if_pos hend]
    exact .ok _ h
  · rw [if_neg hend, if_neg hend]
    exact (he h).bind fun value _ _ hrest => .ok _ hrest

private theorem expressionStatement_reflects (he : M.Reflects p q) :
    M.Reflects (expressionStatement p) (expressionStatement q) := by
  intro tokens tokens' h
  refine (he h).bind fun e ts ts' hts => ?_
  rcases M.next hts with ⟨hend, hend'⟩ | ⟨t, rest, rest', rfl, rfl, -, hrest⟩
  · have hkeep := Mirror.Results.ok (Stmt.expr e.pos e) hts
    rcases hend.eq with rfl | ⟨t, rest, rfl, ht⟩ <;>
      rcases hend'.eq with rfl | ⟨t', rest', rfl, ht'⟩ <;>
      simp only [*, assignmentOf?] <;>
      exact hkeep
  · dsimp only
    split
    · exact .ok _ hts
    · next op _ =>
      refine check_reflects e ?_
      exact (he hrest).bind fun value _ _ hleft => .ok _ hleft

/-- The form of a statement is decided by its first two tokens, which correspond. -/
private theorem openStatement_reflects (he : M.Reflects p q) (hs : M.Reflects ps qs) :
    M.Reflects (openStatement M.stop p ps rounds) (openStatement M.stop' q qs rounds) := by
  intro tokens tokens' h
  have hexpression := expressionStatement_reflects he h
  rcases M.next h with ⟨hend, hend'⟩ | ⟨t, rest, rest', rfl, rfl, -, hrest⟩
  · rwa [hend.openStatement_eq, hend'.openStatement_eq]
  · simp only [openStatement, nextIs_reflects hrest .name (by simp)]
    split
    case h_1 => exact letStatement_reflects he t.pos hrest
    case h_2 => exact changeStatement_reflects he t.pos hrest
    case h_3 => exact ifStatement_reflects he hs t.pos hrest
    case h_4 => exact whileStatement_reflects he hs t.pos hrest
    case h_5 => exact forStatement_reflects he hs t.pos hrest
    case h_6 => exact returnStatement_reflects he t.pos hrest
    case h_7 | h_8 => exact .ok _ hrest
    case h_9 k _ _ _ _ _ _ _ _ _ =>
      split
      · exact functionStatement_reflects he hs k t.pos hrest
      · exact hexpression
    case h_10 => exact hexpression

/-- A statement with its end: a line end, a semicolon, or nothing more to read. -/
private theorem endedStatement_reflects (he : M.Reflects p q) (hs : M.Reflects ps qs) :
    M.Reflects (endedStatement M.stop p ps rounds) (endedStatement M.stop' q qs rounds) := by
  intro tokens tokens' h
  refine (openStatement_reflects he hs h).bind fun s ts ts' hts => ?_
  have hrefused := refused_reflects (α := Stmt) hts .endOfStatement (by simp)
  simp only [statementEnd, atStatementEnd_reflects hts,
    nextIs_reflects hts .newline (by simp),
    nextIs_reflects hts (.symbol .semicolon) (by simp)]
  by_cases hnewline : nextIs .newline ts = true
  · simp only [hnewline, Bool.true_or, if_true]
    exact .ok s (tail_reflects hts (by simp) hnewline)
  by_cases hsemicolon : nextIs (.symbol .semicolon) ts = true
  · simp only [hsemicolon, Bool.or_true, if_true]
    exact .ok s (tail_reflects hts (by simp) hsemicolon)
  simp only [hnewline, hsemicolon, Bool.or_self, Bool.false_eq_true, if_false]
  by_cases hend : atStatementEnd ts = true
  · rw [if_pos hend, if_pos hend]
    exact .ok s hts
  · rw [if_neg hend, if_neg hend]
    exact hrefused

end Statements

-- ======================================================= all depths

/-- Lists of tokens that agree are read alike by expressions and statements of every
depth. -/
theorem reflects (M : Mirror) (depth : Nat) :
    (∀ demand, M.Reflects (expression M.stop depth demand) (expression M.stop' depth demand))
      ∧ M.Reflects (statement M.stop depth) (statement M.stop' depth) := by
  induction depth with
  | zero =>
    exact ⟨fun _ _ _ h => refused_reflects h _ (by simp),
      fun _ _ h => refused_reflects h _ (by simp)⟩
  | succ depth ih =>
    obtain ⟨hexpr, hstmt⟩ := ih
    refine ⟨fun demand tokens tokens' h => ?_, fun tokens tokens' h => ?_⟩
    · simp only [expression]
      exact (operand_reflects hexpr hstmt h).bind fun left _ _ hleft =>
        climb_reflects hexpr demand left hleft
    · simp only [statement]
      exact endedStatement_reflects (hexpr 0) hstmt h

-- ================================================= what is left over

/-- `rest` is what is left of `tokens` when some are taken, none of which is an end
mark. -/
def Left (tokens rest : List Token) : Prop :=
  ∃ taken, tokens = taken ++ rest ∧ ∀ t ∈ taken, t.kind ≠ .eof

/-- A list is what is left of itself. -/
theorem Left.refl (tokens : List Token) : Left tokens tokens :=
  ⟨[], rfl, fun _ ht => nomatch ht⟩

/-- Taking a token that is no end mark leaves a part of the list before the mark. -/
theorem Left.tail {tokens rest : List Token} {t : Token} (h : Left tokens (t :: rest))
    (ht : t.kind ≠ .eof) : Left tokens rest := by
  obtain ⟨taken, rfl, htaken⟩ := h
  refine ⟨taken ++ [t], by simp, fun u hu => ?_⟩
  rcases List.mem_append.1 hu with hu | hu
  · exact htaken u hu
  · exact List.mem_singleton.1 hu ▸ ht

/-- Equal lists agree that have something in common which no token but an end mark
takes away. -/
theorem next_of_eq {P : List Token → Prop}
    (hP : ∀ {t : Token} {rest : List Token}, t.kind ≠ .eof → P (t :: rest) → P rest)
    {tokens tokens' : List Token} (h : tokens = tokens' ∧ P tokens) :
    (AtEnd tokens ∧ AtEnd tokens')
      ∨ ∃ t rest rest', tokens = t :: rest ∧ tokens' = t :: rest' ∧ t.kind ≠ .eof
        ∧ rest = rest' ∧ P rest := by
  obtain ⟨rfl, htokens⟩ := h
  by_cases hend : AtEnd tokens
  · exact .inl ⟨hend, hend⟩
  cases tokens with
  | nil => exact absurd (fun _ ht => nomatch ht) hend
  | cons t rest =>
    have ht : t.kind ≠ .eof := fun ht => hend fun u hu => Option.some.inj hu ▸ ht
    exact .inr ⟨t, rest, rest, rfl, rfl, ht, rfl, hP ht htokens⟩

/-- Equal lists that are what is left of `whole` agree. -/
def Mirror.leftOf (stop : Position) (whole : List Token) : Mirror where
  stop := stop
  stop' := stop
  Tokens tokens tokens' := tokens = tokens' ∧ Left whole tokens
  Errors _ _ := True
  next := next_of_eq fun ht hleft => hleft.tail ht
  refused _ _ := trivial
  own _ _ := trivial

/-- A parser that reads alike lists that agree leaves what is left of its tokens. -/
theorem left_of_reflects {p : Parser α} {stop : Position} {tokens rest : List Token} {x : α}
    (hp : (Mirror.leftOf stop tokens).Reflects p p) (h : p tokens = .ok (x, rest)) :
    Left tokens rest := by
  have hresults := hp ⟨rfl, .refl tokens⟩
  rw [h] at hresults
  cases hresults with
  | ok x hrest => exact hrest.2

/-- What is left behind an expression, a statement or a block is a tail of what was there,
and no end mark was passed. -/
theorem expression_left {stop : Position} {depth demand : Nat} {tokens rest : List Token}
    {e : Expr} (h : expression stop depth demand tokens = .ok (e, rest)) : Left tokens rest :=
  left_of_reflects ((reflects (.leftOf stop tokens) depth).1 demand) h

theorem statement_left {stop : Position} {depth : Nat} {tokens rest : List Token} {s : Stmt}
    (h : statement stop depth tokens = .ok (s, rest)) : Left tokens rest :=
  left_of_reflects (reflects (.leftOf stop tokens) depth).2 h

theorem block_left {stop : Position} {depth rounds : Nat} {stops : List Keyword}
    {tokens rest : List Token} {body : List Stmt}
    (h : block stop (statement stop depth) stops rounds tokens = .ok (body, rest)) :
    Left tokens rest :=
  left_of_reflects (block_reflects (reflects (.leftOf stop tokens) depth).2 stops rounds) h

end Scriptlet.Parser
