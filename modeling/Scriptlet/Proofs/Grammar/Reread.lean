/-
Statements and whole programs are read back. The forms of a statement are taken
one by one; then the derivation of a program's text is walked through once, and
every form is handed to its lemma.

# Where a statement stops

A statement is followed by a separator, or by a keyword that closes the block
around it, or by nothing. The arms of an `if` are followed by their common
`end`. A block is followed by one of the keywords that close it, which are never
the first token of a statement.
-/
import Scriptlet.Proofs.Grammar.Printable
import Scriptlet.Proofs.Grammar.Recovery

namespace Scriptlet.Parser

variable {stop : Position}

-- ======================================================= beginnings

/-- The kinds that a statement can begin with. -/
def opensStatement : Token.Kind → Bool
  | .keyword .let_ | .keyword .change | .keyword .if_ | .keyword .while_ | .keyword .for_ => true
  | .keyword .return_ | .keyword .break_ | .keyword .continue_ | .keyword .defi => true
  | kind => opens kind

private theorem opensStatement_of_opens {kind : Token.Kind} (h : opens kind = true) :
    opensStatement kind = true := by
  unfold opensStatement
  split <;> first | rfl | exact h

/-- What a statement is written as begins with one of these kinds: with its keyword, or
with the beginning of an expression. -/
private theorem stmt_opening {s : Stmt} {tokens : List Token} (h : s.Written tokens) :
    ∃ t rest, tokens = t :: rest ∧ opensStatement t.kind = true := by
  have ofExpr : ∀ {e : Expr} {front : List Token}, e.Written front → ∀ more : List Token,
      ∃ t rest, front ++ more = t :: rest ∧ opensStatement t.kind = true := by
    intro e front he more
    obtain ⟨t, rest, htokens, hopens, -⟩ := (expr_opening he).append more
    exact ⟨t, rest, htokens, opensStatement_of_opens hopens⟩
  cases h with
  | let_ word _ _ _ => exact ⟨_, _, rfl, by rw [word]; rfl⟩
  | assign _ head _ _ => exact ofExpr head _
  | change word _ _ _ _ => exact ⟨_, _, rfl, by rw [word]; rfl⟩
  | expr inner => simpa using ofExpr inner []
  | if_ word _ _ => exact ⟨_, _, rfl, by rw [word]; rfl⟩
  | while_ word _ _ _ _ => exact ⟨_, _, rfl, by rw [word]; rfl⟩
  | for_ word _ _ _ _ _ _ => exact ⟨_, _, rfl, by rw [word]; rfl⟩
  | function word _ _ _ => exact ⟨_, _, rfl, by rcases word with h | h <;> rw [h] <;> rfl⟩
  | short word _ _ _ _ => exact ⟨_, _, rfl, by rw [word]; rfl⟩
  | returnNone word => exact ⟨_, _, rfl, by rw [word]; rfl⟩
  | returnSome word _ => exact ⟨_, _, rfl, by rw [word]; rfl⟩
  | break_ word => exact ⟨_, _, rfl, by rw [word]; rfl⟩
  | continue_ word => exact ⟨_, _, rfl, by rw [word]; rfl⟩

/-- The keywords that can close a block. -/
def ClosesBlock (stops : List Keyword) : Prop :=
  ∀ k ∈ stops, k = .elif ∨ k = .else_ ∨ k = .end_

private theorem opensStatement_closing {k : Keyword} (h : k = .elif ∨ k = .else_ ∨ k = .end_) :
    opensStatement (.keyword k) = false := by
  rcases h with rfl | rfl | rfl <;> rfl

/-- A statement does not begin with what closes a block. -/
theorem atBlockEnd_eq_false {stops : List Keyword} (hstops : ClosesBlock stops) {t : Token}
    (ht : opensStatement t.kind = true) (rest : List Token) :
    atBlockEnd stops (t :: rest) = false := by
  simp only [atBlockEnd]
  split
  · rename_i hkind
    rw [hkind] at ht
    cases ht
  · rename_i k hkind
    refine Bool.eq_false_iff.2 fun hmem => ?_
    have hclosing := opensStatement_closing (hstops k (List.contains_iff_mem.1 hmem))
    rw [hkind, hclosing] at ht
    cases ht
  · rfl

private theorem not_isSeparator_of_opensStatement {t : Token} (h : opensStatement t.kind = true) :
    ¬ t.IsSeparator := by
  rintro (hkind | hkind) <;> rw [hkind] at h <;> cases h

/-- What closes a block also ends the statement before it, and is no separator. -/
theorem of_atBlockEnd {stops : List Keyword} (hstops : ClosesBlock stops) {rest : List Token}
    (h : atBlockEnd stops rest = true) :
    atStatementEnd rest = true ∧ skipSeparators rest = rest
      ∧ (nextIs .newline rest || nextIs (.symbol .semicolon) rest) = false := by
  cases rest with
  | nil => exact ⟨rfl, rfl, rfl⟩
  | cons t others =>
    obtain ⟨kind, lexeme, pos⟩ := t
    simp only [atBlockEnd] at h
    split at h
    · exact ⟨rfl, skipSeparators_cons (by rintro (h | h) <;> cases h) others, rfl⟩
    · rename_i k
      rcases hstops k (List.contains_iff_mem.1 h) with rfl | rfl | rfl <;>
        exact ⟨rfl, skipSeparators_cons (by rintro (h | h) <;> cases h) others, rfl⟩
    · cases h

/-- A block does not begin with a kind that no statement begins with and that
does not separate. -/
theorem block_nextIs {body : List Stmt} {tokens : List Token} (h : Stmt.Block body tokens)
    {kind : Token.Kind} (hkind : opensStatement kind = false) (hnewline : kind ≠ .newline)
    (hsemicolon : kind ≠ .symbol .semicolon) : nextIs kind tokens = false := by
  have ofGap : ∀ {gap more : List Token}, Gap gap → nextIs kind more = false →
      nextIs kind (gap ++ more) = false := by
    intro gap more hgap hmore
    cases gap with
    | nil => exact hmore
    | cons t others =>
      refine nextIs_cons_ne (fun ht => ?_) _
      rcases hgap t (List.mem_cons_self ..) with hsep | hsep
      · exact hnewline (ht ▸ hsep)
      · exact hsemicolon (ht ▸ hsep)
  have ofStmt : ∀ {s : Stmt} {front : List Token}, s.Written front → ∀ more : List Token,
      nextIs kind (front ++ more) = false := by
    intro s front hs more
    obtain ⟨t, others, rfl, ht⟩ := stmt_opening hs
    refine nextIs_cons_ne (fun hne => ?_) _
    rw [hne, hkind] at ht
    cases ht
  cases h with
  | none blank => simpa using ofGap blank (rfl : nextIs kind [] = false)
  | last blank inner => exact ofGap blank (by simpa using ofStmt inner [])
  | more blank inner _ _ => exact ofGap blank (ofStmt inner _)

-- ================================================ simple statements

/-- A statement without what ends it is recovered where a statement may end. -/
abbrev RecoversStmt (stop : Position) : Stmt → List Token → Prop :=
  Recovers Stmt.unplaced
    (fun depth rounds =>
      openStatement stop (expression stop depth 0) (statement stop depth) rounds)
    (fun rest => atStatementEnd rest = true)

/-- Each form of a statement is read in the order of its parts. Every part is recovered
because of what follows it: here `=` and the end of the statement. -/
private theorem stmt_recovers_let {pos : Position} {value : Expr} {t name sign : Token}
    {tokens : List Token} (hword : t.kind = .keyword .let_) (hname : name.kind = .name)
    (hsign : sign.kind = .symbol .assign) (hinner : RecoversExpr stop value tokens) :
    RecoversStmt stop (.let_ pos name.lexeme value) (t :: name :: sign :: tokens) := by
  obtain ⟨y, hy, n, hread⟩ := hinner
  refine ⟨.let_ t.pos name.lexeme y, ?_, n, fun depth rounds hd hr rest hrest => ?_⟩
  · exact congrArg (Stmt.let_ .start name.lexeme) hy
  have hread : expression stop depth 0 (tokens ++ rest) = .ok (y, rest) :=
    hread depth rounds hd hr rest (stops_of_atStatementEnd hrest)
  simp only [openStatement, List.cons_append, hword, letStatement, expect_cons hname,
    expect_cons hsign, ok_bind, hread]
  rfl

private theorem isPlace_moved (f : Position → Position) : ∀ e : Expr,
    (e.moved f).IsPlace = e.IsPlace
  | .index _ collection _ => isPlace_moved f collection
  | .name _ _ | .literal _ _ | .list _ _ | .map _ _ | .unary _ _ _ | .binary _ _ _ _
  | .logical _ _ _ _ | .call _ _ _ | .function _ _ => rfl

/-- What the relations of writing take for a target is what the check lets through. -/
private theorem checkTarget_isPlace : ∀ {e : Expr}, e.IsPlace = true → checkTarget e = .ok ()
  | .name _ _, _ => rfl
  | .index _ collection _, h => by
    rw [checkTarget]
    exact checkTarget_isPlace h

/-- Whether something can be assigned to does not depend on positions. -/
theorem checkTarget_eq_ok {e target : Expr} (h : e.unplaced = target.unplaced)
    (hplace : target.IsPlace = true) : checkTarget e = .ok () := by
  have hmoved : (e.moved fun _ => .start).IsPlace = (target.moved fun _ => .start).IsPlace :=
    congrArg Expr.IsPlace h
  rw [isPlace_moved, isPlace_moved] at hmoved
  exact checkTarget_isPlace (hmoved.trans hplace)

private theorem assign_unplaced {pos pos' : Position} {target target' value value' : Expr}
    {op : Option BinaryOp} (htarget : target.unplaced = target'.unplaced)
    (hvalue : value.unplaced = value'.unplaced) :
    (Stmt.assign pos target op value).unplaced = (Stmt.assign pos' target' op value').unplaced := by
  simp only [Expr.unplaced] at htarget hvalue
  simp only [Stmt.unplaced, Stmt.moved, htarget, hvalue]

/-- The target of a `change` is followed by `to`, which goes on with no expression. -/
private theorem stmt_recovers_change {pos : Position} {target value : Expr} {t to_ : Token}
    {front tokens : List Token} (hword : t.kind = .keyword .change)
    (hplace : target.IsPlace = true) (hhead : RecoversExpr stop target front)
    (hsign : to_.kind = .keyword .to_) (hinner : RecoversExpr stop value tokens) :
    RecoversStmt stop (.assign pos target none value) (t :: (front ++ to_ :: tokens)) := by
  obtain ⟨x, hx, n, hreadTarget⟩ := hhead
  obtain ⟨y, hy, m, hreadValue⟩ := hinner
  refine ⟨.assign t.pos x none y, assign_unplaced hx hy, n + m,
    fun depth rounds hd hr rest hrest => ?_⟩
  have hreadTarget : expression stop depth 0 (front ++ to_ :: (tokens ++ rest))
      = .ok (x, to_ :: (tokens ++ rest)) :=
    hreadTarget depth rounds (by omega) (by omega) _ (stops_cons (by rw [hsign]; exact ⟨rfl, rfl⟩))
  have hreadValue : expression stop depth 0 (tokens ++ rest) = .ok (y, rest) :=
    hreadValue depth rounds (by omega) (by omega) rest (stops_of_atStatementEnd hrest)
  simp only [openStatement, List.cons_append, List.append_assoc, hword, changeStatement,
    hreadTarget, ok_bind, checkTarget_eq_ok hx hplace, expectKeyword, expect_cons hsign, hreadValue]
  rfl

/-- What begins like an expression is read as one. -/
theorem openStatement_of_opening {tokens : List Token} (h : Opening tokens) (p : Parser Expr)
    (q : Parser Stmt) (rounds : Nat) :
    openStatement stop p q rounds tokens = expressionStatement p tokens := by
  obtain ⟨⟨kind, lexeme, pos⟩, rest, rfl, hopens, hfunction⟩ := h
  simp only at hopens hfunction
  simp only [openStatement]
  split
  case h_9 k _ _ _ _ _ _ _ _ =>
    rw [if_neg]
    intro hdeclares
    obtain ⟨hword, hname⟩ := Bool.and_eq_true_iff.1 hdeclares
    have hk : k = .function ∨ k = .def_ := by
      simp only [Bool.or_eq_true, decide_eq_true_eq] at hword
      refine hword.resolve_right fun hdefi => ?_
      rw [hdefi] at hopens
      cases hopens
    obtain ⟨u, others, rfl, hu⟩ := hfunction (by rcases hk with rfl | rfl <;> simp)
    rw [nextIs_cons_ne (by rw [hu]; decide)] at hname
    cases hname
  case h_10 => rfl
  all_goals cases hopens

/-- No assignment operator ends a statement. -/
theorem assignmentOf?_of_atStatementEnd {t : Token} {rest : List Token}
    (h : atStatementEnd (t :: rest) = true) : assignmentOf? t.kind = none := by
  simp only [atStatementEnd] at h
  split at h
  case h_7 => cases h
  all_goals
    rename_i hkind
    rw [hkind]
    rfl

/-- An expression alone is a statement if it does not begin like one of the others. -/
private theorem stmt_recovers_expr {pos : Position} {value : Expr} {tokens : List Token}
    (hinner : RecoversExpr stop value tokens) (hopening : Opening tokens) :
    RecoversStmt stop (.expr pos value) tokens := by
  obtain ⟨y, hy, n, hread⟩ := hinner
  refine ⟨.expr y.pos y, ?_, n, fun depth rounds hd hr rest hrest => ?_⟩
  · exact congrArg (Stmt.expr .start) hy
  have hread : expression stop depth 0 (tokens ++ rest) = .ok (y, rest) :=
    hread depth rounds hd hr rest (stops_of_atStatementEnd hrest)
  refine (openStatement_of_opening (hopening.append rest) _ _ rounds).trans ?_
  simp only [expressionStatement, hread, ok_bind]
  cases rest with
  | nil => rfl
  | cons t others =>
    simp only [assignmentOf?_of_atStatementEnd hrest]
    rfl

/-- No assignment sign is an operator, so the target in front of it is read to its end. -/
private theorem stops_of_assignmentOf? {kind : Token.Kind} {op : Option BinaryOp}
    (h : assignmentOf? kind = some op) : isSuffix kind = false ∧ Power.of? kind = none := by
  unfold assignmentOf? at h
  split at h
  case h_6 => cases h
  all_goals exact ⟨rfl, rfl⟩

/-- The target is read as an expression first; the sign behind it makes it an
assignment. -/
private theorem stmt_recovers_assign {pos : Position} {target value : Expr} {op : Option BinaryOp}
    {t : Token} {front tokens : List Token} (hplace : target.IsPlace = true)
    (hhead : RecoversExpr stop target front) (hopening : Opening front)
    (hsign : assignmentOf? t.kind = some op) (hinner : RecoversExpr stop value tokens) :
    RecoversStmt stop (.assign pos target op value) (front ++ t :: tokens) := by
  obtain ⟨x, hx, n, hreadTarget⟩ := hhead
  obtain ⟨y, hy, m, hreadValue⟩ := hinner
  refine ⟨.assign x.pos x op y, assign_unplaced hx hy, n + m,
    fun depth rounds hd hr rest hrest => ?_⟩
  have hreadTarget : expression stop depth 0 (front ++ t :: (tokens ++ rest))
      = .ok (x, t :: (tokens ++ rest)) :=
    hreadTarget depth rounds (by omega) (by omega) _ (stops_cons (stops_of_assignmentOf? hsign))
  have hreadValue : expression stop depth 0 (tokens ++ rest) = .ok (y, rest) :=
    hreadValue depth rounds (by omega) (by omega) rest (stops_of_atStatementEnd hrest)
  simp only [List.append_assoc, List.cons_append]
  refine (openStatement_of_opening (hopening.append _) _ _ rounds).trans ?_
  simp only [expressionStatement, hreadTarget, ok_bind, hsign, checkTarget_eq_ok hx hplace,
    hreadValue]
  rfl

private theorem stmt_recovers_returnNone {pos : Position} {t : Token}
    (hword : t.kind = .keyword .return_) :
    RecoversStmt stop (.return_ pos none) [t] := by
  refine ⟨.return_ t.pos none, rfl, 0, fun depth rounds _ _ rest hrest => ?_⟩
  simp only [openStatement, List.cons_append, List.nil_append, hword, returnStatement]
  rw [if_pos hrest]

/-- Whether a value follows is seen from the next token, which must begin an
expression. -/
private theorem stmt_recovers_returnSome {pos : Position} {value : Expr} {t : Token}
    {tokens : List Token}
    (hword : t.kind = .keyword .return_) (hinner : RecoversExpr stop value tokens)
    (hopening : Opening tokens) : RecoversStmt stop (.return_ pos (some value)) (t :: tokens) := by
  obtain ⟨y, hy, n, hread⟩ := hinner
  refine ⟨.return_ t.pos (some y), ?_, n, fun depth rounds hd hr rest hrest => ?_⟩
  · exact congrArg (fun e => Stmt.return_ .start (some e)) hy
  have hread : expression stop depth 0 (tokens ++ rest) = .ok (y, rest) :=
    hread depth rounds hd hr rest (stops_of_atStatementEnd hrest)
  simp only [openStatement, List.cons_append, hword, returnStatement,
    (hopening.append rest).atStatementEnd_eq, Bool.false_eq_true, if_false, hread]
  rfl

private theorem stmt_recovers_break {pos : Position} {t : Token}
    (hword : t.kind = .keyword .break_) :
    RecoversStmt stop (.break_ pos) [t] := by
  refine ⟨.break_ t.pos, rfl, 0, fun depth rounds _ _ rest _ => ?_⟩
  simp only [openStatement, List.cons_append, List.nil_append, hword]

private theorem stmt_recovers_continue {pos : Position} {t : Token}
    (hword : t.kind = .keyword .continue_) : RecoversStmt stop (.continue_ pos) [t] := by
  refine ⟨.continue_ t.pos, rfl, 0, fun depth rounds _ _ rest _ => ?_⟩
  simp only [openStatement, List.cons_append, List.nil_append, hword]

-- ============================================== compound statements

/-- A separator before a block is passed over with the others. -/
theorem block_separator {p : Parser Stmt} {stops : List Keyword} {t : Token} (h : t.IsSeparator)
    {rounds : Nat} (hrounds : 0 < rounds) (tokens : List Token) :
    block stop p stops rounds (t :: tokens) = block stop p stops rounds tokens := by
  obtain ⟨rounds, rfl⟩ := Nat.exists_eq_add_of_le' hrounds
  have hgap : Gap [t] := by simpa [Gap] using h
  have hskip : skipSeparators (t :: tokens) = skipSeparators tokens :=
    skipSeparators_gap hgap tokens
  simp only [block, hskip]

private theorem stops_separator {t : Token} (h : t.IsSeparator) (rest : List Token) :
    Stops (t :: rest) := by
  refine stops_cons ?_
  rcases h with h | h <;> rw [h] <;> exact ⟨rfl, rfl⟩

/-- The head of a loop is read, and the block behind it up to its `end`. -/
theorem loop_head {head : Expr} {body : List Stmt} {separator close : Token}
    {front tokens : List Token} (hhead : RecoversExpr stop head front)
    (hseparates : separator.IsSeparator) (hinner : RecoversBlock stop [.end_] body tokens)
    (hclose : close.kind = .keyword .end_) :
    ∃ x y, x.unplaced = head.unplaced ∧ Program.unplaced y = Program.unplaced body ∧
      ∃ n, ∀ depth rounds, n ≤ depth → n ≤ rounds → ∀ rest,
        expression stop depth 0 (front ++ separator :: (tokens ++ close :: rest))
            = .ok (x, separator :: (tokens ++ close :: rest)) ∧
          closedBlock stop (statement stop depth) rounds (separator :: (tokens ++ close :: rest))
            = .ok (y, rest) := by
  obtain ⟨x, hx, n, hreadHead⟩ := hhead
  obtain ⟨y, hy, m, hreadBody⟩ := closedBlock_recovers hinner hclose
  refine ⟨x, y, hx, hy, n + m + 1, fun depth rounds hd hr rest => ⟨?_, ?_⟩⟩
  · exact hreadHead depth rounds (by omega) (by omega) _ (stops_separator hseparates _)
  · have hreadBody : closedBlock stop (statement stop depth) rounds ((tokens ++ [close]) ++ rest)
        = .ok (y, rest) := hreadBody depth rounds (by omega) (by omega) rest trivial
    rw [← hreadBody, List.append_assoc, List.singleton_append]
    simp only [closedBlock, block_separator hseparates (show 0 < rounds by omega)]

private theorem stmt_recovers_while {pos : Position} {condition : Expr} {body : List Stmt}
    {t separator close : Token} {front tokens : List Token} (hword : t.kind = .keyword .while_)
    (hhead : RecoversExpr stop condition front) (hseparates : separator.IsSeparator)
    (hinner : RecoversBlock stop [.end_] body tokens) (hclose : close.kind = .keyword .end_) :
    RecoversStmt stop (.while_ pos condition body)
      (t :: (front ++ separator :: (tokens ++ [close]))) := by
  obtain ⟨x, y, hx, hy, n, hread⟩ := loop_head hhead hseparates hinner hclose
  refine ⟨.while_ t.pos x y, ?_, n, fun depth rounds hd hr rest _ => ?_⟩
  · simp only [Expr.unplaced, Program.unplaced, Program.moved] at hx hy
    simp only [Stmt.unplaced, Stmt.moved, hx, hy]
  obtain ⟨hreadHead, hreadBody⟩ := hread depth rounds hd hr rest
  simp only [openStatement, List.cons_append, List.append_assoc, List.nil_append, hword,
    whileStatement, hreadHead, ok_bind, hreadBody]
  rfl

private theorem stmt_recovers_for {pos : Position} {iterable : Expr} {body : List Stmt}
    {t name in_ separator close : Token} {front tokens : List Token}
    (hword : t.kind = .keyword .for_) (hname : name.kind = .name)
    (hin : in_.kind = .keyword .in_) (hhead : RecoversExpr stop iterable front)
    (hseparates : separator.IsSeparator) (hinner : RecoversBlock stop [.end_] body tokens)
    (hclose : close.kind = .keyword .end_) :
    RecoversStmt stop (.for_ pos name.lexeme iterable body)
      (t :: name :: in_ :: (front ++ separator :: (tokens ++ [close]))) := by
  obtain ⟨x, y, hx, hy, n, hread⟩ := loop_head hhead hseparates hinner hclose
  refine ⟨.for_ t.pos name.lexeme x y, ?_, n, fun depth rounds hd hr rest _ => ?_⟩
  · simp only [Expr.unplaced, Program.unplaced, Program.moved] at hx hy
    simp only [Stmt.unplaced, Stmt.moved, hx, hy]
  obtain ⟨hreadHead, hreadBody⟩ := hread depth rounds hd hr rest
  simp only [openStatement, List.cons_append, List.append_assoc, List.nil_append, hword,
    forStatement, expect_cons hname, expectKeyword, expect_cons hin, hreadHead, ok_bind, hreadBody]
  rfl

/-- A declaration behind any of its keywords. Behind `defi`, the body is an
arrow. -/
theorem stmt_recovers_function {pos codePos : Position} {params : List Param} {body : List Stmt}
    {k : Keyword} {t name opening closing : Token} {names tokens : List Token}
    (hword : t.kind = .keyword k)
    (hk : k = .function ∨ k = .def_ ∨ k = .defi ∧ nextIs (.symbol .fatArrow) tokens = true)
    (hname : name.kind = .name) (hparts : Param.ListWritten params opening names closing)
    (hinner : RecoversBody stop body tokens) :
    RecoversStmt stop (.function pos ⟨some name.lexeme, params, body, codePos⟩)
      (t :: name :: opening :: (names ++ closing :: tokens)) := by
  obtain ⟨ps, hps, n, hreadParams⟩ := parameterList_recovers stop hparts
  obtain ⟨b, hb, m, hreadBody⟩ := hinner
  refine ⟨.function t.pos ⟨some name.lexeme, ps, b, t.pos⟩, ?_, n + m,
    fun depth rounds hd hr rest hrest => ?_⟩
  · exact congrArg (Stmt.function .start) (code_unplaced hps hb)
  have hreadParams : parameterList stop rounds
      (opening :: (names ++ [closing]) ++ (tokens ++ rest)) = .ok (ps, tokens ++ rest) :=
    hreadParams depth rounds (by omega) (by omega) _ trivial
  have hreadBody : functionBody stop (expression stop depth 0) (statement stop depth) rounds
      (tokens ++ rest) = .ok (b, rest) :=
    hreadBody depth rounds (by omega) (by omega) rest (stops_of_atStatementEnd hrest)
  simp only [List.cons_append, List.append_assoc, List.nil_append] at hreadParams
  -- `defi` alone insists on the arrow
  have harrow : (decide (k = .defi) && !nextIs (.symbol .fatArrow) (tokens ++ rest)) = false := by
    rcases hk with rfl | rfl | ⟨rfl, hnext⟩
    · rfl
    · rfl
    · cases tokens with
      | nil => cases hnext
      | cons u others => simpa [nextIs] using hnext
  have hdeclares : functionStatement stop (expression stop depth 0) (statement stop depth) rounds k
      t.pos (name :: opening :: (names ++ closing :: (tokens ++ rest)))
        = .ok (.function t.pos ⟨some name.lexeme, ps, b, t.pos⟩, rest) := by
    simp only [functionStatement, expect_cons hname, ok_bind, hreadParams, harrow,
      Bool.false_eq_true, if_false, hreadBody]
    rfl
  rw [← hdeclares]
  rcases hk with rfl | rfl | ⟨rfl, -⟩ <;>
    simp [openStatement, hword, nextIs_cons hname]

-- ============================================================= arms

/-- The arms of an `if` are recovered where their `end` follows, from whatever
position they are read. -/
abbrev RecoversArm (stop : Position) (arms : Stmt) (tokens : List Token) : Prop :=
  ∀ pos, Recovers Stmt.unplaced
    (fun depth rounds => ifArm stop (expression stop depth 0) (statement stop depth) rounds pos)
    (fun rest => nextIs (.keyword .end_) rest = true) arms tokens

/-- The condition of an arm and the block behind it are read, and the token
behind the block decides. -/
theorem ifArm_head {condition : Expr} {yes : List Stmt} {t : Token} {front tokens : List Token}
    (hhead : RecoversExpr stop condition front)
    (hseparates : t.kind = .keyword .then_ ∨ t.IsSeparator)
    (hinner : RecoversBlock stop [.elif, .else_, .end_] yes tokens) :
    ∃ x y, x.unplaced = condition.unplaced ∧ Program.unplaced y = Program.unplaced yes ∧
      ∃ n, ∀ depth rounds, n ≤ depth → n ≤ rounds → ∀ rest,
        atBlockEnd [.elif, .else_, .end_] rest = true →
        expression stop depth 0 (front ++ t :: (tokens ++ rest)) = .ok (x, t :: (tokens ++ rest)) ∧
          block stop (statement stop depth) [.elif, .else_, .end_] rounds
            (if nextIs (.keyword .then_) (t :: (tokens ++ rest)) then (t :: (tokens ++ rest)).tail
              else t :: (tokens ++ rest)) = .ok (y, rest) := by
  obtain ⟨x, hx, n, hreadHead⟩ := hhead
  obtain ⟨y, hy, m, hreadBlock⟩ := hinner
  refine ⟨x, y, hx, hy, n + m + 1, fun depth rounds hd hr rest hrest => ⟨?_, ?_⟩⟩
  · refine hreadHead depth rounds (by omega) (by omega) _ ?_
    rcases hseparates with h | h
    · exact stops_cons (by rw [h]; exact ⟨rfl, rfl⟩)
    · exact stops_separator h _
  · have hreadBlock : block stop (statement stop depth) [.elif, .else_, .end_] rounds
        (tokens ++ rest) = .ok (y, rest) :=
      hreadBlock depth rounds (by omega) (by omega) rest hrest
    rcases hseparates with h | h
    · rw [nextIs_cons h, if_pos rfl, List.tail_cons, hreadBlock]
    · have hthen : t.kind ≠ .keyword .then_ := by rcases h with h | h <;> rw [h] <;> decide
      rw [nextIs_cons_ne hthen, if_neg Bool.false_ne_true, block_separator h (by omega), hreadBlock]

private theorem if_unplaced {pos pos' : Position} {condition condition' : Expr}
    {yes yes' : List Stmt}
    {no no' : Option (List Stmt)} (hcondition : condition.unplaced = condition'.unplaced)
    (hyes : Program.unplaced yes = Program.unplaced yes')
    (hno : no.map Program.unplaced = no'.map Program.unplaced) :
    (Stmt.if_ pos condition yes no).unplaced = (Stmt.if_ pos' condition' yes' no').unplaced := by
  simp only [Expr.unplaced, Program.unplaced, Program.moved] at hcondition hyes
  cases no <;> cases no' <;>
    simp_all only [Stmt.unplaced, Stmt.moved, Option.map_none, Option.map_some, Option.some.injEq,
      reduceCtorEq, Program.unplaced, Program.moved]

private theorem atBlockEnd_keyword {stops : List Keyword} {t : Token} {k : Keyword}
    (hkind : t.kind = .keyword k) (hk : stops.contains k = true) (rest : List Token) :
    atBlockEnd stops (t :: rest) = true := by
  simp only [atBlockEnd, hkind, hk]

private theorem atBlockEnd_of_nextIs_end {stops : List Keyword}
    (hstops : stops.contains .end_ = true)
    {rest : List Token} (h : nextIs (.keyword .end_) rest = true) :
    atBlockEnd stops rest = true := by
  cases rest with
  | nil => rfl
  | cons t others => exact atBlockEnd_keyword (of_decide_eq_true h) hstops others

/-- The last arm is followed by the common `end`, which it leaves alone. -/
private theorem arm_recovers_only {pos : Position} {condition : Expr} {yes : List Stmt} {t : Token}
    {front tokens : List Token} (hhead : RecoversExpr stop condition front)
    (hseparates : t.kind = .keyword .then_ ∨ t.IsSeparator)
    (hinner : RecoversBlock stop [.elif, .else_, .end_] yes tokens) :
    RecoversArm stop (.if_ pos condition yes none) (front ++ t :: tokens) := by
  intro armPos
  obtain ⟨x, y, hx, hy, n, hread⟩ := ifArm_head hhead hseparates hinner
  refine ⟨.if_ armPos x y none, if_unplaced hx hy rfl, n + 1,
    fun depth rounds hd hr rest hrest => ?_⟩
  obtain ⟨rounds, rfl⟩ : ∃ k, rounds = k + 1 := ⟨rounds - 1, by omega⟩
  obtain ⟨hreadHead, hreadBlock⟩ := hread depth rounds (by omega) (by omega) rest
    (atBlockEnd_of_nextIs_end rfl hrest)
  simp only [ifArm, List.append_assoc, List.cons_append, hreadHead, ok_bind, hreadBlock]
  obtain - | ⟨⟨kind, lexeme, p⟩, others⟩ := rest
  · rfl
  · obtain rfl : kind = .keyword .end_ := of_decide_eq_true hrest
    rfl

/-- Behind `elif` comes another arm, and the tree has it as a nested `if`. -/
private theorem arm_recovers_elif {pos : Position} {condition : Expr} {yes : List Stmt} {arm : Stmt}
    {t word : Token} {front tokens others : List Token} (hhead : RecoversExpr stop condition front)
    (hseparates : t.kind = .keyword .then_ ∨ t.IsSeparator)
    (hinner : RecoversBlock stop [.elif, .else_, .end_] yes tokens)
    (hword : word.kind = .keyword .elif) (hother : RecoversArm stop arm others) :
    RecoversArm stop (.if_ pos condition yes (some [arm]))
      (front ++ t :: (tokens ++ word :: others)) := by
  intro armPos
  obtain ⟨x, y, hx, hy, n, hread⟩ := ifArm_head hhead hseparates hinner
  obtain ⟨z, hz, m, hreadArm⟩ := hother word.pos
  refine ⟨.if_ armPos x y (some [z]), if_unplaced hx hy ?_, n + m + 1,
    fun depth rounds hd hr rest hrest => ?_⟩
  · exact congrArg (fun s => some [s]) hz
  obtain ⟨rounds, rfl⟩ : ∃ k, rounds = k + 1 := ⟨rounds - 1, by omega⟩
  obtain ⟨hreadHead, hreadBlock⟩ := hread depth rounds (by omega) (by omega)
    (word :: (others ++ rest)) (atBlockEnd_keyword hword rfl _)
  have hreadArm : ifArm stop (expression stop depth 0) (statement stop depth) rounds word.pos
      (others ++ rest) = .ok (z, rest) := hreadArm depth rounds (by omega) (by omega) rest hrest
  obtain ⟨kind, lexeme, p⟩ := word
  obtain rfl : kind = .keyword .elif := hword
  simp only [ifArm, List.append_assoc, List.cons_append, hreadHead, ok_bind, hreadBlock, hreadArm]
  rfl

/-- So it has what is written as `else if`, without an `end` of its own. -/
private theorem arm_recovers_elseIf {pos : Position} {condition : Expr} {yes : List Stmt}
    {arm : Stmt} {t word word' : Token} {front tokens others : List Token}
    (hhead : RecoversExpr stop condition front)
    (hseparates : t.kind = .keyword .then_ ∨ t.IsSeparator)
    (hinner : RecoversBlock stop [.elif, .else_, .end_] yes tokens)
    (hword : word.kind = .keyword .else_) (hword' : word'.kind = .keyword .if_)
    (hother : RecoversArm stop arm others) :
    RecoversArm stop (.if_ pos condition yes (some [arm]))
      (front ++ t :: (tokens ++ word :: word' :: others)) := by
  intro armPos
  obtain ⟨x, y, hx, hy, n, hread⟩ := ifArm_head hhead hseparates hinner
  obtain ⟨z, hz, m, hreadArm⟩ := hother word'.pos
  refine ⟨.if_ armPos x y (some [z]), if_unplaced hx hy ?_, n + m + 1,
    fun depth rounds hd hr rest hrest => ?_⟩
  · exact congrArg (fun s => some [s]) hz
  obtain ⟨rounds, rfl⟩ : ∃ k, rounds = k + 1 := ⟨rounds - 1, by omega⟩
  obtain ⟨hreadHead, hreadBlock⟩ := hread depth rounds (by omega) (by omega)
    (word :: word' :: (others ++ rest)) (atBlockEnd_keyword hword rfl _)
  have hreadArm : ifArm stop (expression stop depth 0) (statement stop depth) rounds word'.pos
      (others ++ rest) = .ok (z, rest) := hreadArm depth rounds (by omega) (by omega) rest hrest
  obtain ⟨kind, lexeme, p⟩ := word
  obtain ⟨kind', lexeme', p'⟩ := word'
  obtain rfl : kind = .keyword .else_ := hword
  obtain rfl : kind' = .keyword .if_ := hword'
  simp only [ifArm, List.append_assoc, List.cons_append, hreadHead, ok_bind, hreadBlock, hreadArm]
  rfl

/-- Any other block behind `else`; it must not begin with `if`, or it would be read as an
arm. -/
private theorem arm_recovers_else {pos : Position} {condition : Expr} {yes no : List Stmt}
    {t word : Token}
    {front tokens others : List Token} (hhead : RecoversExpr stop condition front)
    (hseparates : t.kind = .keyword .then_ ∨ t.IsSeparator)
    (hinner : RecoversBlock stop [.elif, .else_, .end_] yes tokens)
    (hword : word.kind = .keyword .else_) (hother : RecoversBlock stop [.end_] no others)
    (hnotIf : nextIs (.keyword .if_) others = false) :
    RecoversArm stop (.if_ pos condition yes (some no))
      (front ++ t :: (tokens ++ word :: others)) := by
  intro armPos
  obtain ⟨x, y, hx, hy, n, hread⟩ := ifArm_head hhead hseparates hinner
  obtain ⟨z, hz, m, hreadOther⟩ := hother
  refine ⟨.if_ armPos x y (some z), if_unplaced hx hy (congrArg some hz), n + m + 1,
    fun depth rounds hd hr rest hrest => ?_⟩
  obtain ⟨rounds, rfl⟩ : ∃ k, rounds = k + 1 := ⟨rounds - 1, by omega⟩
  obtain ⟨hreadHead, hreadBlock⟩ := hread depth rounds (by omega) (by omega)
    (word :: (others ++ rest)) (atBlockEnd_keyword hword rfl _)
  have hreadOther : block stop (statement stop depth) [.end_] rounds (others ++ rest)
      = .ok (z, rest) :=
    hreadOther depth rounds (by omega) (by omega) rest (atBlockEnd_of_nextIs_end rfl hrest)
  have hnotIf : nextIs (.keyword .if_) (others ++ rest) = false := by
    cases others with
    | nil =>
      cases rest with
      | nil => rfl
      | cons u more => exact nextIs_cons_ne (by rw [of_decide_eq_true hrest]; decide) more
    | cons u more => exact hnotIf
  obtain ⟨kind, lexeme, p⟩ := word
  obtain rfl : kind = .keyword .else_ := hword
  simp only [ifArm, List.append_assoc, List.cons_append, hreadHead, ok_bind, hreadBlock]
  -- The two forms behind `else` are told apart by its next token, which is no `if`.
  split
  case h_2 heq =>
    obtain ⟨-, hmore⟩ := List.cons.inj heq
    rw [hmore] at hnotIf
    cases hnotIf
  case h_3 heq =>
    obtain ⟨-, hmore⟩ := List.cons.inj heq
    rw [← hmore, hreadOther]
    rfl
  all_goals simp_all

private theorem stmt_recovers_if {arms : Stmt} {t close : Token} {tokens : List Token}
    (hword : t.kind = .keyword .if_) (hinner : RecoversArm stop arms tokens)
    (hclose : close.kind = .keyword .end_) :
    RecoversStmt stop arms (t :: (tokens ++ [close])) := by
  obtain ⟨y, hy, n, hread⟩ := hinner t.pos
  refine ⟨y, hy, n, fun depth rounds hd hr rest _ => ?_⟩
  have hread : ifArm stop (expression stop depth 0) (statement stop depth) rounds t.pos
      (tokens ++ close :: rest) = .ok (y, close :: rest) :=
    hread depth rounds hd hr _ (nextIs_cons hclose rest)
  simp only [openStatement, List.cons_append, List.append_assoc, List.nil_append, hword,
    ifStatement, hread, ok_bind, expectKeyword, expect_cons hclose]
  rfl

-- =========================================================== blocks

/-- A statement with what ends it: it is read with the separator behind it, or
up to what closes its block. -/
theorem statement_ends {s : Stmt} {tokens : List Token} (h : RecoversStmt stop s tokens) :
    ∃ y, y.unplaced = s.unplaced ∧ ∃ n, ∀ depth, n ≤ depth → ∀ rest left,
      atStatementEnd rest = true → statementEnd stop rest = .ok left →
        statement stop depth (tokens ++ rest) = .ok (y, left) := by
  obtain ⟨y, hy, n, hread⟩ := h
  refine ⟨y, hy, n + 1, fun depth hd rest left hrest hleft => ?_⟩
  obtain ⟨depth, rfl⟩ : ∃ k, depth = k + 1 := ⟨depth - 1, by omega⟩
  have hread : openStatement stop (expression stop depth 0) (statement stop depth) depth
      (tokens ++ rest) = .ok (y, rest) := hread depth depth (by omega) (by omega) rest hrest
  simp only [statement, endedStatement, hread, ok_bind, hleft]
  rfl

/-- A block without statements is a gap, and what closes it follows at once. -/
private theorem block_recovers_none {stops : List Keyword} (hstops : ClosesBlock stops)
    {gap : List Token} (hgap : Gap gap) : RecoversBlock stop stops [] gap := by
  refine ⟨[], rfl, 1, fun depth rounds _ hr rest hrest => ?_⟩
  obtain ⟨rounds, rfl⟩ := Nat.exists_eq_add_of_le' hr
  have hskip : skipSeparators (gap ++ rest) = rest := by
    rw [skipSeparators_gap hgap, (of_atBlockEnd hstops hrest).2.1]
  simp only [block, hskip]
  rw [if_pos hrest]

/-- One round of the loop over statements: the first one is read. -/
theorem block_statement {stops : List Keyword} (hstops : ClosesBlock stops) {p : Parser Stmt}
    {s y : Stmt} {gap tokens rest left : List Token} (hgap : Gap gap) (hs : s.Written tokens)
    (hread : p (tokens ++ rest) = .ok (y, left)) (rounds : Nat) :
    block stop p stops (rounds + 1) (gap ++ (tokens ++ rest)) = do
      let (others, left) ← block stop p stops rounds left
      return (y :: others, left) := by
  obtain ⟨t, more, rfl, ht⟩ := stmt_opening hs
  have hskip : skipSeparators (gap ++ (t :: more ++ rest)) = t :: more ++ rest := by
    rw [skipSeparators_gap hgap]
    exact skipSeparators_cons (not_isSeparator_of_opensStatement ht) _
  have hend : atBlockEnd stops (t :: more ++ rest) = false := atBlockEnd_eq_false hstops ht _
  simp only [block, hskip, hend, Bool.false_eq_true, if_false, hread, ok_bind]

private theorem block_recovers_last {stops : List Keyword} (hstops : ClosesBlock stops) {s : Stmt}
    {gap tokens : List Token} (hgap : Gap gap) (hs : s.Written tokens)
    (hinner : RecoversStmt stop s tokens) : RecoversBlock stop stops [s] (gap ++ tokens) := by
  obtain ⟨y, hy, n, hread⟩ := statement_ends hinner
  refine ⟨[y], congrArg (fun s => [s]) hy, n + 2, fun depth rounds hd hr rest hrest => ?_⟩
  obtain ⟨rounds, rfl⟩ : ∃ k, rounds = k + 2 := ⟨rounds - 2, by omega⟩
  obtain ⟨hend, hskip, hseparates⟩ := of_atBlockEnd hstops hrest
  have hleft : statementEnd stop rest = .ok rest := by
    rw [statementEnd, hseparates, if_neg Bool.false_ne_true, if_pos hend]
  have hread := hread depth (by omega) rest rest hend hleft
  rw [List.append_assoc]
  refine (block_statement hstops hgap hs hread (rounds + 1)).trans ?_
  simp only [block, hskip, hrest, if_true]
  rfl

/-- A statement and what separates it from the next. The separator is taken with the
statement, and further ones by the next round. -/
private theorem block_recovers_more {stops : List Keyword} (hstops : ClosesBlock stops) {s : Stmt}
    {body : List Stmt} {gap tokens others : List Token} {t : Token} (hgap : Gap gap)
    (hs : s.Written tokens) (hinner : RecoversStmt stop s tokens) (hseparates : t.IsSeparator)
    (hother : RecoversBlock stop stops body others) :
    RecoversBlock stop stops (s :: body) (gap ++ (tokens ++ t :: others)) := by
  obtain ⟨y, hy, n, hread⟩ := statement_ends hinner
  obtain ⟨ys, hys, m, hreadOthers⟩ := hother
  refine ⟨y :: ys, ?_, n + m + 1, fun depth rounds hd hr rest hrest => ?_⟩
  · simp only [Stmt.unplaced, Program.unplaced, Program.moved] at hy hys
    simp only [Program.unplaced, Program.moved, Stmt.movedBody, hy, hys]
  obtain ⟨rounds, rfl⟩ : ∃ k, rounds = k + 1 := ⟨rounds - 1, by omega⟩
  have hend : atStatementEnd (t :: (others ++ rest)) = true := by
    rcases hseparates with h | h <;> simp only [atStatementEnd, h]
  have hleft : statementEnd stop (t :: (others ++ rest)) = .ok (others ++ rest) := by
    rcases hseparates with h | h <;> simp [statementEnd, nextIs, h]
  have hread := hread depth (by omega) (t :: (others ++ rest)) (others ++ rest) hend hleft
  have hreadOthers : block stop (statement stop depth) stops rounds (others ++ rest)
      = .ok (ys, rest) := hreadOthers depth rounds (by omega) (by omega) rest hrest
  simp only [List.append_assoc, List.cons_append]
  refine (block_statement hstops hgap hs hread rounds).trans ?_
  rw [hreadOthers]
  rfl

-- ========================================================= the walk

private theorem closesBlock_end : ClosesBlock [.end_] := by
  intro k hk
  simpa using Or.inr (Or.inr hk)

private theorem closesBlock_arms : ClosesBlock [.elif, .else_, .end_] := by
  intro k hk
  simpa using hk

mutual

/-- The derivation is walked through once, by recursion on it. Each form hands what has
been recovered of its parts to its own lemma. -/
private theorem operand_chained (stop : Position) {e : Expr} {tokens : List Token} :
    e.Operand tokens → Chained stop e tokens
  | .literal leaf => chained_literal leaf
  | .name kind => chained_name kind
  | .list opens parts closes => chained_list opens (items_recovered stop parts) closes
  | .map opens parts closes => chained_map opens (entries_recovered stop parts) closes
  | .parens opens gap inner gap' closes =>
    chained_parens opens gap (expr_recovered stop inner) (expr_opening inner) gap' closes
  | .call head opens parts closes =>
    chained_call (operand_chained stop head) opens (items_recovered stop parts) closes
  | .index head opens gap inner gap' closes =>
    chained_index (operand_chained stop head) opens gap (expr_recovered stop inner)
      (expr_opening inner) gap' closes
  | .member head dot kind => chained_member (operand_chained stop head) dot kind

private theorem expr_recovered (stop : Position) {e : Expr} {tokens : List Token} :
    e.Written tokens → RecoversExpr stop e tokens
  | .operand inner =>
    expression_recovers_operand (operand_chained stop inner) (operand_opening inner) 0
  | .unary sign inner =>
    expression_recovers_unary sign (operand_chained stop inner) (operand_opening inner)
  | .binary head sign joint tail =>
    expression_recovers_join (operand_chained stop head) (operand_opening head) sign joint
      (operand_chained stop tail) (operand_opening tail)
  | .logical head sign joint tail =>
    expression_recovers_join (operand_chained stop head) (operand_opening head) sign joint
      (operand_chained stop tail) (operand_opening tail)
  | .function word parts inner =>
    expression_recovers_function word parts (body_recovered stop inner)

private theorem items_recovered (stop : Position) {items : List Expr} {tokens : List Token} :
    Listed Expr.Written items tokens → ItemsRecovered stop items tokens
  | .none gap => .none gap
  | .last gap item gap' => .last gap ⟨expr_recovered stop item, expr_opening item⟩ gap'
  | .more gap item gap' comma parts =>
    .more gap ⟨expr_recovered stop item, expr_opening item⟩ gap' comma
      (items_recovered stop parts)

private theorem field_recovered (stop : Position) {pair : Expr × Expr} {tokens : List Token} :
    Expr.Field pair tokens →
      Recovers forgetEntry (fun depth _ => entry stop (expression stop depth 0)) Stops pair tokens
  | .mk head gap colon gap' tail =>
    entry_recovers (expr_recovered stop head) gap colon gap' (expr_recovered stop tail)
      (expr_opening tail)

private theorem entries_recovered (stop : Position) {entries : List (Expr × Expr)}
    {tokens : List Token} :
    Listed Expr.Field entries tokens → EntriesRecovered stop entries tokens
  | .none gap => .none gap
  | .last gap item gap' => .last gap ⟨field_recovered stop item, field_opening item⟩ gap'
  | .more gap item gap' comma parts =>
    .more gap ⟨field_recovered stop item, field_opening item⟩ gap' comma
      (entries_recovered stop parts)

private theorem body_recovered (stop : Position) {body : List Stmt} {tokens : List Token} :
    Expr.Body body tokens → RecoversBody stop body tokens
  | .arrow opens inner => body_recovers_arrow opens (expr_recovered stop inner)
  | .block inner closes =>
    body_recovers_block (block_recovered stop closesBlock_end inner)
      (block_nextIs inner rfl nofun nofun) closes

private theorem stmt_recovered (stop : Position) {s : Stmt} {tokens : List Token} :
    s.Written tokens → RecoversStmt stop s tokens
  | .let_ word kind assigns inner =>
    stmt_recovers_let word kind assigns (expr_recovered stop inner)
  | .assign place head sign inner =>
    stmt_recovers_assign place (expr_recovered stop head) (expr_opening head) sign
      (expr_recovered stop inner)
  | .change word place head sign inner =>
    stmt_recovers_change word place (expr_recovered stop head) sign (expr_recovered stop inner)
  | .expr inner => stmt_recovers_expr (expr_recovered stop inner) (expr_opening inner)
  | .if_ word inner closes => stmt_recovers_if word (arm_recovered stop inner) closes
  | .while_ word head separates inner closes =>
    stmt_recovers_while word (expr_recovered stop head) separates
      (block_recovered stop closesBlock_end inner) closes
  | .for_ word kind word' head separates inner closes =>
    stmt_recovers_for word kind word' (expr_recovered stop head) separates
      (block_recovered stop closesBlock_end inner) closes
  | .function (.inl word) kind parts inner =>
    stmt_recovers_function word (.inl rfl) kind parts (body_recovered stop inner)
  | .function (.inr word) kind parts inner =>
    stmt_recovers_function word (.inr (.inl rfl)) kind parts (body_recovered stop inner)
  | .short word kind parts opens inner =>
    stmt_recovers_function word (.inr (.inr ⟨rfl, nextIs_cons opens _⟩)) kind parts
      (body_recovers_arrow opens (expr_recovered stop inner))
  | .returnNone word => stmt_recovers_returnNone word
  | .returnSome word inner =>
    stmt_recovers_returnSome word (expr_recovered stop inner) (expr_opening inner)
  | .break_ word => stmt_recovers_break word
  | .continue_ word => stmt_recovers_continue word

private theorem arm_recovered (stop : Position) {arms : Stmt} {tokens : List Token} :
    arms.Arm tokens → RecoversArm stop arms tokens
  | .only head separates inner =>
    arm_recovers_only (expr_recovered stop head) separates
      (block_recovered stop closesBlock_arms inner)
  | .else_ head separates inner kind other notIf =>
    arm_recovers_else (expr_recovered stop head) separates
      (block_recovered stop closesBlock_arms inner) kind
      (block_recovered stop closesBlock_end other) notIf
  | .elif head separates inner kind other =>
    arm_recovers_elif (expr_recovered stop head) separates
      (block_recovered stop closesBlock_arms inner) kind (arm_recovered stop other)
  | .elseIf head separates inner kind kind' other =>
    arm_recovers_elseIf (expr_recovered stop head) separates
      (block_recovered stop closesBlock_arms inner) kind kind' (arm_recovered stop other)

private theorem block_recovered (stop : Position) {stops : List Keyword}
    (hstops : ClosesBlock stops) {body : List Stmt} {tokens : List Token} :
    Stmt.Block body tokens → RecoversBlock stop stops body tokens
  | .none blank => block_recovers_none hstops blank
  | .last blank inner => block_recovers_last hstops blank inner (stmt_recovered stop inner)
  | .more blank inner separates other =>
    block_recovers_more hstops blank inner (stmt_recovered stop inner) separates
      (block_recovered stop hstops other)

end

end Scriptlet.Parser

namespace Scriptlet

/-- Whatever way a program is written, its tokens make a program again, and the
same one up to positions. -/
theorem Parser.program_of_written (stop : Position) {program : Program} {tokens : List Token}
    (h : program.Written tokens) :
    ∃ again, Parser.program stop tokens = .ok again ∧ again.unplaced = program.unplaced := by
  let enough := depthFor tokens
  have hclosed : ClosesBlock [] := fun _ hk => nomatch hk
  obtain ⟨again, hagain, n, hread⟩ := block_recovered stop hclosed h
  have hread : block stop (statement stop (n + enough)) [] (n + enough) (tokens ++ [])
      = .ok (again, []) :=
    hread _ _ (Nat.le_add_right n enough) (Nat.le_add_right n enough) [] rfl
  refine ⟨again, ?_, hagain⟩
  rw [List.append_nil] at hread
  rw [program_eq_of_depthFor_le stop tokens (Nat.le_add_left enough n) (Nat.le_add_left enough n),
    hread]
  rfl

/-- Reading undoes writing: every printable program can be written, and whatever
way it is written, with marks of indentation anywhere and anything behind the
end mark, reading gives it back, up to positions. -/
theorem Program.written_reads_back {program : Program} (h : program.Printable) :
    (∃ tokens, program.Written (Token.marks tokens))
      ∧ ∀ tokens, program.Written (Token.marks tokens) →
        ∃ again, Program.ofTokens tokens = .ok again ∧ again.unplaced = program.unplaced := by
  refine ⟨h.exists_written, fun tokens hwritten => ?_⟩
  rw [Program.ofTokens, Token.marks_eq]
  exact Parser.program_of_written _ hwritten

/-- A loop whose condition calls a function literal: `while (function(n) … end)(a)`
and `a.b += -a` in its body. -/
def countdown : Program :=
  [.while_ .start
    (.call .start (.function .start ⟨none, [⟨"n", .start⟩], [.return_ .start
      (some (.name .start "n"))], .start⟩) [.name .start "a"])
    [.assign .start (.index .start (.name .start "a") (.literal .start (.string "b")))
      (some .add) (.unary .start .negate (.name .start "a"))]]

/-- The theorem at a loop whose condition calls a literal function and whose body assigns to
an item. -/
theorem Program.written_reads_back_countdown :
    countdown.Printable ∧ (∃ tokens, countdown.Written (Token.marks tokens))
      ∧ ∀ tokens, countdown.Written (Token.marks tokens) →
        ∃ again, Program.ofTokens tokens = .ok again ∧ again.unplaced = countdown.unplaced := by
  have literal : (Expr.function .start ⟨none, [⟨"n", .start⟩], [.return_ .start
      (some (.name .start "n"))], .start⟩).Printable :=
    .function (by decide) (List.forall_mem_singleton.2 (.returnSome .name))
  have body : Stmt.Printable (.assign .start
      (.index .start (.name .start "a") (.literal .start (.string "b"))) (some .add)
      (.unary .start .negate (.name .start "a"))) :=
    .assign rfl (.inr (.inl rfl)) (.index .name (.literal (.string "b"))) (.unary .name)
  have printable : countdown.Printable := List.forall_mem_singleton.2
    (.while_ (.call literal (List.forall_mem_singleton.2 .name)) (List.forall_mem_singleton.2 body))
  exact ⟨printable, Program.written_reads_back printable⟩

end Scriptlet
