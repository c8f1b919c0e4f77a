/-
Trees that the grammar makes. The types of trees admit more than any source can spell: a
call as the target of an assignment, two parameters of one name, a declared function
without a name, a block on its own. The parsers never make these, whatever tokens they are
given, nor anything that holds one of them (`Program.ofTokens_formed`).

# How the induction goes

A parser `Gives` what holds of everything that it reads. The parsers take the smaller ones
they are built from as arguments, so there is one lemma for each of them, from what the
arguments give to what the result gives, and `expression` and `statement` tie the knot by
induction on the depth. Only four parsers do more than to hand on what they were given:
`parameters` looks names up among those before, the two assignments check their target, and
the two readings of a function set its name or leave it out.
-/
import Scriptlet.Proofs.Grammar.Content
import Scriptlet.Proofs.Grammar.Written
import Scriptlet.Proofs.Tree.Rule

namespace Scriptlet

/-- The operators that an assignment can have. -/
def BinaryOp.ofAssignment : List (Option BinaryOp) :=
  [none, some .add, some .sub, some .mul, some .div]

/-- What a source can spell: assignments to a name with any number of index steps, with an
operator of those; functions with distinct parameters, which have a name if they are
declared and none if they are values; and no block on its own. -/
def Tree.Rule.formed : Tree.Rule where
  expr e := ∀ code ∈ e.code?, code.name = none
  stmt
    | .assign _ target op _ => target.IsPlace = true ∧ op ∈ BinaryOp.ofAssignment
    | .function _ code => code.name.isSome = true
    | .block _ _ => False
    | _ => True
  code code := (code.params.map Param.name).Nodup

/-- An expression that makes no function is formed if its parts are. -/
theorem Expr.every_formed {e : Expr} (hparts : ∀ p ∈ e.parts, p.Every .formed)
    (hcode : e.code? = none) : e.Every .formed := by
  refine .mk (fun code h => ?_) hparts fun code h => ?_
  all_goals
    rw [hcode] at h
    cases h

/-- A statement that holds no function is formed if its parts are and it is one of a
parsed program itself. -/
theorem Stmt.every_formed {s : Stmt} (here : Tree.Rule.formed.stmt s)
    (hexprs : ∀ e ∈ s.exprs, e.Every .formed) (hparts : ∀ p ∈ s.parts, p.Every .formed)
    (hcode : s.code? = none) : s.Every .formed := by
  refine .mk here hexprs hparts fun code h => ?_
  rw [hcode] at h
  cases h

namespace Parser

variable {α : Type} {stop : Position}

/-- A parser that reads only what `P` holds of. -/
def Gives (P : α → Prop) (p : Parser α) : Prop :=
  ∀ ⦃tokens : List Token⦄ ⦃x : α⦄ ⦃rest : List Token⦄, p tokens = .ok (x, rest) → P x

-- ====================================================== item lists

/-- What is read in a list is formed because each item is. -/
private theorem commaList_gives {P : α → Prop} {item : Parser α} (hitem : Gives P item)
    (close : Symbol)
    (rounds : Nat) : Gives (fun xs => ∀ x ∈ xs, P x) (commaList stop item close rounds) := by
  induction rounds with
  | zero => intro tokens xs rest h; cases h
  | succ rounds ih =>
    intro tokens xs rest h
    simp only [commaList] at h
    split at h
    · cases h
      exact List.forall_mem_nil _
    · obtain ⟨⟨first, behind⟩, hfirst, h⟩ := Except.ok_of_bind h
      dsimp only at h
      split at h
      · obtain ⟨⟨others, left⟩, hothers, h⟩ := Except.ok_of_bind h
        cases h
        exact List.forall_mem_cons.2 ⟨hitem hfirst, ih hothers⟩
      · obtain ⟨⟨t, left⟩, -, h⟩ := Except.ok_of_bind h
        cases h
        exact List.forall_mem_singleton.2 (hitem hfirst)

/-- No parameter has the name of another, or one of those seen before. -/
theorem parameters_gives (rounds : Nat) (seen : List String) :
    Gives (fun params => (params.map Param.name).Nodup ∧ ∀ p ∈ params, p.name ∉ seen)
      (parameters stop rounds seen) := by
  induction rounds generalizing seen with
  | zero => intro tokens params rest h; cases h
  | succ rounds ih =>
    intro tokens params rest h
    simp only [parameters] at h
    split at h
    · cases h
      exact ⟨List.nodup_nil, List.forall_mem_nil _⟩
    · obtain ⟨⟨name, behind⟩, -, h⟩ := Except.ok_of_bind h
      dsimp only at h
      split at h
      · obtain ⟨_, h, -⟩ := Except.ok_of_bind h
        cases h
      · next hseen =>
        have hnew : name.lexeme ∉ seen := by simpa using hseen
        split at h
        · obtain ⟨⟨others, left⟩, hothers, h⟩ := Except.ok_of_bind h
          cases h
          obtain ⟨hdistinct, hunseen⟩ := ih _ hothers
          refine ⟨?_, List.forall_mem_cons.2 ⟨hnew, fun p hp hmem => ?_⟩⟩
          · rw [List.map_cons, List.nodup_cons]
            refine ⟨fun hmem => ?_, hdistinct⟩
            obtain ⟨p, hp, heq⟩ := List.mem_map.1 hmem
            exact hunseen p hp (heq ▸ List.mem_cons_self)
          · exact hunseen p hp (List.mem_cons_of_mem _ hmem)
        · obtain ⟨⟨t, left⟩, -, h⟩ := Except.ok_of_bind h
          cases h
          exact ⟨by simp, List.forall_mem_singleton.2 hnew⟩

/-- The check for a repeated name is made at each parameter, so the names are distinct. -/
private theorem parameterList_gives (rounds : Nat) :
    Gives (fun params => (params.map Param.name).Nodup) (parameterList stop rounds) := by
  intro tokens params rest h
  obtain ⟨⟨t, behind⟩, -, h⟩ := Except.ok_of_bind h
  exact (parameters_gives rounds [] h).1

-- ========================================================== blocks

section Trees

variable {expression : Parser Expr} {statement : Parser Stmt}
  (hexpr : Gives (Expr.Every .formed) expression) (hstmt : Gives (Stmt.Every .formed) statement)

include hstmt in
/-- A block gathers statements, each of them formed as the statement parser gives it. -/
private theorem block_gives (stops : List Keyword) (rounds : Nat) :
    Gives (Program.Every .formed) (block stop statement stops rounds) := by
  induction rounds with
  | zero => intro tokens body rest h; cases h
  | succ rounds ih =>
    intro tokens body rest h
    simp only [block] at h
    split at h
    · cases h
      exact List.forall_mem_nil _
    · obtain ⟨⟨first, behind⟩, hfirst, h⟩ := Except.ok_of_bind h
      obtain ⟨⟨others, left⟩, hothers, h⟩ := Except.ok_of_bind h
      cases h
      exact List.forall_mem_cons.2 ⟨hstmt hfirst, ih hothers⟩

include hstmt in
private theorem closedBlock_gives (rounds : Nat) :
    Gives (Program.Every .formed) (closedBlock stop statement rounds) := by
  intro tokens body rest h
  obtain ⟨⟨body', behind⟩, hbody, h⟩ := Except.ok_of_bind h
  obtain ⟨⟨t, left⟩, -, h⟩ := Except.ok_of_bind h
  cases h
  exact block_gives hstmt _ rounds hbody

include hexpr hstmt in
/-- The body behind an arrow is one `return`, of which only its value is to be judged. -/
private theorem functionBody_gives (rounds : Nat) :
    Gives (Program.Every .formed) (functionBody stop expression statement rounds) := by
  intro tokens body rest h
  simp only [functionBody] at h
  split at h
  · obtain ⟨⟨value, left⟩, hvalue, h⟩ := Except.ok_of_bind h
    cases h
    have hreturn : (Stmt.return_ value.pos (some value)).Every .formed :=
      Stmt.every_formed trivial (List.forall_mem_singleton.2 (hexpr hvalue))
        (List.forall_mem_nil _) rfl
    exact List.forall_mem_singleton.2 hreturn
  · exact closedBlock_gives hstmt rounds h

-- ===================================================== expressions

include hexpr

private theorem entry_gives : Gives (fun pair => pair.1.Every .formed ∧ pair.2.Every .formed)
    (entry stop expression) := by
  intro tokens pair rest h
  obtain ⟨⟨key, ts₁⟩, hkey, h⟩ := Except.ok_of_bind h
  obtain ⟨⟨colon, ts₂⟩, -, h⟩ := Except.ok_of_bind h
  obtain ⟨⟨value, ts₃⟩, hvalue, h⟩ := Except.ok_of_bind h
  cases h
  exact ⟨hexpr hkey, hexpr hvalue⟩

private theorem parenthesized_gives : Gives (Expr.Every .formed)
    (parenthesized stop expression) := by
  intro tokens e rest h
  obtain ⟨⟨inner, ts₁⟩, hinner, h⟩ := Except.ok_of_bind h
  obtain ⟨⟨paren, ts₂⟩, -, h⟩ := Except.ok_of_bind h
  cases h
  exact hexpr hinner

include hstmt in
/-- The names of its parameters differ because a repeated one is refused. -/
private theorem functionLiteral_gives (rounds : Nat) (pos : Position) :
    Gives (Expr.Every .formed) (functionLiteral stop expression statement rounds pos) := by
  intro tokens e rest h
  obtain ⟨⟨params, ts₁⟩, hparams, h⟩ := Except.ok_of_bind h
  obtain ⟨⟨body, ts₂⟩, hbody, h⟩ := Except.ok_of_bind h
  cases h
  have hcode : (Code.mk none params body pos).Every .formed :=
    .mk (parameterList_gives rounds hparams) (functionBody_gives hexpr hstmt rounds hbody)
  refine .mk (fun code h => ?_) (List.forall_mem_nil _) fun code h => ?_
  · cases h
    rfl
  · cases h
    exact hcode

include hstmt in
private theorem primary_gives (rounds : Nat) :
    Gives (Expr.Every .formed) (primary stop expression statement rounds) := by
  intro tokens e rest h
  cases tokens with
  | nil => cases h
  | cons t ts =>
    simp only [primary] at h
    split at h
    case h_1 =>
      split at h
      · cases h
        exact Expr.every_formed (List.forall_mem_nil _) rfl
      · cases h
    case h_2 | h_3 | h_4 | h_5 | h_6 =>
      cases h
      exact Expr.every_formed (List.forall_mem_nil _) rfl
    case h_7 => exact parenthesized_gives hexpr h
    case h_8 =>
      obtain ⟨⟨items, left⟩, hitems, h⟩ := Except.ok_of_bind h
      cases h
      exact Expr.every_formed (commaList_gives hexpr _ rounds hitems) rfl
    case h_9 =>
      obtain ⟨⟨entries, left⟩, hentries, h⟩ := Except.ok_of_bind h
      cases h
      have hpairs := commaList_gives (entry_gives hexpr) _ rounds hentries
      refine Expr.every_formed (fun p hp => ?_) rfl
      obtain ⟨pair, hpair, hp⟩ := List.mem_flatMap.1 hp
      simp only [List.mem_cons, List.not_mem_nil, or_false] at hp
      rcases hp with rfl | rfl
      · exact (hpairs pair hpair).1
      · exact (hpairs pair hpair).2
    case h_10 | h_11 => exact functionLiteral_gives hexpr hstmt rounds _ h
    case h_12 => cases h

/-- A suffix is put on an expression that was read before. -/
theorem suffix?_gives (rounds : Nat) {e e' : Expr} {tokens rest : List Token}
    (he : e.Every .formed) (h : suffix? stop expression rounds e tokens = some (.ok (e', rest))) :
    e'.Every .formed := by
  cases tokens with
  | nil => cases h
  | cons t ts =>
    simp only [suffix?] at h
    split at h
    · obtain ⟨⟨args, left⟩, hargs, h⟩ := Except.ok_of_bind (Option.some.inj h)
      cases h
      exact Expr.every_formed
        (List.forall_mem_cons.2 ⟨he, commaList_gives hexpr _ rounds hargs⟩) rfl
    · obtain ⟨⟨key, ts₁⟩, hkey, h⟩ := Except.ok_of_bind (Option.some.inj h)
      obtain ⟨⟨bracket, ts₂⟩, -, h⟩ := Except.ok_of_bind h
      cases h
      exact Expr.every_formed
        (List.forall_mem_cons.2 ⟨he, List.forall_mem_singleton.2 (hexpr hkey)⟩) rfl
    · obtain ⟨⟨member, left⟩, -, h⟩ := Except.ok_of_bind (Option.some.inj h)
      cases h
      have hmember : (Expr.literal member.pos (.string member.lexeme)).Every .formed :=
        Expr.every_formed (List.forall_mem_nil _) rfl
      exact Expr.every_formed
        (List.forall_mem_cons.2 ⟨he, List.forall_mem_singleton.2 hmember⟩) rfl
    · cases h

/-- Calls, items and members are formed around an expression that is. -/
private theorem suffixes_gives (rounds : Nat) {e : Expr} (he : e.Every .formed) :
    Gives (Expr.Every .formed) (suffixes stop expression rounds e) := by
  induction rounds generalizing e with
  | zero => intro tokens e' rest h; cases h
  | succ rounds ih =>
    intro tokens e' rest h
    simp only [suffixes] at h
    split at h
    · cases h
      exact he
    · cases h
    · next hsuffix => exact ih (suffix?_gives hexpr rounds he hsuffix) h

end Trees

section Climbing

variable {expression : Nat → Parser Expr} {statement : Parser Stmt}
  (hexpr : ∀ demand, Gives (Expr.Every .formed) (expression demand))
  (hstmt : Gives (Stmt.Every .formed) statement)

include hexpr

include hstmt in
private theorem operand_gives (rounds : Nat) :
    Gives (Expr.Every .formed) (operand stop expression statement rounds) := by
  intro tokens e rest h
  cases tokens with
  | nil => cases h
  | cons t ts =>
    simp only [operand] at h
    split at h
    · obtain ⟨⟨inner, left⟩, hinner, h⟩ := Except.ok_of_bind h
      cases h
      exact Expr.every_formed (List.forall_mem_singleton.2 (hexpr _ hinner)) rfl
    · obtain ⟨⟨head, left⟩, hhead, h⟩ := Except.ok_of_bind h
      exact suffixes_gives (hexpr 0) rounds (primary_gives (hexpr 0) hstmt rounds hhead) h

/-- An operator joins the formed expression on its left with one read on its right. -/
private theorem climb_gives (demand rounds : Nat) {left : Expr} (hleft : left.Every .formed) :
    Gives (Expr.Every .formed) (climb stop expression demand rounds left) := by
  induction rounds generalizing left with
  | zero => intro tokens e rest h; cases h
  | succ rounds ih =>
    intro tokens e rest h
    cases tokens with
    | nil =>
      cases h
      exact hleft
    | cons t ts =>
      simp only [climb] at h
      split at h
      · cases h
        exact hleft
      · next power _ =>
        split at h
        · cases h
          exact hleft
        · obtain ⟨⟨right, ts₁⟩, hright, h⟩ := Except.ok_of_bind h
          have hparts : ∀ p ∈ [left, right], p.Every .formed :=
            List.forall_mem_cons.2 ⟨hleft, List.forall_mem_singleton.2 (hexpr _ hright)⟩
          have hjoined : (power.joint.join t.pos left right).Every .formed := by
            cases power.joint with
            | binary op => exact Expr.every_formed hparts rfl
            | logical op => exact Expr.every_formed hparts rfl
          exact ih hjoined h

end Climbing

-- ====================================================== statements

/-- What the grammar lets through as a target is a place. -/
theorem isPlace_of_checkTarget : ∀ e : Expr, checkTarget e = .ok () → e.IsPlace = true
  | .name _ _, _ => rfl
  | .index _ collection _, h => isPlace_of_checkTarget collection h

/-- The operators of compound assignments are those of the table. -/
private theorem mem_ofAssignment {kind : Token.Kind} {op : Option BinaryOp}
    (h : assignmentOf? kind = some op) : op ∈ BinaryOp.ofAssignment := by
  unfold assignmentOf? at h
  split at h
  case h_6 => cases h
  all_goals
    cases h
    decide

/-- An assignment whose target was checked. -/
theorem assign_formed {pos : Position} {target value : Expr} {op : Option BinaryOp}
    (htarget : target.Every .formed) (hchecked : checkTarget target = .ok ())
    (hop : op ∈ BinaryOp.ofAssignment) (hvalue : value.Every .formed) :
    (Stmt.assign pos target op value).Every .formed :=
  Stmt.every_formed ⟨isPlace_of_checkTarget target hchecked, hop⟩
    (List.forall_mem_cons.2 ⟨htarget, List.forall_mem_singleton.2 hvalue⟩)
    (List.forall_mem_nil _) rfl

section Statements

variable {expression : Parser Expr} {statement : Parser Stmt}
  (hexpr : Gives (Expr.Every .formed) expression) (hstmt : Gives (Stmt.Every .formed) statement)

include hexpr

private theorem letStatement_gives (pos : Position) :
    Gives (Stmt.Every .formed) (letStatement stop expression pos) := by
  intro tokens s rest h
  obtain ⟨⟨name, ts₁⟩, -, h⟩ := Except.ok_of_bind h
  obtain ⟨⟨sign, ts₂⟩, -, h⟩ := Except.ok_of_bind h
  obtain ⟨⟨value, ts₃⟩, hvalue, h⟩ := Except.ok_of_bind h
  cases h
  exact Stmt.every_formed trivial (List.forall_mem_singleton.2 (hexpr hvalue))
      (List.forall_mem_nil _) rfl

/-- The target has passed the check by the time there is a statement. -/
private theorem changeStatement_gives (pos : Position) :
    Gives (Stmt.Every .formed) (changeStatement stop expression pos) := by
  intro tokens s rest h
  obtain ⟨⟨target, ts₁⟩, htarget, h⟩ := Except.ok_of_bind h
  obtain ⟨_, hchecked, h⟩ := Except.ok_of_bind h
  obtain ⟨⟨word, ts₂⟩, -, h⟩ := Except.ok_of_bind h
  obtain ⟨⟨value, ts₃⟩, hvalue, h⟩ := Except.ok_of_bind h
  cases h
  exact assign_formed (hexpr htarget) hchecked (by decide) (hexpr hvalue)

include hstmt in
/-- Every arm further down is read as an `if` of its own, and is formed by the
induction. -/
private theorem ifArm_gives (rounds : Nat) (pos : Position) :
    Gives (Stmt.Every .formed) (ifArm stop expression statement rounds pos) := by
  induction rounds generalizing pos with
  | zero => intro tokens s rest h; cases h
  | succ rounds ih =>
    intro tokens s rest h
    simp only [ifArm] at h
    obtain ⟨⟨condition, ts₁⟩, hcondition, h⟩ := Except.ok_of_bind h
    obtain ⟨⟨yes, ts₂⟩, hyes, h⟩ := Except.ok_of_bind h
    -- what stands in the other branch, an arm or a block, is all that is left to check
    have harm {no : Option (List Stmt)} (hno : ∀ s ∈ no.getD [], s.Every .formed) :
        (Stmt.if_ pos condition yes no).Every .formed :=
      Stmt.every_formed trivial (List.forall_mem_singleton.2 (hexpr hcondition))
        (List.forall_mem_append.2 ⟨block_gives hstmt _ rounds hyes, hno⟩) rfl
    dsimp only at h
    split at h
    · obtain ⟨⟨arm, ts₃⟩, hnext, h⟩ := Except.ok_of_bind h
      cases h
      exact harm (List.forall_mem_singleton.2 (ih _ hnext))
    · obtain ⟨⟨arm, ts₃⟩, hnext, h⟩ := Except.ok_of_bind h
      cases h
      exact harm (List.forall_mem_singleton.2 (ih _ hnext))
    · obtain ⟨⟨no, ts₃⟩, hno, h⟩ := Except.ok_of_bind h
      cases h
      exact harm (block_gives hstmt _ rounds hno)
    · cases h
      exact harm (List.forall_mem_nil _)

include hstmt in
private theorem ifStatement_gives (rounds : Nat) (pos : Position) :
    Gives (Stmt.Every .formed) (ifStatement stop expression statement rounds pos) := by
  intro tokens s rest h
  obtain ⟨⟨arms, ts₁⟩, harms, h⟩ := Except.ok_of_bind h
  obtain ⟨⟨word, ts₂⟩, -, h⟩ := Except.ok_of_bind h
  cases h
  exact ifArm_gives hexpr hstmt rounds pos harms

include hstmt in
private theorem whileStatement_gives (rounds : Nat) (pos : Position) :
    Gives (Stmt.Every .formed) (whileStatement stop expression statement rounds pos) := by
  intro tokens s rest h
  obtain ⟨⟨condition, ts₁⟩, hcondition, h⟩ := Except.ok_of_bind h
  obtain ⟨⟨body, ts₂⟩, hbody, h⟩ := Except.ok_of_bind h
  cases h
  exact Stmt.every_formed trivial (List.forall_mem_singleton.2 (hexpr hcondition))
    (closedBlock_gives hstmt rounds hbody) rfl

include hstmt in
private theorem forStatement_gives (rounds : Nat) (pos : Position) :
    Gives (Stmt.Every .formed) (forStatement stop expression statement rounds pos) := by
  intro tokens s rest h
  obtain ⟨⟨name, ts₁⟩, -, h⟩ := Except.ok_of_bind h
  obtain ⟨⟨word, ts₂⟩, -, h⟩ := Except.ok_of_bind h
  obtain ⟨⟨iterable, ts₃⟩, hiterable, h⟩ := Except.ok_of_bind h
  obtain ⟨⟨body, ts₄⟩, hbody, h⟩ := Except.ok_of_bind h
  cases h
  exact Stmt.every_formed trivial (List.forall_mem_singleton.2 (hexpr hiterable))
    (closedBlock_gives hstmt rounds hbody) rfl

include hstmt in
private theorem functionStatement_gives (rounds : Nat) (keyword : Keyword) (pos : Position) :
    Gives (Stmt.Every .formed)
      (functionStatement stop expression statement rounds keyword pos) := by
  intro tokens s rest h
  obtain ⟨⟨name, ts₁⟩, -, h⟩ := Except.ok_of_bind h
  obtain ⟨⟨params, ts₂⟩, hparams, h⟩ := Except.ok_of_bind h
  dsimp only at h
  split at h
  · obtain ⟨-, h, -⟩ := Except.ok_of_bind h
    cases h
  · obtain ⟨⟨body, ts₃⟩, hbody, h⟩ := Except.ok_of_bind h
    cases h
    have hcode : (Code.mk (some name.lexeme) params body pos).Every .formed :=
      .mk (parameterList_gives rounds hparams) (functionBody_gives hexpr hstmt rounds hbody)
    refine .mk rfl (List.forall_mem_nil _) (List.forall_mem_nil _) fun code hc => ?_
    cases hc
    exact hcode

private theorem returnStatement_gives (pos : Position) :
    Gives (Stmt.Every .formed) (returnStatement expression pos) := by
  intro tokens s rest h
  simp only [returnStatement] at h
  split at h
  · cases h
    exact Stmt.every_formed trivial (List.forall_mem_nil _) (List.forall_mem_nil _) rfl
  · obtain ⟨⟨value, ts₁⟩, hvalue, h⟩ := Except.ok_of_bind h
    cases h
    exact Stmt.every_formed trivial (List.forall_mem_singleton.2 (hexpr hvalue))
      (List.forall_mem_nil _) rfl

/-- An expression in front of an assignment sign is checked as a target; any other is a
statement by itself. -/
private theorem expressionStatement_gives :
    Gives (Stmt.Every .formed) (expressionStatement expression) := by
  intro tokens s rest h
  obtain ⟨⟨e, ts₁⟩, he, h⟩ := Except.ok_of_bind h
  have halone : (Stmt.expr e.pos e).Every .formed :=
    Stmt.every_formed trivial (List.forall_mem_singleton.2 (hexpr he)) (List.forall_mem_nil _) rfl
  dsimp only at h
  split at h
  · cases h
    exact halone
  · split at h
    · cases h
      exact halone
    · next op hop =>
      obtain ⟨_, hchecked, h⟩ := Except.ok_of_bind h
      obtain ⟨⟨value, ts₂⟩, hvalue, h⟩ := Except.ok_of_bind h
      cases h
      exact assign_formed (hexpr he) hchecked (mem_ofAssignment hop) (hexpr hvalue)

include hstmt in
/-- A statement by its first token; what starts none of the forms is an expression or an
assignment. -/
private theorem openStatement_gives (rounds : Nat) :
    Gives (Stmt.Every .formed) (openStatement stop expression statement rounds) := by
  intro tokens s rest h
  cases tokens with
  | nil => exact expressionStatement_gives hexpr h
  | cons t ts =>
    simp only [openStatement] at h
    split at h
    case h_1 => exact letStatement_gives hexpr _ h
    case h_2 => exact changeStatement_gives hexpr _ h
    case h_3 => exact ifStatement_gives hexpr hstmt rounds _ h
    case h_4 => exact whileStatement_gives hexpr hstmt rounds _ h
    case h_5 => exact forStatement_gives hexpr hstmt rounds _ h
    case h_6 => exact returnStatement_gives hexpr _ h
    case h_7 | h_8 =>
      cases h
      exact Stmt.every_formed trivial (List.forall_mem_nil _) (List.forall_mem_nil _) rfl
    case h_9 k _ _ _ _ _ _ _ _ _ =>
      split at h
      · exact functionStatement_gives hexpr hstmt rounds k _ h
      · exact expressionStatement_gives hexpr h
    case h_10 => exact expressionStatement_gives hexpr h

include hstmt in
private theorem endedStatement_gives (rounds : Nat) :
    Gives (Stmt.Every .formed) (endedStatement stop expression statement rounds) := by
  intro tokens s rest h
  obtain ⟨⟨s', ts₁⟩, hs, h⟩ := Except.ok_of_bind h
  obtain ⟨ts₂, -, h⟩ := Except.ok_of_bind h
  cases h
  exact openStatement_gives hexpr hstmt rounds hs

end Statements

-- ======================================================== the knot

/-- At every depth, what is read is formed. -/
theorem gives_formed (stop : Position) (depth : Nat) :
    (∀ demand, Gives (Expr.Every .formed) (expression stop depth demand))
      ∧ Gives (Stmt.Every .formed) (statement stop depth) := by
  induction depth with
  | zero => exact ⟨fun demand tokens e rest h => (by cases h), fun tokens s rest h => (by cases h)⟩
  | succ depth ih =>
    obtain ⟨hexpr, hstmt⟩ := ih
    refine ⟨fun demand tokens e rest h => ?_, fun tokens s rest h => ?_⟩
    · simp only [expression] at h
      obtain ⟨⟨left, ts₁⟩, hleft, h⟩ := Except.ok_of_bind h
      exact climb_gives hexpr demand depth (operand_gives hexpr hstmt depth hleft) h
    · simp only [statement] at h
      exact endedStatement_gives (hexpr 0) hstmt depth h

end Parser

/-- The programs that tokens spell are formed. -/
theorem Program.ofTokens_formed {tokens : List Token} {program : Program}
    (h : Program.ofTokens tokens = .ok program) : program.Every .formed := by
  obtain ⟨stop, hblock⟩ := Program.ofTokens_eq_ok h
  exact Parser.block_gives (Parser.gives_formed stop _).2 [] _ hblock

end Scriptlet
