/-
Reading goes forward. Whatever list of tokens it is given, with end marks anywhere in it or
none at all, the grammar comes to a program or an error: each expression and each
statement takes at least one token, each round of a loop either is the last or takes one,
and what is nested is read behind a token of what it is nested in. No token is taken
behind the first end mark, and none is looked at.

# Without budgets

The parsers that run have budgets for their depth and for the rounds of their loops. That
these do not matter, if they are large enough, is shown elsewhere (`follows`). Here it is
used to speak of the parsers without budgets: there is one way and one way only to read
expressions and statements that meets the equations of the grammar for all lists of tokens
(`Grammatical`). If some reading could come back to where it was, the equations would leave
it open what it gives.

# Rounds

A loop is the repetition of its body, and the body decides whether it is gone through once
more (`Step`). The bodies are written out here, and the loops of the grammar are shown to
repeat them. From where a body goes on, some tokens are taken and none of them is an end
mark (`Marches`), so no loop makes more rounds than there are tokens. The two loops that
pass over line ends and semicolons need no such care: they drop tokens from the front of a
list.

# The end of the input

Taken literally, the grammar adds an end mark where there is none (`Token.closed`), and reads
in the whole list. The parsers that run are given the tokens before the first end mark only.
Both ways agree (`Mirror.cut`), and the first never comes to the end of its list.
-/
import Mathlib.Data.List.TakeWhile
import Scriptlet.Proofs.Grammar.Budget

namespace Scriptlet

namespace Parser

variable {α β : Type} {stop : Position} {tokens rest behind : List Token}

-- =========================================================== moves

/-- What is left of what is left is left of the whole. -/
theorem Left.trans (h : Left tokens behind) (h' : Left behind rest) : Left tokens rest := by
  obtain ⟨taken, rfl, htaken⟩ := h
  obtain ⟨more, rfl, hmore⟩ := h'
  refine ⟨taken ++ more, (List.append_assoc ..).symm, fun t ht => ?_⟩
  exact (List.mem_append.1 ht).elim (htaken t) (hmore t)

/-- Reading never makes tokens. -/
theorem Left.length_le (h : Left tokens rest) : rest.length ≤ tokens.length := by
  obtain ⟨taken, rfl, -⟩ := h
  rw [List.length_append]
  exact Nat.le_add_left _ _

/-- At least one token was taken, and no end mark. -/
def Passed (tokens rest : List Token) : Prop :=
  ∃ taken, taken ≠ [] ∧ tokens = taken ++ rest ∧ ∀ t ∈ taken, t.kind ≠ .eof

/-- To have passed something is to have made the list shorter. -/
private theorem passed_iff :
    Passed tokens rest ↔ Left tokens rest ∧ rest.length < tokens.length := by
  constructor
  · rintro ⟨taken, hne, rfl, htaken⟩
    refine ⟨⟨taken, rfl, htaken⟩, ?_⟩
    rw [List.length_append]
    exact Nat.lt_add_of_pos_left (List.length_pos_iff.2 hne)
  · rintro ⟨⟨taken, rfl, htaken⟩, hlt⟩
    refine ⟨taken, ?_, rfl, htaken⟩
    rintro rfl
    exact absurd hlt (Nat.lt_irrefl _)

namespace Passed

/-- Having passed a token is stronger than having something left. -/
theorem left (h : Passed tokens rest) : Left tokens rest := (passed_iff.1 h).1

theorem length_lt (h : Passed tokens rest) : rest.length < tokens.length := (passed_iff.1 h).2

private theorem trans_left (h : Passed tokens behind) (h' : Left behind rest) :
    Passed tokens rest := by
  exact passed_iff.2 ⟨h.left.trans h', Nat.lt_of_le_of_lt h'.length_le h.length_lt⟩

end Passed

private theorem Left.trans_passed (h : Left tokens behind) (h' : Passed behind rest) :
    Passed tokens rest := by
  exact passed_iff.2 ⟨h.trans h'.left, Nat.lt_of_lt_of_le h'.length_lt h.length_le⟩

/-- Skipping tokens that are no end marks stops at the first end mark at the latest. -/
private theorem left_dropWhile {skip : Token → Bool}
    (hskip : ∀ t : Token, skip t = true → t.kind ≠ .eof)
    (tokens : List Token) : Left tokens (tokens.dropWhile skip) :=
  ⟨tokens.takeWhile skip, List.takeWhile_append_dropWhile.symm,
    fun t ht => hskip t (List.all_eq_true.1 List.all_takeWhile t ht)⟩

private theorem left_newlines (tokens : List Token) : Left tokens (skipNewlines tokens) := by
  refine left_dropWhile (fun t ht => ?_) tokens
  rw [of_decide_eq_true ht]
  simp

private theorem left_separators (tokens : List Token) : Left tokens (skipSeparators tokens) := by
  refine left_dropWhile (fun t ht => ?_) tokens
  rcases Bool.or_eq_true_iff.1 ht with ht | ht <;> rw [of_decide_eq_true ht] <;> simp

private theorem passed_cons {t : Token} (ht : t.kind ≠ .eof) (rest : List Token) :
    Passed (t :: rest) rest :=
  ⟨[t], List.cons_ne_nil _ _, rfl, fun _ hu => List.mem_singleton.1 hu ▸ ht⟩

private theorem passed_next {kind : Token.Kind} (hkind : kind ≠ .eof)
    (h : nextIs kind tokens = true) :
    Passed tokens tokens.tail := by
  obtain ⟨t, rest, rfl, rfl⟩ := nextIs_eq_true h
  exact passed_cons hkind rest

/-- A parser that takes a token whenever it succeeds, and no end mark. -/
def Advances (p : Parser α) : Prop :=
  ∀ ⦃tokens : List Token⦄ ⦃x : α⦄ ⦃rest : List Token⦄, p tokens = .ok (x, rest) →
    Passed tokens rest

/-- A token that is asked for is taken when it is there; the end mark is never asked
for. -/
private theorem expect_advances {kind : Token.Kind} (hkind : kind ≠ .eof) (expected : Expected) :
    Advances (expect stop kind expected) := by
  intro tokens t rest h
  obtain ⟨rfl, rfl⟩ := expect_eq_ok h
  exact passed_cons hkind rest

private theorem entry_advances {p : Parser Expr} (hp : Advances p) : Advances (entry stop p) := by
  intro tokens e rest h
  obtain ⟨⟨key, ts₁⟩, hkey, h⟩ := Except.ok_of_bind h
  obtain ⟨⟨colon, ts₂⟩, hcolon, h⟩ := Except.ok_of_bind h
  obtain ⟨⟨value, ts₃⟩, hvalue, h⟩ := Except.ok_of_bind h
  dsimp only at h
  cases h
  have hleft := (left_newlines ts₁).trans (expect_advances (by simp) _ hcolon).left
  exact (hp hkey).trans_left ((hleft.trans (left_newlines ts₂)).trans (hp hvalue).left)

/-- From the mirror that equal lists make with what is left of them, and from the content
that is read. -/
private theorem expression_advances (stop : Position) (depth demand : Nat) :
    Advances (expression stop depth demand) :=
  fun _ _ _ h => passed_iff.2 ⟨expression_left h, ((reads stop depth).1 demand).shrinks h⟩

private theorem statement_advances (stop : Position) (depth : Nat) : Advances
    (statement stop depth) :=
  fun _ _ _ h => passed_iff.2 ⟨statement_left h, (reads stop depth).2.shrinks h⟩

/-- A parser that advances passes no end mark, which is what the mirror of a list and its
rest asks. -/
theorem Advances.reflects {p : Parser α} (hp : Advances p) (stop : Position)
    (whole : List Token) : (Mirror.leftOf stop whole).Reflects p p := by
  rintro tokens _ ⟨rfl, hleft⟩
  cases hread : p tokens with
  | error e => exact .error trivial
  | ok a => exact .ok a.1 ⟨rfl, hleft.trans (hp hread).left⟩

private theorem commaList_left_of_advances {p : Parser α} (hp : Advances p) {close : Symbol}
    {rounds : Nat} {items : List α}
    (h : commaList stop p close rounds tokens = .ok (items, rest)) : Left tokens rest :=
  left_of_reflects (commaList_reflects (hp.reflects stop tokens) close rounds) h

private theorem block_left_of_advances {p : Parser Stmt} (hp : Advances p) {stops : List Keyword}
    {rounds : Nat} {body : List Stmt} (h : block stop p stops rounds tokens = .ok (body, rest)) :
    Left tokens rest :=
  left_of_reflects (block_reflects (hp.reflects stop tokens) stops rounds) h

-- =========================================================== loops

/-- What the body of a loop comes to: the loop is left with a result, or it is gone through
once more from some state and some tokens, and `finish` is done to what comes of that. -/
inductive Step (σ α : Type) where
  | exits (result : Except ParseError (α × List Token))
  | goesOn (state : σ) (next : List Token) (finish : α → α)

/-- One round, and what is left to do for the rounds behind it. -/
def Step.run {σ : Type} (again : σ → Parser α) : Step σ α → Except ParseError (α × List Token)
  | .exits result => result
  | .goesOn state next finish => (again state next).map fun a => (finish a.1, a.2)

/-- A loop repeats a body, and where it goes on it has taken tokens. -/
structure Marches {σ : Type} (body : σ → List Token → Step σ α) (loop : Nat → σ → Parser α) :
    Prop where
  repeats : ∀ state tokens rounds, tokens.length ≤ rounds →
    loop (rounds + 1) state tokens = (body state tokens).run (loop rounds)
  moves : ∀ {state tokens state' next finish}, body state tokens = .goesOn state' next finish →
    Passed tokens next

/-- Such a loop ends before its rounds do. -/
theorem Marches.settled {σ : Type} {body : σ → List Token → Step σ α} {loop : Nat → σ → Parser α}
    (h : Marches body loop) (state : σ) {rounds rounds' : Nat} (hr : tokens.length < rounds)
    (hr' : tokens.length < rounds') : loop rounds' state tokens = loop rounds state tokens := by
  induction rounds generalizing rounds' state tokens with
  | zero => exact absurd hr (Nat.not_lt_zero _)
  | succ rounds ih =>
    obtain ⟨rounds', rfl⟩ : ∃ k, rounds' = k + 1 := ⟨rounds' - 1, by omega⟩
    rw [h.repeats state tokens rounds (by omega), h.repeats state tokens rounds' (by omega)]
    cases hbody : body state tokens with
    | exits result => rfl
    | goesOn state' next finish =>
      have hnext := (h.moves hbody).length_lt
      exact congrArg (Except.map _) (ih state' (by omega) (by omega))

/-- The body of `commaList`. -/
def commaStep (stop : Position) (item : Parser α) (close : Symbol) (_ : Unit)
    (tokens : List Token) : Step Unit (List α) :=
  let tokens := skipNewlines tokens
  if nextIs (.symbol close) tokens then .exits (.ok ([], tokens.tail))
  else
    match item tokens with
    | .error e => .exits (.error e)
    | .ok (first, tokens) =>
        let tokens := skipNewlines tokens
        if nextIs (.symbol .comma) tokens then .goesOn () tokens.tail (first :: ·)
        else .exits do
          let (_, tokens) ← expect stop (.symbol close) (.symbol close) tokens
          return ([first], tokens)

/-- The body of `parameters`. -/
def parameterStep (stop : Position) (seen : List String) (tokens : List Token) :
    Step (List String) (List Param) :=
  let tokens := skipNewlines tokens
  if nextIs (.symbol .rightParen) tokens then .exits (.ok ([], tokens.tail))
  else
    match expect stop .name .parameterName tokens with
    | .error e => .exits (.error e)
    | .ok (name, tokens) =>
        if seen.contains name.lexeme then
          .exits (.error ⟨.distinctParameters, .duplicateParameter name.lexeme, name.pos⟩)
        else
          let tokens := skipNewlines tokens
          if nextIs (.symbol .comma) tokens then
            .goesOn (name.lexeme :: seen) tokens.tail (⟨name.lexeme, name.pos⟩ :: ·)
          else .exits do
            let (_, tokens) ← expect stop (.symbol .rightParen) .closeParameters tokens
            return ([⟨name.lexeme, name.pos⟩], tokens)

/-- The body of `block`. -/
def blockStep (statement : Parser Stmt) (stops : List Keyword) (_ : Unit) (tokens : List Token) :
    Step Unit (List Stmt) :=
  let tokens := skipSeparators tokens
  if atBlockEnd stops tokens then .exits (.ok ([], tokens))
  else
    match statement tokens with
    | .error e => .exits (.error e)
    | .ok (first, tokens) => .goesOn () tokens (first :: ·)

/-- The body of `suffixes`. -/
def suffixStep (stop : Position) (expression : Parser Expr) (e : Expr) (tokens : List Token) :
    Step Expr Expr :=
  match suffix? stop expression tokens.length e tokens with
  | none => .exits (.ok (e, tokens))
  | some (.error error) => .exits (.error error)
  | some (.ok (e, tokens)) => .goesOn e tokens id

/-- The body of `climb`. -/
def climbStep (expression : Nat → Parser Expr) (demand : Nat) (left : Expr) :
    List Token → Step Expr Expr
  | [] => .exits (.ok (left, []))
  | t :: rest =>
      match Power.of? t.kind with
      | none => .exits (.ok (left, t :: rest))
      | some power =>
          if power.left < demand then .exits (.ok (left, t :: rest))
          else
            match expression power.right rest with
            | .error e => .exits (.error e)
            | .ok (right, rest) => .goesOn (power.joint.join t.pos left right) rest id

/-- The body of `ifArm`, which goes on with the next arm. -/
def armStep (stop : Position) (expression : Parser Expr) (statement : Parser Stmt)
    (pos : Position) (tokens : List Token) : Step Position Stmt :=
  match expression tokens with
  | .error e => .exits (.error e)
  | .ok (condition, behind) =>
      let behind := if nextIs (.keyword .then_) behind then behind.tail else behind
      match block stop statement [.elif, .else_, .end_] tokens.length behind with
      | .error e => .exits (.error e)
      | .ok (yes, behind) =>
          match behind with
          | ⟨.keyword .elif, _, next⟩ :: behind
          | ⟨.keyword .else_, _, _⟩ :: ⟨.keyword .if_, _, next⟩ :: behind =>
              .goesOn next behind fun arm => .if_ pos condition yes (some [arm])
          | ⟨.keyword .else_, _, _⟩ :: behind => .exits do
              let (no, behind) ← block stop statement [.end_] tokens.length behind
              return (.if_ pos condition yes (some no), behind)
          | behind => .exits (.ok (.if_ pos condition yes none, behind))

private theorem bind_pure_eq_map (result : Except ParseError (α × List Token)) (f : α → β) :
    (result >>= fun a => pure (f a.1, a.2)) = result.map fun a => (f a.1, a.2) := by
  cases result <;> rfl

private theorem map_id_eq (result : Except ParseError (α × List Token)) :
    (result.map fun a => (id a.1, a.2)) = result := by
  cases result <;> rfl

/-- A list goes on behind a comma, which is a token taken behind an item. -/
private theorem commaList_marches (stop : Position) {item : Parser α} (hitem : Advances item)
    (close : Symbol) :
    Marches (commaStep stop item close) fun rounds _ => commaList stop item close rounds where
  repeats _ tokens rounds _ := by
    simp only [commaList, commaStep]
    split
    · rfl
    · cases item (skipNewlines tokens) with
      | error e => rfl
      | ok a =>
        dsimp only [bind, Except.bind]
        split
        · exact bind_pure_eq_map _ _
        · rfl
  moves {_ tokens _ next finish} h := by
    simp only [commaStep] at h
    split at h
    · cases h
    split at h
    · cases h
    · rename_i first ts hfirst
      split at h
      · rename_i hcomma
        cases h
        have hleft := (left_newlines ts).trans (passed_next (by simp) hcomma).left
        exact ((left_newlines tokens).trans_passed (hitem hfirst)).trans_left hleft
      · cases h

/-- The state of this loop is the names seen so far. -/
private theorem parameters_march (stop : Position) :
    Marches (parameterStep stop) (parameters stop) where
  repeats seen tokens rounds _ := by
    simp only [parameters, parameterStep]
    split
    · rfl
    · cases expect stop .name .parameterName (skipNewlines tokens) with
      | error e => rfl
      | ok a =>
        dsimp only [bind, Except.bind]
        split
        · rfl
        · split
          · exact bind_pure_eq_map _ _
          · rfl
  moves {seen tokens _ next finish} h := by
    simp only [parameterStep] at h
    split at h
    · cases h
    split at h
    · cases h
    · rename_i name ts hname
      split at h
      · cases h
      split at h
      · rename_i hcomma
        cases h
        have hleft := (left_newlines ts).trans (passed_next (by simp) hcomma).left
        have hpassed := expect_advances (by simp) _ hname
        exact ((left_newlines tokens).trans_passed hpassed).trans_left hleft
      · cases h

/-- A block goes on behind a statement. -/
private theorem block_marches (stop : Position) {p : Parser Stmt} (hp : Advances p)
    (stops : List Keyword) :
    Marches (blockStep p stops) fun rounds _ => block stop p stops rounds where
  repeats _ tokens rounds _ := by
    simp only [block, blockStep]
    split
    · rfl
    · cases p (skipSeparators tokens) with
      | error e => rfl
      | ok a => exact bind_pure_eq_map _ _
  moves {_ tokens _ next finish} h := by
    simp only [blockStep] at h
    split at h
    · cases h
    split at h
    · cases h
    · rename_i first ts hfirst
      cases h
      exact (left_separators tokens).trans_passed (hp hfirst)

/-- Which suffix is read does not depend on the rounds of its arguments. -/
theorem suffix?_settled {p : Parser Expr} (hp : Advances p) (e : Expr) {rounds : Nat}
    (hr : tokens.length ≤ rounds) :
    suffix? stop p rounds e tokens = suffix? stop p tokens.length e tokens := by
  cases tokens with
  | nil => rfl
  | cons t rest =>
    have hargs := (commaList_marches stop hp .rightParen).settled ()
      (Nat.lt_succ_self rest.length) hr
    simp only [suffix?, List.length_cons]
    split
    · rw [hargs]
    · rfl
    · rfl
    · rfl

private theorem suffix?_passed {p : Parser Expr} (hp : Advances p) {rounds : Nat} {e e' : Expr}
    (h : suffix? stop p rounds e tokens = some (.ok (e', rest))) : Passed tokens rest := by
  cases tokens with
  | nil => cases h
  | cons t behind =>
    have hfirst (hkind : t.kind ≠ .eof) : Passed (t :: behind) behind := passed_cons hkind behind
    simp only [suffix?] at h
    split at h
    case h_1 hkind =>
      obtain ⟨⟨args, ts⟩, hargs, h⟩ := Except.ok_of_bind (Option.some.inj h)
      cases h
      exact (hfirst (by simp [hkind])).trans_left (commaList_left_of_advances hp hargs)
    case h_2 hkind =>
      obtain ⟨⟨key, ts₁⟩, hkey, h⟩ := Except.ok_of_bind (Option.some.inj h)
      obtain ⟨⟨bracket, ts₂⟩, hbracket, h⟩ := Except.ok_of_bind h
      cases h
      have hleft := (left_newlines behind).trans (hp hkey).left
      have hclosed := (left_newlines ts₁).trans (expect_advances (by simp) _ hbracket).left
      exact (hfirst (by simp [hkind])).trans_left (hleft.trans hclosed)
    case h_3 hkind =>
      obtain ⟨⟨member, ts⟩, hmember, h⟩ := Except.ok_of_bind (Option.some.inj h)
      cases h
      exact (hfirst (by simp [hkind])).trans_left (expect_advances (by simp) _ hmember).left
    case h_4 => cases h

/-- The state of this loop is the operand with the suffixes so far; a suffix ends with a
bracket or a name. -/
private theorem suffixes_march {p : Parser Expr} (hp : Advances p) :
    Marches (suffixStep stop p) (suffixes stop p) where
  repeats e tokens rounds hr := by
    rw [suffixes, suffix?_settled hp e hr, suffixStep]
    rcases suffix? stop p tokens.length e tokens with _ | error | ⟨e', behind⟩
    · rfl
    · rfl
    · exact (map_id_eq _).symm
  moves {e tokens _ next finish} h := by
    simp only [suffixStep] at h
    split at h
    · cases h
    · cases h
    · rename_i hsuffix
      cases h
      exact suffix?_passed hp hsuffix

/-- The state is what is to the left of the operator; the operator is a token taken, and
what is to the right of it is read by a parser that advances. -/
private theorem climb_marches {p : Nat → Parser Expr} (hp : ∀ demand, Advances (p demand))
    (demand : Nat) : Marches (climbStep p demand) (climb stop p demand) where
  repeats left tokens rounds _ := by
    cases tokens with
    | nil => rfl
    | cons t rest =>
      simp only [climb, climbStep]
      cases Power.of? t.kind with
      | none => rfl
      | some power =>
        dsimp only
        split
        · rfl
        · cases p power.right rest with
          | error e => rfl
          | ok a => exact (map_id_eq _).symm
  moves {left tokens _ next finish} h := by
    cases tokens with
    | nil => cases h
    | cons t rest =>
      simp only [climbStep] at h
      split at h
      · cases h
      split at h
      · cases h
      split at h
      · cases h
      · rename_i power hpower _ _ right ts hright
        cases h
        have hkind : t.kind ≠ .eof := by
          intro hkind
          rw [hkind] at hpower
          cases hpower
        exact (passed_cons hkind rest).trans_left (hp _ hright).left

private theorem left_optional_then (tokens : List Token) :
    Left tokens (if nextIs (.keyword .then_) tokens then tokens.tail else tokens) := by
  split
  · rename_i hthen
    exact (passed_next (by simp) hthen).left
  · exact .refl tokens

/-- The arms of an `if` are a loop too: behind `elif`, and behind `else if`, it goes on
with another arm, which is put into the tree of the one before. -/
private theorem ifArm_marches {p : Parser Expr} {ps : Parser Stmt} (hp : Advances p)
    (hps : Advances ps) : Marches (armStep stop p ps) (ifArm stop p ps) where
  repeats pos tokens rounds hr := by
    simp only [ifArm, armStep]
    cases hcondition : p tokens with
    | error e => rfl
    | ok a =>
      obtain ⟨condition, ts₁⟩ := a
      have hlt₁ := ((hp hcondition).trans_left (left_optional_then ts₁)).length_lt
      have hyes := (block_marches stop hps [.elif, .else_, .end_]).settled () hlt₁
        (Nat.lt_of_lt_of_le hlt₁ hr)
      dsimp only [bind, Except.bind]
      rw [hyes]
      cases hblock : block stop ps [.elif, .else_, .end_] tokens.length
          (if nextIs (.keyword .then_) ts₁ then ts₁.tail else ts₁) with
      | error e => rfl
      | ok a =>
        obtain ⟨yes, ts₂⟩ := a
        have hlt₂ := Nat.lt_of_le_of_lt (block_left_of_advances hps hblock).length_le hlt₁
        have harm (next : Position) (ts : List Token) :
            (ifArm stop p ps rounds next ts >>= fun x =>
              pure (Stmt.if_ pos condition yes (some [x.1]), x.2))
              = (ifArm stop p ps rounds next ts).map fun x =>
                (Stmt.if_ pos condition yes (some [x.1]), x.2) :=
          bind_pure_eq_map _ fun arm => Stmt.if_ pos condition yes (some [arm])
        have helse {ts : List Token} (hlt : ts.length < tokens.length) :
            (block stop ps [.end_] rounds ts >>= fun x =>
              pure (Stmt.if_ pos condition yes (some x.1), x.2))
              = block stop ps [.end_] tokens.length ts >>= fun x =>
                pure (Stmt.if_ pos condition yes (some x.1), x.2) := by
          rw [(block_marches stop hps [.end_]).settled () hlt
            (Nat.lt_of_lt_of_le hlt hr)]
        -- the next keyword, and for `else` the one behind it, says which arm follows
        rcases ts₂ with _ | ⟨⟨kind, lexeme, next⟩, ts⟩
        · rfl
        · simp only [List.length_cons] at hlt₂
          cases kind with
          | keyword k =>
            cases k with
            | elif => exact harm next ts
            | else_ =>
              rcases ts with _ | ⟨⟨kind', lexeme', next'⟩, ts'⟩
              · exact helse (by omega)
              · cases kind' with
                | keyword k' =>
                  cases k' with
                  | if_ => exact harm next' ts'
                  | _ => exact helse (by omega)
                | _ => exact helse (by omega)
            | _ => rfl
          | _ => rfl
  moves {pos tokens _ next finish} h := by
    simp only [armStep] at h
    split at h
    · cases h
    · rename_i condition ts₁ hcondition
      split at h
      · cases h
      · rename_i yes ts₂ hblock
        have hbehind := ((hp hcondition).trans_left (left_optional_then ts₁)).trans_left
          (block_left_of_advances hps hblock)
        split at h
        · cases h
          exact hbehind.trans_left (passed_cons (by simp) _).left
        · cases h
          have hword := hbehind.trans_left (passed_cons (by simp) _).left
          exact hword.trans_left (passed_cons (by simp) next).left
        · cases h
        · cases h

-- ================================================= without budgets

/-- Reading expressions with depth enough. -/
def freeExpression (stop : Position) (demand : Nat) : Parser Expr := fun tokens =>
  expression stop (depthFor tokens) demand tokens

/-- Reading statements with depth enough. -/
def freeStatement (stop : Position) : Parser Stmt := fun tokens =>
  statement stop (depthFor tokens) tokens

/-- Parsers of expressions and statements that meet the equations of the grammar, with any
rounds that are enough for the loops in them. -/
structure Grammatical (stop : Position) (expr : Nat → Parser Expr) (stmt : Parser Stmt) :
    Prop where
  expr_eq : ∀ (demand : Nat) (tokens : List Token) (rounds : Nat), tokens.length < rounds →
    expr demand tokens
      = operand stop expr stmt rounds tokens >>= fun a => climb stop expr demand rounds a.1 a.2
  stmt_eq : ∀ (tokens : List Token) (rounds : Nat), tokens.length < rounds →
    stmt tokens = endedStatement stop (expr 0) stmt rounds tokens

section Unroll

variable {n r r' : Nat} {p q : Nat → Parser Expr} {ps qs : Parser Stmt}

/-- The right side of the first equation, from parsers that agree on fewer tokens. -/
theorem operated_eq (h : ∀ demand, Nested id n (p demand) (q demand) ps qs) (demand : Nat)
    (hlen : tokens.length ≤ n + 1) (hr : tokens.length < r) (hr' : tokens.length < r') :
    (operand stop q qs r' tokens >>= fun a => climb stop q demand r' a.1 a.2)
      = operand stop p ps r tokens >>= fun a => climb stop p demand r a.1 a.2 := by
  have hfollows : Follows id (Expr.moved id) tokens.length
      (fun tokens => operand stop p ps r tokens >>= fun a => climb stop p demand r a.1 a.2)
      (fun tokens => operand stop q qs r' tokens >>= fun a => climb stop q demand r' a.1 a.2) := by
    intro some hsome
    refine movedResult_bind (operand_follows h (by omega) (by omega) (by omega))
      fun left ts hleft => ?_
    have hts := (operand_reads (fun demand => (h demand).exprReads) (h 0).stmtReads _ hleft).length
    exact climb_follows h demand left (by omega) (by omega) (by omega)
  exact (follows_id Tree.moved_id.ofExpr).1 hfollows tokens (Nat.le_refl _)

/-- The right side of the second equation. -/
theorem ended_eq (h : Nested id n (p 0) (q 0) ps qs)
    (hwhole : Follows id (Expr.moved id) (n + 1) (p 0) (q 0)) (hlen : tokens.length ≤ n + 1)
    (hr : tokens.length < r) (hr' : tokens.length < r') :
    endedStatement stop (q 0) qs r' tokens = endedStatement stop (p 0) ps r tokens := by
  refine (follows_id Tree.moved_id.ofStmt).1 (fun some hsome => ?_) tokens (Nat.le_refl _)
  exact endedStatement_follows h hwhole (by omega) (by omega) (by omega)

end Unroll

private theorem freeExpression_follows {n depth : Nat} (hdepth : 2 * n + 1 ≤ depth) (demand : Nat) :
    Follows id (Expr.moved id) n (expression stop depth demand) (freeExpression stop demand) := by
  refine (follows_id Tree.moved_id.ofExpr).2 fun tokens hlen => ?_
  have hfollows := (follows id stop tokens.length).1 depth (depthFor tokens) (by omega)
    (by unfold depthFor; omega) demand
  exact (follows_id Tree.moved_id.ofExpr).1 hfollows tokens (Nat.le_refl _)

private theorem freeStatement_follows {n depth : Nat} (hdepth : 2 * n + 2 ≤ depth) :
    Follows id (Stmt.moved id) n (statement stop depth) (freeStatement stop) := by
  refine (follows_id Tree.moved_id.ofStmt).2 fun tokens hlen => ?_
  have hfollows := (follows id stop tokens.length).2 depth (depthFor tokens) (by omega)
    (Nat.le_refl _)
  exact (follows_id Tree.moved_id.ofStmt).1 hfollows tokens (Nat.le_refl _)

private theorem free_nested {n depth : Nat} (hdepth : 2 * n + 2 ≤ depth) (demand : Nat) :
    Nested id n (expression stop depth demand) (freeExpression stop demand)
      (statement stop depth) (freeStatement stop) where
  expr := freeExpression_follows (by omega) demand
  stmt := freeStatement_follows hdepth
  exprReads := (reads stop depth).1 demand
  stmtReads := (reads stop depth).2

/-- Below a token there is depth enough for the tokens behind it. -/
theorem depth_below (t : Token) (rest : List Token) :
    2 * rest.length + 2 ≤ 2 * (t :: rest).length + 1
      ∧ (t :: rest).length < 2 * (t :: rest).length + 1 := by
  rw [List.length_cons]
  omega

/-- Reading with depth enough meets the equations. -/
theorem free_grammatical (stop : Position) :
    Grammatical stop (freeExpression stop) (freeStatement stop) where
  expr_eq demand tokens rounds hr := by
    cases tokens with
    | nil => rfl
    | cons t rest =>
      obtain ⟨hdepth, hrounds⟩ := depth_below t rest
      rw [freeExpression, depthFor, expression]
      exact (operated_eq (fun demand => free_nested hdepth demand) demand (Nat.le_refl _)
        hrounds hr).symm
  stmt_eq tokens rounds hr := by
    cases tokens with
    | nil => rfl
    | cons t rest =>
      obtain ⟨hdepth, hrounds⟩ := depth_below t rest
      have hwhole : Follows id (Expr.moved id) (t :: rest).length
          (expression stop (2 * (t :: rest).length + 1) 0) (freeExpression stop 0) :=
        freeExpression_follows (Nat.le_refl _) 0
      rw [freeStatement, depthFor, statement]
      exact (ended_eq (free_nested hdepth 0) hwhole (Nat.le_refl _) hrounds hr).symm

namespace Grammatical

variable {p q : Nat → Parser Expr} {ps qs : Parser Stmt}

private theorem expr_nil (h : Grammatical stop p ps) (demand : Nat) :
    p demand [] = .error (unexpected stop .expression []) := by
  rw [h.expr_eq demand [] 1 Nat.one_pos]
  rfl

/-- An error at the end of the tokens is the same for all parsers that meet the equations:
there is nothing left to differ about. -/
private theorem stmt_nil (h : Grammatical stop p ps) :
    ps [] = .error (unexpected stop .expression []) := by
  rw [h.stmt_eq [] 1 Nat.one_pos]
  simp only [endedStatement, openStatement, expressionStatement, h.expr_nil]
  rfl

/-- Parsers that meet the equations agree, by induction on the number of tokens: what is
nested is read behind a token. -/
theorem follows (h : Grammatical stop p ps) (hp : ∀ demand, Reads Expr.pieces (p demand))
    (hps : Reads Stmt.pieces ps) (h' : Grammatical stop q qs) (n : Nat) :
    (∀ demand, Follows id (Expr.moved id) n (p demand) (q demand))
      ∧ Follows id (Stmt.moved id) n ps qs := by
  induction n with
  | zero =>
    refine ⟨fun demand => (follows_id Tree.moved_id.ofExpr).2 fun tokens hlen => ?_,
      (follows_id Tree.moved_id.ofStmt).2 fun tokens hlen => ?_⟩
    · obtain rfl := List.length_eq_zero_iff.1 (Nat.le_zero.1 hlen)
      rw [h.expr_nil, h'.expr_nil]
    · obtain rfl := List.length_eq_zero_iff.1 (Nat.le_zero.1 hlen)
      rw [h.stmt_nil, h'.stmt_nil]
  | succ n ih =>
    have hnested (demand : Nat) : Nested id n (p demand) (q demand) ps qs :=
      ⟨ih.1 demand, ih.2, hp demand, hps⟩
    have hexpr (demand : Nat) : Follows id (Expr.moved id) (n + 1) (p demand) (q demand) := by
      refine (follows_id Tree.moved_id.ofExpr).2 fun tokens hlen => ?_
      rw [h.expr_eq demand tokens _ (Nat.lt_succ_self _),
        h'.expr_eq demand tokens _ (Nat.lt_succ_self _)]
      exact operated_eq hnested demand hlen (Nat.lt_succ_self _) (Nat.lt_succ_self _)
    -- a statement may begin with an expression over the same tokens, so expressions come first
    refine ⟨hexpr, (follows_id Tree.moved_id.ofStmt).2 fun tokens hlen => ?_⟩
    rw [h.stmt_eq tokens _ (Nat.lt_succ_self _), h'.stmt_eq tokens _ (Nat.lt_succ_self _)]
    exact ended_eq (hnested 0) (hexpr 0) hlen (Nat.lt_succ_self _) (Nat.lt_succ_self _)

/-- The equations leave no choice. -/
theorem unique (h : Grammatical stop q qs) :
    q = freeExpression stop ∧ qs = freeStatement stop := by
  have hfollows (n : Nat) := (free_grammatical stop).follows
    (fun demand _ _ _ hread => (reads stop _).1 demand hread)
    (fun _ _ _ hread => (reads stop _).2 hread) h n
  constructor
  · funext demand tokens
    exact (follows_id Tree.moved_id.ofExpr).1 ((hfollows tokens.length).1 demand) tokens
      (Nat.le_refl _)
  · funext tokens
    exact (follows_id Tree.moved_id.ofStmt).1 (hfollows tokens.length).2 tokens (Nat.le_refl _)

end Grammatical

-- ============================================= the end of the input

/-- Two errors in the same words, at the same place. -/
structure SameWords (e e' : ParseError) : Prop where
  expected : e.expected = e'.expected
  found : e.found.text = e'.found.text
  pos : e.pos = e'.pos

private theorem describe_of_eof {e : Token} (he : e.kind = .eof) :
    e.describe = Token.Kind.eof.text := by
  simp only [Token.describe, he]

/-- An end mark is reported in the words for the end of the input, and at its own
place. -/
private theorem SameWords.of_eof {e : Token} (he : e.kind = .eof) (stop : Position)
    (expected : Expected)
    (tail : List Token) :
    SameWords (unexpected stop expected (e :: tail)) (unexpected e.pos expected []) where
  expected := rfl
  found := describe_of_eof he
  pos := rfl

/-- A list with an end mark agrees with its part before it. -/
def Mirror.cut (stop : Position) (e : Token) (he : e.kind = .eof) (tail : List Token) : Mirror where
  stop := stop
  stop' := e.pos
  Tokens tokens tokens' := tokens = tokens' ++ e :: tail ∧ ∀ t ∈ tokens', t.kind ≠ .eof
  Errors := SameWords
  next := by
    rintro _ tokens' ⟨rfl, heof⟩
    cases tokens' with
    | nil => exact .inl ⟨fun t ht => Option.some.inj ht ▸ he, fun _ ht => nomatch ht⟩
    | cons t rest =>
      obtain ⟨ht, hrest⟩ := List.forall_mem_cons.1 heof
      exact .inr ⟨t, _, rest, rfl, rfl, ht, rfl, hrest⟩
  refused := by
    rintro _ tokens' expected ⟨rfl, -⟩ -
    cases tokens' with
    | nil => exact .of_eof he stop expected tail
    | cons t rest => exact ⟨rfl, rfl, rfl⟩
  own _ _ := ⟨rfl, rfl, rfl⟩

end Parser

/-- The list that the grammar reads in: the tokens without the marks of indentation, and an
end mark behind them if the last one is none. -/
def Token.closed (tokens : List Token) : List Token :=
  let marks := tokens.filter fun t => !t.kind.isIndentation
  if marks.getLast?.map (·.kind) = some .eof then marks
  else marks ++ [⟨.eof, "", (marks.getLast?.map (·.pos)).getD .start⟩]

section EndMark

variable {e : Token}

/-- Before the first end mark is the same, whatever is behind a later one. -/
theorem takeWhile_append_eof (front : List Token) (he : e.kind = .eof) (tail : List Token) :
    (front ++ e :: tail).takeWhile (fun t => t.kind ≠ .eof)
      = front.takeWhile fun t => t.kind ≠ .eof := by
  induction front with
  | nil => exact List.takeWhile_cons_of_neg (by simp [he])
  | cons t rest ih => rw [List.cons_append, List.takeWhile_cons, List.takeWhile_cons, ih]

private theorem endPosition_append_eof (front : List Token) (he : e.kind = .eof)
    (tail : List Token) :
    endPosition (front ++ e :: tail) = ((front.find? fun t => t.kind = .eof).getD e).pos := by
  have hfind : (e :: tail).find? (fun t => t.kind = .eof) = some e :=
    List.find?_cons_of_pos (decide_eq_true he)
  rw [endPosition, List.find?_append, hfind]
  cases front.find? fun t => t.kind = .eof <;> rfl

/-- Nothing behind an end mark counts. -/
theorem ofTokens_append_eof (front : List Token) (he : e.kind = .eof) (tail tail' : List Token) :
    Program.ofTokens (front ++ e :: tail) = Program.ofTokens (front ++ e :: tail') := by
  have hmark : (!e.kind.isIndentation) = true := by
    rw [he]
    rfl
  have hfilter (tail : List Token) :
      (front ++ e :: tail).filter (fun t => !t.kind.isIndentation)
        = (front.filter fun t => !t.kind.isIndentation)
          ++ e :: tail.filter fun t => !t.kind.isIndentation := by
    rw [List.filter_append,
      List.filter_cons_of_pos (p := fun t : Token => !t.kind.isIndentation) hmark]
  simp only [Program.ofTokens, hfilter, takeWhile_append_eof _ he, endPosition_append_eof _ he]

end EndMark

/-- That list has an end mark, at the position where the input ends, and before the first one
are the tokens that a program is read from. -/
theorem Token.closed_split (tokens : List Token) :
    ∃ e tail, e.kind = .eof ∧ Token.closed tokens = Token.marks tokens ++ e :: tail
      ∧ endPosition (tokens.filter fun t => !t.kind.isIndentation) = e.pos := by
  rw [← Token.marks_eq]
  simp only [Token.closed, endPosition]
  generalize tokens.filter (fun t => !t.kind.isIndentation) = marks
  cases hfind : marks.find? fun t => t.kind = .eof with
  | some e =>
    obtain ⟨he, front, tail, rfl, hfront⟩ := List.find?_eq_some_iff_append.1 hfind
    have he := of_decide_eq_true he
    have hne : ∀ t ∈ front, t.kind ≠ .eof := fun t ht => by simpa using hfront t ht
    rw [takeWhile_append_eof front he,
      List.takeWhile_eq_self_iff.2 fun t ht => decide_eq_true (hne t ht)]
    split
    · exact ⟨e, tail, he, rfl, rfl⟩
    · exact ⟨e, tail ++ [_], he, List.append_assoc .., rfl⟩
  | none =>
    have hne : ∀ t ∈ marks, t.kind ≠ .eof := fun t ht => by
      simpa using List.find?_eq_none.1 hfind t ht
    rw [List.takeWhile_eq_self_iff.2 fun t ht => decide_eq_true (hne t ht), if_neg]
    · exact ⟨_, [], rfl, rfl, rfl⟩
    · intro hlast
      obtain ⟨t, ht, hkind⟩ := Option.map_eq_some_iff.1 hlast
      exact hne t (List.mem_of_getLast? ht) hkind

namespace Parser

/-- What is read from the tokens before the first end mark, and what is read in the whole
list: the same program, and what is left of the whole list is the end mark and the tokens
behind it, or errors in the same words. -/
inductive SameProgram (whole : List Token) :
    Except ParseError Program → Except ParseError (Program × List Token) → Prop where
  | program (statements : Program) :
      SameProgram whole (.ok statements)
        (.ok (statements, whole.dropWhile fun t => t.kind ≠ .eof))
  | error {e e' : ParseError} (h : SameWords e' e) : SameProgram whole (.error e) (.error e')

private theorem freeBlock_eq (stop : Position) {rounds : Nat} (hr : tokens.length < rounds) :
    block stop (freeStatement stop) [] rounds tokens
      = block stop (statement stop (depthFor tokens)) [] (depthFor tokens) tokens :=
  (follows_id Program.moved_id).1 (fun some hlen => block_follows
      (freeStatement_follows (Nat.le_refl (2 * tokens.length + 2))) (reads stop _).2.shrinks [] hlen
      (by unfold depthFor; omega) (by omega))
    tokens (Nat.le_refl _)

/-- Reading in the list with its end marks is reading the tokens before the first. -/
theorem ofTokens_same (stop : Position) (tokens : List Token) {rounds : Nat}
    (hr : (Token.closed tokens).length < rounds) :
    SameProgram (Token.closed tokens) (Program.ofTokens tokens)
      (block stop (freeStatement stop) [] rounds (Token.closed tokens)) := by
  obtain ⟨e, tail, he, hclosed, hend⟩ := Token.closed_split tokens
  have heof (t : Token) : t ∈ Token.marks tokens → t.kind ≠ .eof := Token.marks_ne_eof
  have hdepth : depthFor (Token.marks tokens) ≤ depthFor (Token.closed tokens) := by
    rw [hclosed, depthFor, depthFor, List.length_append]
    omega
  -- both are read with the budget of the longer list
  rw [freeBlock_eq stop hr, Program.ofTokens]
  simp only [Token.marks_eq, hend]
  rw [program_eq_of_depthFor_le e.pos _ hdepth hdepth]
  have hread := (reflects (.cut stop e he tail) (depthFor (Token.closed tokens))).2
  have hresults := block_reflects hread [] (depthFor (Token.closed tokens)) ⟨hclosed, heof⟩
  dsimp only [Mirror.cut] at hresults
  generalize hwhole : block stop (statement stop (depthFor (Token.closed tokens))) []
    (depthFor (Token.closed tokens)) (Token.closed tokens) = whole at hresults ⊢
  generalize hcut : block e.pos (statement e.pos (depthFor (Token.closed tokens))) []
    (depthFor (Token.closed tokens)) (Token.marks tokens) = cut at hresults ⊢
  cases hresults with
  | error h => exact .error h
  | ok statements hrest =>
    obtain ⟨rfl, -⟩ := hrest
    obtain rfl := block_rest_eq_nil _ heof hcut
    have hdrop : (Token.closed tokens).dropWhile (fun t => t.kind ≠ .eof) = e :: tail := by
      rw [hclosed, List.dropWhile_append_of_pos fun t ht => decide_eq_true (heof t ht),
        List.dropWhile_cons_of_neg]
      simp [he]
    rw [List.nil_append, ← hdrop]
    exact .program statements

/-- Reading goes forward: each expression, each statement and each single token that is asked
for takes a token, each loop takes one before it goes on, and none takes an end mark. -/
structure Forward (stop : Position) (expr : Nat → Parser Expr) (stmt : Parser Stmt) : Prop where
  expression : ∀ demand, Advances (expr demand)
  statement : Advances stmt
  tokens : ∀ kind expected, kind ≠ .eof → Advances (expect stop kind expected)
  newlines : ∀ tokens, Left tokens (skipNewlines tokens)
  separators : ∀ tokens, Left tokens (skipSeparators tokens)
  items : ∀ close, Marches (commaStep stop (expr 0) close) fun rounds _ =>
    commaList stop (expr 0) close rounds
  entries : ∀ close, Marches (commaStep stop (entry stop (expr 0)) close) fun rounds _ =>
    commaList stop (entry stop (expr 0)) close rounds
  parameters : Marches (parameterStep stop) (parameters stop)
  blocks : ∀ stops, Marches (blockStep stmt stops) fun rounds _ => block stop stmt stops rounds
  suffixes : Marches (suffixStep stop (expr 0)) (suffixes stop (expr 0))
  operators : ∀ demand, Marches (climbStep expr demand) (climb stop expr demand)
  arms : Marches (armStep stop (expr 0) stmt) (ifArm stop (expr 0) stmt)

/-- All of it for the parsers without budgets: each is, on any given tokens, one of those
with a budget. -/
private theorem free_forward (stop : Position) :
    Forward stop (freeExpression stop) (freeStatement stop) := by
  have hexpr (demand : Nat) : Advances (freeExpression stop demand) :=
    fun _ _ _ h => expression_advances stop _ demand h
  have hstmt : Advances (freeStatement stop) := fun _ _ _ h => statement_advances stop _ h
  exact {
    expression := hexpr
    statement := hstmt
    tokens := fun _ _ hkind => expect_advances hkind _
    newlines := left_newlines
    separators := left_separators
    items := commaList_marches stop (hexpr 0)
    entries := commaList_marches stop (entry_advances (hexpr 0))
    parameters := parameters_march stop
    blocks := block_marches stop hstmt
    suffixes := suffixes_march (hexpr 0)
    operators := climb_marches hexpr
    arms := ifArm_marches (hexpr 0) hstmt }

/-- What is left of a closed list still has an end mark in it. -/
theorem Left.ne_nil_of_closed (h : Left (Token.closed tokens) rest) : rest ≠ [] := by
  rintro rfl
  obtain ⟨taken, htaken, heof⟩ := h
  obtain ⟨e, tail, he, hclosed, -⟩ := Token.closed_split tokens
  rw [List.append_nil] at htaken
  exact heof e (by simp [← htaken, hclosed]) he

end Parser

/-- Reading goes forward, whatever the tokens are. The equations of the grammar can be met in
one way only, so there is no list of tokens on which reading would not end. Each expression
and statement that is read takes a token, and so does each round of a loop but the last, and
none takes an end mark. What is read in the list with its end marks is the program that the
tokens spell, there always is a token to look at, and what is behind an end mark does not
count. -/
theorem Program.ofTokens_forward (stop : Position) :
    ∃ expr stmt, Parser.Grammatical stop expr stmt
      ∧ (∀ expr' stmt', Parser.Grammatical stop expr' stmt' → expr' = expr ∧ stmt' = stmt)
      ∧ Parser.Forward stop expr stmt
      ∧ (∀ tokens rounds, (Token.closed tokens).length < rounds →
          Parser.SameProgram (Token.closed tokens) (Program.ofTokens tokens)
            (Parser.block stop stmt [] rounds (Token.closed tokens)))
      ∧ (∀ tokens rest, Parser.Left (Token.closed tokens) rest → rest ≠ [])
      ∧ ∀ (front tail tail' : List Token) (e : Token), e.kind = .eof →
          Program.ofTokens (front ++ e :: tail) = Program.ofTokens (front ++ e :: tail') := by
  exact ⟨Parser.freeExpression stop, Parser.freeStatement stop, Parser.free_grammatical stop,
    fun _ _ h => h.unique, Parser.free_forward stop,
    fun tokens _ hr => Parser.ofTokens_same stop tokens hr, fun _ _ h => h.ne_nil_of_closed,
    fun front tail tail' _ he => ofTokens_append_eof front he tail tail'⟩

/-- A name and, behind an end mark, a number that is none: the end mark is left with all that
is behind it. -/
theorem Program.ofTokens_forward_inner :
    let name : Token := ⟨.name, "a", ⟨1, 1⟩⟩
    let mark : Token := ⟨.eof, "", ⟨1, 2⟩⟩
    let junk : Token := ⟨.number, "1e", ⟨1, 3⟩⟩
    (∃ stmt, Parser.block .start stmt [] 5 (Token.closed [name, mark, junk])
        = .ok ([.expr ⟨1, 1⟩ (.name ⟨1, 1⟩ "a")], [mark, junk, ⟨.eof, "", ⟨1, 3⟩⟩]))
      ∧ Program.ofTokens [name, mark, junk] = Program.ofTokens [name, mark] := by
  intro name mark junk
  obtain ⟨_, stmt, -, -, -, hsame, -, htail⟩ := Program.ofTokens_forward .start
  refine ⟨⟨stmt, ?_⟩, htail [name] [junk] [] mark rfl⟩
  have hread : Program.ofTokens [name, mark, junk] = .ok [.expr ⟨1, 1⟩ (.name ⟨1, 1⟩ "a")] := rfl
  have h := hsame [name, mark, junk] 5 (by decide)
  rw [hread] at h
  generalize Parser.block .start stmt [] 5 (Token.closed [name, mark, junk]) = result at h ⊢
  cases h
  rfl

end Scriptlet
