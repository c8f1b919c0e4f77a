/-
Where trees begin and end among the tokens. The parsers decide by the next token
alone, so reading back what was written needs two facts about a written tree:
what it begins with, which the loops look at before they read it, and what may
stand behind it without being read with it.

`Opening` is the first, for everything an expression is written as
(`expr_opening`), and `Stops` the second, which every loop over lists, entries
and statements provides for the expressions inside it.
-/
import Scriptlet.Proofs.Grammar.Written

namespace Scriptlet.Parser

variable {stop : Position}

-- =================================================== what may follow

/-- Whether a token behind an operand is read with it. -/
def isSuffix : Token.Kind → Bool
  | .symbol .leftParen | .symbol .leftBracket | .symbol .dot => true
  | _ => false

/-- No call, index step or member follows. -/
def NoSuffix (rest : List Token) : Prop := ∀ t ∈ rest.head?, isSuffix t.kind = false

/-- Nothing follows that goes on with an expression. -/
def Stops (rest : List Token) : Prop :=
  ∀ t ∈ rest.head?, isSuffix t.kind = false ∧ Power.of? t.kind = none

/-- What goes on with no expression is no suffix either. -/
theorem Stops.noSuffix {rest : List Token} (h : Stops rest) : NoSuffix rest :=
  fun t ht => (h t ht).1

/-- Both conditions are on the next token only. -/
theorem stops_cons {t : Token} {rest : List Token}
    (h : isSuffix t.kind = false ∧ Power.of? t.kind = none) : Stops (t :: rest) := by
  intro u hu
  cases hu
  exact h

theorem noSuffix_cons {t : Token} {rest : List Token} (h : isSuffix t.kind = false) :
    NoSuffix (t :: rest) := by
  intro u hu
  cases hu
  exact h

/-- Line ends, and then something that does not go on with an expression. -/
theorem stops_breaks {breaks : List Token} (hbreaks : Breaks breaks) {t : Token}
    {rest : List Token} (h : isSuffix t.kind = false ∧ Power.of? t.kind = none) :
    Stops (breaks ++ t :: rest) := by
  cases breaks with
  | nil => exact stops_cons h
  | cons u others =>
    have hu : u.kind = .newline := hbreaks u (List.mem_cons_self ..)
    exact stops_cons (by rw [hu]; exact ⟨rfl, rfl⟩)

/-- Where a statement may end, the expression in it ends too. -/
theorem stops_of_atStatementEnd {rest : List Token} (h : atStatementEnd rest = true) :
    Stops rest := by
  cases rest with
  | nil => exact fun _ ht => nomatch ht
  | cons t others =>
    refine stops_cons ?_
    simp only [atStatementEnd] at h
    split at h
    case h_7 => cases h
    all_goals
      rename_i hkind
      rw [hkind]
      exact ⟨rfl, rfl⟩

/-- The loops that skip line ends and separators take all of a gap and stop at the token
behind it. -/
theorem skipNewlines_append {breaks : List Token} (h : Breaks breaks) (rest : List Token) :
    skipNewlines (breaks ++ rest) = skipNewlines rest :=
  List.dropWhile_append_of_pos fun t ht => decide_eq_true (h t ht)

theorem skipNewlines_cons {t : Token} (h : t.kind ≠ .newline) (rest : List Token) :
    skipNewlines (t :: rest) = t :: rest := by
  rw [skipNewlines, List.dropWhile_cons, if_neg (by simpa using h)]

theorem skipSeparators_gap {gap : List Token} (h : Gap gap) (rest : List Token) :
    skipSeparators (gap ++ rest) = skipSeparators rest := by
  refine List.dropWhile_append_of_pos fun t ht => ?_
  rcases h t ht with hkind | hkind <;> rw [hkind] <;> rfl

theorem skipSeparators_cons {t : Token} (h : ¬ t.IsSeparator) (rest : List Token) :
    skipSeparators (t :: rest) = t :: rest := by
  have hkeep : (decide (t.kind = .newline) || decide (t.kind = .symbol .semicolon)) ≠ true := by
    simpa [Token.IsSeparator] using h
  rw [skipSeparators, List.dropWhile_cons, if_neg hkeep]

/-- What the loops ask of the next token, for one that is there. -/
theorem expect_cons {t : Token} {kind : Token.Kind} (h : t.kind = kind) (expected : Expected)
    (rest : List Token) : expect stop kind expected (t :: rest) = .ok (t, rest) := by
  rw [expect, if_pos h]

theorem nextIs_cons {t : Token} {kind : Token.Kind} (h : t.kind = kind) (rest : List Token) :
    nextIs kind (t :: rest) = true := by
  rw [nextIs, h]
  exact decide_eq_true rfl

theorem nextIs_cons_ne {t : Token} {kind : Token.Kind} (h : t.kind ≠ kind) (rest : List Token) :
    nextIs kind (t :: rest) = false :=
  decide_eq_false h

-- ======================================================= beginnings

/-- The kinds that an expression can begin with. -/
def opens : Token.Kind → Bool
  | .name | .number | .string => true
  | .keyword .true_ | .keyword .false_ | .keyword .nil | .keyword .not_ => true
  | .keyword .function | .keyword .def_ => true
  | .symbol .leftParen | .symbol .leftBracket | .symbol .leftBrace => true
  | .symbol .minus | .symbol .bang => true
  | _ => false

/-- Tokens that begin like an expression. The keyword of a function literal is
followed by its parameters, so that it cannot be taken for a declaration. -/
def Opening (tokens : List Token) : Prop :=
  ∃ t rest, tokens = t :: rest ∧ opens t.kind = true
    ∧ (t.kind = .keyword .function ∨ t.kind = .keyword .def_ →
      ∃ u others, rest = u :: others ∧ u.kind = .symbol .leftParen)

/-- What a tree begins with does not depend on what follows it. -/
theorem Opening.append {tokens : List Token} (h : Opening tokens) (more : List Token) :
    Opening (tokens ++ more) := by
  obtain ⟨t, rest, rfl, hopens, hfunction⟩ := h
  refine ⟨t, rest ++ more, rfl, hopens, fun hword => ?_⟩
  obtain ⟨u, others, rfl, hu⟩ := hfunction hword
  exact ⟨u, others ++ more, rfl, hu⟩

/-- An expression does not begin with a kind that no expression begins with. -/
theorem Opening.nextIs_eq_false {tokens : List Token} (h : Opening tokens) {kind : Token.Kind}
    (hkind : opens kind = false) : nextIs kind tokens = false := by
  obtain ⟨t, rest, rfl, hopens, -⟩ := h
  refine nextIs_cons_ne (fun ht => ?_) rest
  rw [ht, hkind] at hopens
  cases hopens

/-- An expression begins neither with a line end nor with what ends a statement. -/
theorem Opening.skipNewlines_eq {tokens : List Token} (h : Opening tokens) :
    skipNewlines tokens = tokens := by
  obtain ⟨t, rest, rfl, hopens, -⟩ := h
  refine skipNewlines_cons (fun ht => ?_) rest
  rw [ht] at hopens
  cases hopens

theorem Opening.atStatementEnd_eq {tokens : List Token} (h : Opening tokens) :
    atStatementEnd tokens = false := by
  obtain ⟨t, rest, rfl, hopens, -⟩ := h
  simp only [atStatementEnd]
  split
  case h_7 => rfl
  all_goals
    rename_i hkind
    rw [hkind] at hopens
    cases hopens

/-- The kinds that an operand begins with when nothing stands before it. -/
def opensOperand : Token.Kind → Bool
  | .name | .number | .string => true
  | .keyword .true_ | .keyword .false_ | .keyword .nil => true
  | .symbol .leftParen | .symbol .leftBracket | .symbol .leftBrace => true
  | _ => false

/-- Tokens that begin like an operand. -/
def OperandOpening (tokens : List Token) : Prop :=
  ∃ t rest, tokens = t :: rest ∧ opensOperand t.kind = true

theorem OperandOpening.append {tokens : List Token} (h : OperandOpening tokens)
    (more : List Token) : OperandOpening (tokens ++ more) := by
  obtain ⟨t, rest, rfl, hopens⟩ := h
  exact ⟨t, rest ++ more, rfl, hopens⟩

private theorem opens_of_opensOperand {kind : Token.Kind} (h : opensOperand kind = true) :
    opens kind = true := by
  unfold opensOperand at h
  split at h <;> first | rfl | cases h

/-- Operands begin as expressions do, but not with a sign. -/
theorem OperandOpening.opening {tokens : List Token} (h : OperandOpening tokens) :
    Opening tokens := by
  obtain ⟨t, rest, rfl, hopens⟩ := h
  refine ⟨t, rest, rfl, opens_of_opensOperand hopens, fun hword => ?_⟩
  rcases hword with hword | hword <;> rw [hword] at hopens <;> cases hopens

/-- So no operand is taken for a unary operation. -/
theorem unaryOf?_of_opensOperand {kind : Token.Kind} (h : opensOperand kind = true) :
    unaryOf? kind = none := by
  unfold opensOperand at h
  split at h <;> first | rfl | cases h

private theorem opens_of_unaryOf? {kind : Token.Kind} {op : UnaryOp} (h : unaryOf? kind = some op) :
    opens kind = true ∧ ¬ (kind = .keyword .function ∨ kind = .keyword .def_) := by
  unfold unaryOf? at h
  split at h
  case h_4 => cases h
  all_goals exact ⟨rfl, by simp⟩

private theorem opensOperand_literal {value : Literal} {t : Token} (h : value.Written t) :
    opensOperand t.kind = true := by
  cases h with
  | number kind _ => rw [kind]; rfl
  | string kind => rw [kind]; rfl
  | true_ kind => rw [kind]; rfl
  | false_ kind => rw [kind]; rfl
  | nil kind => rw [kind]; rfl

/-- A chain of suffixes begins with what it is a chain on, hence the recursion. -/
theorem operand_opening {e : Expr} {tokens : List Token} :
    e.Operand tokens → OperandOpening tokens
  | .literal leaf => ⟨_, _, rfl, opensOperand_literal leaf⟩
  | .name kind => ⟨_, _, rfl, by rw [kind]; rfl⟩
  | .list opens _ _ => ⟨_, _, rfl, by rw [opens]; rfl⟩
  | .map opens _ _ => ⟨_, _, rfl, by rw [opens]; rfl⟩
  | .parens opens _ _ _ _ => ⟨_, _, rfl, by rw [opens]; rfl⟩
  | .call head _ _ _ => (operand_opening head).append _
  | .index head _ _ _ _ _ => (operand_opening head).append _
  | .member head _ _ => (operand_opening head).append _

/-- An expression begins with a sign, with a keyword of a function, or as an operand
does. -/
theorem expr_opening {e : Expr} {tokens : List Token} (h : e.Written tokens) :
    Opening tokens := by
  cases h with
  | operand inner => exact (operand_opening inner).opening
  | unary sign _ =>
    obtain ⟨hopens, hword⟩ := opens_of_unaryOf? sign
    exact ⟨_, _, rfl, hopens, fun h => absurd h hword⟩
  | binary head _ _ _ => exact (operand_opening head).opening.append _
  | logical head _ _ _ => exact (operand_opening head).opening.append _
  | function word parts _ =>
    refine ⟨_, _, rfl, ?_, fun _ => ⟨_, _, rfl, parts.opens⟩⟩
    rcases word with word | word <;> rw [word] <;> rfl

theorem field_opening {pair : Expr × Expr} {tokens : List Token} (h : Expr.Field pair tokens) :
    Opening tokens := by
  cases h with
  | mk head _ _ _ _ => exact (expr_opening head).append _

/-- Line ends before an expression are skipped, and it is read from its beginning. -/
theorem skipNewlines_opening {before tokens : List Token} (hbefore : Breaks before)
    (hopening : Opening tokens) (rest : List Token) :
    skipNewlines (before ++ (tokens ++ rest)) = tokens ++ rest := by
  rw [skipNewlines_append hbefore, (hopening.append rest).skipNewlines_eq]

theorem skipNewlines_token {behind : List Token} (hbehind : Breaks behind) {t : Token}
    (ht : t.kind ≠ .newline) (rest : List Token) :
    skipNewlines (behind ++ t :: rest) = t :: rest := by
  rw [skipNewlines_append hbehind, skipNewlines_cons ht]

end Scriptlet.Parser
