/-
The marks of indentation. In every source that is not refused there are as many opened
levels as closed ones, and none is closed before it is opened; line ends stand behind
lexemes and nowhere else; and the open levels are those that the measured lines ask for, so
that between two lines of one width, with no narrower line between them, every level that
was opened was closed again.

# What a list of tokens looks like

`Nests` says of tokens how many levels are open behind them, and at the same time in which
order line ends and marks may stand. Each move of the walk adds to such a list (`Orderly`),
and what is asked of the tokens of a source is read off it.

# What happens between two lines

The open levels are a stack, and a line that is measured replaces what is above its width.
As long as no line is narrower than the first one, nothing of the stack of that line is
touched (`Upon`); the next line of its width removes all that was put on it, whether or not
the widths in between were ones that had been open before. The number of levels is the
number of marks that opened one less the number of those that closed one, so the marks in
between cancel out.
-/
import Mathlib.Data.List.Chain
import Mathlib.Data.List.TakeWhile
import Mathlib.Logic.Relation
import Scriptlet.Proofs.Token.Lines

namespace Scriptlet

namespace Lexer

variable {layout : Layout} {s t u : Lexer} {tokens : List Token} {depth : Nat}

-- ========================================================== tokens

/-- The newest token, if there is one, is no lexeme. -/
def Ended (tokens : List Token) : Prop := ∀ last ∈ tokens.head?, isLexeme last.kind = false

/-- Tokens, newest first, with so many levels open behind them. A line end stands behind a
lexeme, a mark of indentation never does, and only open levels are closed. -/
inductive Nests : List Token → Nat → Prop where
  | nil : Nests [] 0
  | lexeme {t : Token} {tokens : List Token} {depth : Nat} (older : Nests tokens depth)
      (kind : isLexeme t.kind = true) : Nests (t :: tokens) depth
  | newline {t last : Token} {tokens : List Token} {depth : Nat}
      (older : Nests (last :: tokens) depth) (behind : isLexeme last.kind = true)
      (kind : t.kind = .newline) : Nests (t :: last :: tokens) depth
  | indent {t : Token} {tokens : List Token} {depth : Nat} (older : Nests tokens depth)
      (ended : Ended tokens) (kind : t.kind = .indent) : Nests (t :: tokens) (depth + 1)
  | dedent {t : Token} {tokens : List Token} {depth : Nat} (older : Nests tokens (depth + 1))
      (ended : Ended tokens) (kind : t.kind = .dedent) : Nests (t :: tokens) depth

/-- How many levels the marks among these tokens open. -/
def opened (tokens : List Token) : Nat := tokens.countP fun t => t.kind = .indent

/-- How many levels they close. -/
def closed (tokens : List Token) : Nat := tokens.countP fun t => t.kind = .dedent

@[simp] theorem opened_nil : opened [] = 0 := rfl

@[simp] theorem closed_nil : closed [] = 0 := rfl

@[simp] theorem opened_append (front behind : List Token) :
    opened (front ++ behind) = opened front + opened behind := List.countP_append

@[simp] theorem closed_append (front behind : List Token) :
    closed (front ++ behind) = closed front + closed behind := List.countP_append

@[simp] theorem opened_cons (t : Token) (tokens : List Token) :
    opened (t :: tokens) = opened tokens + if t.kind = .indent then 1 else 0 := by
  simp [opened, List.countP_cons]

@[simp] theorem closed_cons (t : Token) (tokens : List Token) :
    closed (t :: tokens) = closed tokens + if t.kind = .dedent then 1 else 0 := by
  simp [closed, List.countP_cons]

@[simp] theorem opened_reverse (tokens : List Token) : opened tokens.reverse = opened tokens :=
  List.countP_reverse

@[simp] theorem closed_reverse (tokens : List Token) : closed tokens.reverse = closed tokens :=
  List.countP_reverse

/-- The end mark is added at the very end, so no list that is still growing has one. -/
private theorem Nests.ne_eof (h : Nests tokens depth) : ∀ t ∈ tokens, t.kind ≠ .eof := by
  induction h with
  | nil => exact List.forall_mem_nil _
  | lexeme _ kind ih =>
    refine List.forall_mem_cons.2 ⟨fun heof => ?_, ih⟩
    rw [heof] at kind
    cases kind
  | newline _ _ kind ih => exact List.forall_mem_cons.2 ⟨by simp [kind], ih⟩
  | indent _ _ kind ih => exact List.forall_mem_cons.2 ⟨by simp [kind], ih⟩
  | dedent _ _ kind ih => exact List.forall_mem_cons.2 ⟨by simp [kind], ih⟩

/-- The open levels are those that were opened and not closed. -/
theorem Nests.opened_eq (h : Nests tokens depth) : opened tokens = closed tokens + depth := by
  induction h with
  | nil => rfl
  | @lexeme t _ _ _ kind ih =>
    have hmark := isIndentation_of_isLexeme kind
    have hindent : t.kind ≠ .indent := fun heq => by rw [heq] at hmark; cases hmark
    have hdedent : t.kind ≠ .dedent := fun heq => by rw [heq] at hmark; cases hmark
    simp [hindent, hdedent, ih]
  | newline _ _ kind ih => simpa [kind] using ih
  | indent _ _ kind ih => simp [kind, ih]; omega
  | dedent _ _ kind ih => simp [kind, ih]; omega

/-- Taking back the newest token leaves a list of the same form, with some other number of
levels open. -/
theorem Nests.tail {t : Token} (h : Nests (t :: tokens) depth) :
    ∃ depth', Nests tokens depth' := by
  cases h with
  | lexeme older => exact ⟨_, older⟩
  | newline older => exact ⟨_, older⟩
  | indent older => exact ⟨_, older⟩
  | dedent older => exact ⟨_, older⟩

/-- The older ones among such tokens are of the same form. -/
theorem Nests.older {newer : List Token} (h : Nests (newer ++ tokens) depth) :
    ∃ depth', Nests tokens depth' := by
  induction newer generalizing depth with
  | nil => exact ⟨depth, h⟩
  | cons t newer ih =>
    obtain ⟨_, htail⟩ := h.tail
    exact ih htail

/-- What the form says of the token before a line end. -/
private theorem Nests.behind_newline {t : Token} (h : Nests (t :: tokens) depth)
    (kind : t.kind = .newline) : ∃ last ∈ tokens.head?, isLexeme last.kind = true := by
  cases h with
  | lexeme _ hlexeme =>
    rw [kind] at hlexeme
    cases hlexeme
  | newline _ behind => exact ⟨_, rfl, behind⟩
  | indent _ _ hkind => exact absurd (kind.symm.trans hkind) (by decide)
  | dedent _ _ hkind => exact absurd (kind.symm.trans hkind) (by decide)

/-- Behind a lexeme comes another one or a line end, never a mark: marks stand at the
beginning of lines. -/
private theorem Nests.after_lexeme {t u : Token} (h : Nests (u :: t :: tokens) depth)
    (kind : isLexeme t.kind = true) : isLexeme u.kind = true ∨ u.kind = .newline := by
  have hended {P : Prop} (ended : Ended (t :: tokens)) : P := by
    have := ended t rfl
    rw [kind] at this
    cases this
  cases h with
  | lexeme _ hlexeme => exact .inl hlexeme
  | newline _ _ hnewline => exact .inr hnewline
  | indent _ ended => exact hended ended
  | dedent _ ended => exact hended ended

/-- What the tokens of a source are like, in order. -/
structure Balanced (tokens : List Token) : Prop where
  /-- The end of input is marked once, behind all others. -/
  eof : ∃ front last, tokens = front ++ [last] ∧ last.kind = .eof ∧ ∀ t ∈ front, t.kind ≠ .eof
  /-- Directly in front of a line end stands a lexeme. -/
  newline : ∀ front t behind, tokens = front ++ t :: behind → t.kind = .newline →
    ∃ last ∈ front.getLast?, isLexeme last.kind = true
  /-- Directly behind the last lexeme stands a line end. -/
  ended : ∀ front t behind, tokens = front ++ t :: behind → isLexeme t.kind = true →
    (∀ u ∈ behind, isLexeme u.kind = false) → ∃ next ∈ behind.head?, next.kind = .newline
  /-- No level is closed before it is opened. -/
  nested : ∀ front, front <+: tokens → closed front ≤ opened front
  /-- All levels are closed in the end. -/
  total : opened tokens = closed tokens

/-- A token before the end of input, in order and newest first. -/
theorem eq_of_reverse_eq {last t : Token} {front behind : List Token}
    (h : (last :: tokens).reverse = front ++ t :: behind) (hlast : last.kind ≠ t.kind) :
    ∃ newer, behind = newer.reverse ++ [last] ∧ tokens = newer ++ t :: front.reverse := by
  have hrev := congrArg List.reverse h
  rw [List.reverse_reverse, List.reverse_append, List.reverse_cons, List.append_assoc] at hrev
  cases hbehind : behind.reverse with
  | nil =>
    rw [hbehind] at hrev
    exact absurd (congrArg Token.kind (List.cons.inj hrev).1) hlast
  | cons newest newer =>
    rw [hbehind] at hrev
    obtain ⟨rfl, htokens⟩ := List.cons.inj hrev
    refine ⟨newer, ?_, htokens⟩
    rw [← List.reverse_reverse behind, hbehind, List.reverse_cons]

/-- Tokens that leave no level open and no line without its end, with the end of input
behind them. -/
theorem Nests.balanced (h : Nests tokens 0) (hended : Ended tokens) {last : Token}
    (hlast : last.kind = .eof) : Balanced (last :: tokens).reverse where
  eof := ⟨tokens.reverse, last, by simp, hlast, fun t ht => h.ne_eof t (List.mem_reverse.1 ht)⟩
  newline := by
    intro front t behind heq kind
    obtain ⟨newer, -, rfl⟩ := eq_of_reverse_eq heq (by simp [hlast, kind])
    obtain ⟨_, holder⟩ := h.older
    obtain ⟨last', hmem, hkind⟩ := holder.behind_newline kind
    exact ⟨last', by simpa using hmem, hkind⟩
  ended := by
    intro front t behind heq kind hothers
    obtain ⟨newer, rfl, rfl⟩ := eq_of_reverse_eq heq fun heof => by
      rw [← heof, hlast] at kind
      cases kind
    -- the lexeme is not the newest token, and what came next is no lexeme
    rcases List.eq_nil_or_concat newer with rfl | ⟨newer, u, rfl⟩
    · rw [hended t rfl] at kind
      cases kind
    · refine ⟨u, by simp, ?_⟩
      rw [List.concat_append] at h
      obtain ⟨_, holder⟩ := h.older
      refine (holder.after_lexeme kind).resolve_left fun hlexeme => ?_
      rw [hothers u (by simp)] at hlexeme
      cases hlexeme
  nested := by
    intro front hfront
    rw [List.reverse_cons] at hfront
    rcases List.prefix_concat_iff.1 hfront with rfl | ⟨behind, hbehind⟩
    · simpa [hlast] using h.opened_eq.ge
    · rw [← List.reverse_reverse tokens, ← hbehind, List.reverse_append] at h
      obtain ⟨depth, holder⟩ := h.older
      have := holder.opened_eq
      simp only [opened_reverse, closed_reverse] at this
      omega
  total := by simpa [hlast] using h.opened_eq

-- ======================================================== the walk

/-- The open levels from the outside in, with the margin as the first of them. -/
def stack (s : Lexer) : List Nat := 0 :: s.levels.reverse

private theorem stack_reverse (s : Lexer) : s.stack.reverse = s.levels ++ [0] := by
  rw [stack, List.reverse_cons, List.reverse_reverse]

private theorem stack_getLast? (s : Lexer) : s.stack.getLast? = some (s.levels.headD 0) := by
  rw [← List.head?_reverse, stack_reverse]
  cases s.levels <;> rfl

/-- What a walk has at every point: tokens of the right form with the levels of the stack
open behind them, and a stack that grows. -/
structure Orderly (s : Lexer) : Prop where
  nests : Nests s.tokens s.levels.length
  growing : s.stack.Pairwise (· < ·)

/-- Going on in the text touches neither the tokens nor the levels. -/
theorem Orderly.moveOver (h : s.Orderly) (span rest : List Char) : (s.moveOver span rest).Orderly :=
  ⟨h.nests, h.growing⟩

/-- A lexeme may stand anywhere. -/
private theorem Orderly.push_lexeme (h : s.Orderly) {kind : Token.Kind}
    (hkind : isLexeme kind = true)
    (lexeme : String) (pos : Position) : (s.push kind lexeme pos).Orderly :=
  ⟨.lexeme h.nests hkind, h.growing⟩

/-- A line end opens and closes nothing. -/
@[simp] theorem endLine_levels (s : Lexer) : s.endLine.levels = s.levels := by
  unfold endLine
  split
  · rfl
  · split <;> rfl

/-- A line is ended behind a lexeme or not at all, if no mark stands last. -/
theorem Orderly.endLine (h : s.Orderly) (hmarked : s.markedLast = false) : s.endLine.Orderly := by
  refine ⟨?_, by simpa only [stack, endLine_levels] using h.growing⟩
  rw [endLine_levels]
  have hnests := h.nests
  unfold Lexer.endLine
  split
  · exact hnests
  · rename_i last others htokens
    split
    · exact hnests
    · rename_i hnewline
      rw [htokens] at hnests
      have hlexeme : isLexeme last.kind = true := by
        have hmark : last.kind.isIndentation = false := by
          simpa [markedLast, htokens] using hmarked
        have heof := hnests.ne_eof last List.mem_cons_self
        cases hkind : last.kind <;> simp_all [isLexeme, Token.Kind.isIndentation]
      have := Nests.newline (t := ⟨.newline, "\n", s.pos⟩) hnests hlexeme rfl
      rwa [← htokens] at this

/-- Where a line begins, the newest token is a line end or a mark. -/
theorem LineStart.ended (h : s.LineStart) : Ended s.tokens := by
  rcases h with hnil | ⟨last, hlast, hkind⟩
  · simp [Ended, hnil]
  · intro last' hlast'
    rw [hlast] at hlast'
    cases hlast'
    rw [hkind]
    rfl

/-- Closing levels is allowed as long as they are open, and needs the place behind a line
end. -/
private theorem closeLevels_nests (n : Nat) (h : Nests s.tokens (depth + n))
    (hended : Ended s.tokens) :
    Nests (s.closeLevels n).tokens depth ∧ Ended (s.closeLevels n).tokens := by
  induction n generalizing s with
  | zero => exact ⟨h, hended⟩
  | succ n ih => exact ih (.dedent h hended rfl) (by simp [Ended, push, isLexeme])

/-- The levels deeper than the width are dropped, and the width is put on top unless it is
there. -/
private theorem indentTo_levels (s : Lexer) (w : Nat) :
    (s.indentTo w).levels =
      if (s.levels.dropWhile (w < ·)).headD 0 < w then w :: s.levels.dropWhile (w < ·)
      else s.levels.dropWhile (w < ·) := by
  simp only [indentTo]
  split <;> rfl

/-- The innermost level of a line is its width. -/
theorem indentTo_headD (s : Lexer) (w : Nat) : (s.indentTo w).levels.headD 0 = w := by
  rw [indentTo_levels]
  split
  · rfl
  · rename_i hnot
    refine Nat.le_antisymm ?_ (Nat.not_lt.1 hnot)
    cases hkept : s.levels.dropWhile (w < ·) with
    | nil => exact Nat.zero_le w
    | cons level levels =>
      have := List.head?_dropWhile_not (w < ·) s.levels
      simpa [hkept] using this

private theorem growing_cons {levels : List Nat} {w : Nat} (h : (levels ++ [0]).Pairwise (· > ·))
    (hw : levels.headD 0 < w) : (w :: levels ++ [0]).Pairwise (· > ·) := by
  rw [← List.isChain_iff_pairwise] at h ⊢
  cases levels <;> exact .cons_cons hw h

/-- As many levels are closed as there are deeper ones, hence never more than are open. -/
theorem Orderly.indentTo (h : s.Orderly) (hended : Ended s.tokens) (w : Nat) :
    (s.indentTo w).Orderly := by
  have hlength : s.levels.length
      = (s.levels.dropWhile (w < ·)).length + (s.levels.takeWhile (w < ·)).length := by
    rw [Nat.add_comm, ← List.length_append, List.takeWhile_append_dropWhile]
  obtain ⟨hnests, hclosed⟩ := closeLevels_nests _ (hlength ▸ h.nests) hended
  have hkept : (s.levels.dropWhile (w < ·) ++ [0]).Pairwise (· > ·) := by
    have hall := List.pairwise_reverse.2 h.growing
    rw [stack_reverse] at hall
    exact hall.sublist ((List.dropWhile_sublist _).append (.refl _))
  have hgrowing {t : Lexer} (ht : (t.levels ++ [0]).Pairwise (· > ·)) :
      t.stack.Pairwise (· < ·) := by
    rw [← stack_reverse] at ht
    exact List.pairwise_reverse.1 ht
  unfold Lexer.indentTo
  dsimp only
  split
  · rename_i hopen
    exact ⟨.indent hnests hclosed rfl, hgrowing (growing_cons hkept hopen)⟩
  · exact ⟨hnests, hgrowing hkept⟩

-- ================================================ measured lines

/-- A line that is measured, and its width: spaces and tabs in front of something that is
neither the end of the line or of the source nor a comment. -/
def Measured (layout : Layout) (text : List Char) (w : Nat) : Prop :=
  ∃ blanks c behind, text = blanks ++ c :: behind ∧ (∀ x ∈ blanks, x = ' ' ∨ x = '\t')
    ∧ c ∉ [' ', '\t', '\n', '\r'] ∧ startsComment (c :: behind) = false
    ∧ w = blanks.count ' ' + layout.tabWidth * blanks.count '\t'

/-- A tab counts as its width wherever it stands in the line, so only the numbers of
blanks matter. -/
private theorem width_eq (layout : Layout) {blanks : List Char}
    (h : ∀ x ∈ blanks, x = ' ' ∨ x = '\t') :
    width layout blanks = blanks.count ' ' + layout.tabWidth * blanks.count '\t' := by
  have hfold (w : Nat) : blanks.foldl (fun w c => w + if c = '\t' then layout.tabWidth else 1) w
      = w + (blanks.count ' ' + layout.tabWidth * blanks.count '\t') := by
    induction blanks generalizing w with
    | nil => rfl
    | cons x blanks ih =>
      obtain ⟨hx, hblanks⟩ := List.forall_mem_cons.1 h
      rw [List.foldl_cons, ih hblanks]
      rcases hx with rfl | rfl
      · simp
        omega
      · simp [Nat.mul_add]
        omega
  rw [width, hfold, Nat.zero_add]

/-- The lexer measures the lines that are measured, by their width. -/
theorem measured_iff {text : List Char} {w : Nat} :
    Measured layout text w ↔ isBare (text.dropWhile isIndent) = false
      ∧ w = width layout (text.takeWhile isIndent) := by
  constructor
  · rintro ⟨blanks, c, behind, rfl, hblanks, hc, hcomment, rfl⟩
    have hall : ∀ x ∈ blanks, isIndent x = true := fun x hx => by
      simpa [isIndent] using hblanks x hx
    simp only [List.mem_cons, List.not_mem_nil, or_false, not_or] at hc
    obtain ⟨hspace, htab, hnewline, hreturn⟩ := hc
    have hindent : isIndent c = false := by simp [isIndent, hspace, htab]
    rw [List.dropWhile_append_of_pos hall, List.takeWhile_append_of_pos hall,
      List.dropWhile_cons_of_neg (by simp [hindent]),
      List.takeWhile_cons_of_neg (by simp [hindent]), List.append_nil]
    exact ⟨by simp [isBare, hnewline, hreturn, hcomment], (width_eq layout hblanks).symm⟩
  · rintro ⟨hbare, rfl⟩
    have hblanks : ∀ x ∈ text.takeWhile isIndent, x = ' ' ∨ x = '\t' := fun x hx => by
      simpa [isIndent] using List.mem_takeWhile_imp hx
    cases hrest : text.dropWhile isIndent with
    | nil =>
      rw [hrest] at hbare
      cases hbare
    | cons c behind =>
      -- what is left starts with no blank, and `hbare` says it is code
      have hhead := List.head?_dropWhile_not isIndent text
      rw [hrest] at hbare hhead
      simp only [isBare, Bool.or_eq_false_iff, decide_eq_false_iff_not] at hbare
      have hindent : ¬(c = ' ' ∨ c = '\t') := by simpa [isIndent] using hhead
      refine ⟨text.takeWhile isIndent, c, behind, ?_, hblanks, ?_, hbare.2, width_eq layout hblanks⟩
      · rw [← hrest, List.takeWhile_append_dropWhile]
      · simp only [List.mem_cons, List.not_mem_nil, or_false]
        tauto

/-- The front of a line changes the levels to the line's width, or not at all. -/
theorem beginLine_cases (hmarks : layout.indentation = true) (s : Lexer) :
    (∃ w, Measured layout s.rest w ∧ s.beginLine layout
        = (s.moveOver (s.rest.takeWhile isIndent) (s.rest.dropWhile isIndent)).indentTo w)
      ∨ (∀ w, ¬Measured layout s.rest w) ∧ s.beginLine layout
        = s.moveOver (s.rest.takeWhile isIndent) (s.rest.dropWhile isIndent) := by
  simp only [beginLine, hmarks, Bool.true_and, measured_iff]
  split
  · rename_i hbare
    exact .inl ⟨_, ⟨by simpa [moveOver] using hbare, rfl⟩, rfl⟩
  · rename_i hbare
    exact .inr ⟨fun w hw => hbare (by simpa [moveOver] using hw.1), rfl⟩

private theorem Measured.beginLine_eq (hmarks : layout.indentation = true) {w : Nat}
    (h : Measured layout s.rest w) : s.beginLine layout
      = (s.moveOver (s.rest.takeWhile isIndent) (s.rest.dropWhile isIndent)).indentTo w := by
  rcases beginLine_cases hmarks s with ⟨w', hw', heq⟩ | ⟨hnone, -⟩
  · rwa [(measured_iff.1 h).2, ← (measured_iff.1 hw').2]
  · exact absurd h (hnone w)

/-- What a step does: it passes a blank or a comment, ends a line and goes to the front of
the next one, or reads a lexeme. -/
theorem step_cases (hs : s.rest ≠ []) (hstep : s.step layout = .ok t) :
    (∃ span rest, t = s.moveOver span rest)
      ∨ (∃ rest, s.rest = '\n' :: rest ∧ t = (s.endLine.moveOver ['\n'] rest).beginLine layout)
      ∨ ∃ c rest l, s.rest = c :: rest ∧ Lexeme.scan c rest = .ok l
        ∧ t = (s.push l.kind (String.ofList l.contents) s.pos).moveOver l.span l.rest := by
  unfold step at hstep
  split at hstep
  · contradiction
  rename_i c rest hrest
  split at hstep
  · rename_i hc
    subst hc
    cases hstep
    exact .inr (.inl ⟨rest, hrest, rfl⟩)
  split at hstep
  · cases hstep
    exact .inl ⟨[c], rest, rfl⟩
  split at hstep
  · cases hstep
    exact .inl ⟨_, _, rfl⟩
  split at hstep
  · cases hstep
  · rename_i l hl
    cases hstep
    exact .inr (.inr ⟨c, rest, l, hrest, hl, rfl⟩)

/-- A line that is measured indents; any other is passed over to its first character that
is no blank. -/
theorem Orderly.beginLine (hmarks : layout.indentation = true) (h : s.Orderly)
    (hended : Ended s.tokens) : (s.beginLine layout).Orderly := by
  rcases beginLine_cases hmarks s with ⟨w, -, heq⟩ | ⟨-, heq⟩
  · rw [heq]
    exact (h.moveOver _ _).indentTo hended w
  · rw [heq]
    exact h.moveOver _ _

/-- A step of the walk moves on, ends a line and begins the next, or pushes a lexeme. -/
theorem Orderly.step (hmarks : layout.indentation = true) (h : s.Orderly) (hsettled : s.Settled)
    (hs : s.rest ≠ []) (hstep : s.step layout = .ok t) : t.Orderly := by
  rcases step_cases hs hstep with ⟨span, rest, rfl⟩ | ⟨rest, hrest, rfl⟩ | ⟨c, rest, l, -, hl, rfl⟩
  · exact h.moveOver span rest
  · have hmarked := hsettled.markedLast_eq_false
      (.inr ⟨'\n', rest, hrest, .inr (by simp [isBare])⟩)
    exact ((h.endLine hmarked).moveOver _ _).beginLine hmarks endLine_lineStart.ended
  · exact (h.push_lexeme (scan_isLexeme hl) _ _).moveOver _ _

/-- The walk begins at the beginning of a line, with nothing open. -/
private theorem start_orderly (hmarks : layout.indentation = true) (source : List Char) :
    (start layout source).Orderly := by
  have hahead : (ahead source).Orderly := ⟨.nil, by simp [stack, ahead]⟩
  exact hahead.beginLine hmarks (by simp [Ended])

/-- The tokens of a source that was read to its end. -/
theorem Orderly.finish_balanced (h : s.Orderly) (hsettled : s.Settled) (hs : s.rest = []) :
    Balanced s.finish := by
  have hline := (h.endLine (hsettled.markedLast_eq_false (.inl hs))).nests
  rw [endLine_levels, ← Nat.zero_add s.levels.length] at hline
  obtain ⟨hnests, hended⟩ := closeLevels_nests s.levels.length hline endLine_lineStart.ended
  exact hnests.balanced hended rfl

-- ===================================================== tokens stay

/-- Tokens are only ever added, which is why what was said between two lines can be found
again in the result. -/
private theorem endLine_tokens (s : Lexer) : s.tokens <:+ s.endLine.tokens := by
  unfold endLine
  split
  · exact List.suffix_rfl
  · split
    · exact List.suffix_rfl
    · exact List.suffix_cons _ _

private theorem closeLevels_tokens (s : Lexer) (n : Nat) : s.tokens <:+
    (s.closeLevels n).tokens := by
  induction n generalizing s with
  | zero => exact List.suffix_rfl
  | succ n ih => exact (List.suffix_cons _ _).trans (ih (s.push .dedent "" s.pos))

private theorem beginLine_tokens (layout : Layout) (s : Lexer) :
    s.tokens <:+ (s.beginLine layout).tokens := by
  unfold beginLine
  dsimp only
  split
  · unfold indentTo
    dsimp only
    split
    · exact (closeLevels_tokens (s.moveOver _ _) _).trans (List.suffix_cons _ _)
    · exact closeLevels_tokens (s.moveOver _ _) _
  · exact List.suffix_rfl

private theorem step_tokens (hs : s.rest ≠ []) (hstep : s.step layout = .ok t) :
    s.tokens <:+ t.tokens := by
  rcases step_cases hs hstep with ⟨span, rest, rfl⟩ | ⟨rest, hrest, rfl⟩ | ⟨c, rest, l, -, hl, rfl⟩
  · exact List.suffix_rfl
  · exact (endLine_tokens s).trans (beginLine_tokens layout (s.endLine.moveOver _ _))
  · exact List.suffix_cons _ _

private theorem finish_of_run (h : s.run layout = .ok t) : s.tokens.reverse <+: t.finish := by
  have hgrows := (run_keeps (P := fun u => s.tokens <:+ u.tokens)
    (fun _ _ hs hstep hu => hu.trans (step_tokens hs hstep)) h List.suffix_rfl).1
  refine List.reverse_prefix.2 (hgrows.trans ((endLine_tokens t).trans ?_))
  exact (closeLevels_tokens t.endLine t.levels.length).trans (List.suffix_cons _ _)

-- ============================================= points of the walk

/-- One step of the walk, before its end. -/
def Moves (layout : Layout) (s t : Lexer) : Prop := s.rest ≠ [] ∧ s.step layout = .ok t

/-- The walk comes from one point to another. -/
def Walks (layout : Layout) : Lexer → Lexer → Prop := Relation.ReflTransGen (Moves layout)

/-- From the front of the line at `u`, whose blanks are not passed yet, the walk comes to
the front of the line at `v`. -/
def Later (layout : Layout) (u v : Lexer) : Prop :=
  ∃ s rest, Walks layout (u.beginLine layout) s ∧ s.rest = '\n' :: rest
    ∧ v = s.endLine.moveOver ['\n'] rest

/-- The fronts of the lines of a source. A line feed in a string ends no line. -/
def Line (layout : Layout) (source : List Char) (u : Lexer) : Prop :=
  u = ahead source ∨ Later layout (ahead source) u

/-- A later line is come to by steps of the walk. -/
theorem Later.walks (h : Later layout s t) :
    Walks layout (s.beginLine layout) (t.beginLine layout) := by
  obtain ⟨u, rest, hwalk, hrest, rfl⟩ := h
  refine hwalk.tail ⟨by simp [hrest], ?_⟩
  simp [step, hrest]

/-- So is every line of the source, from its start. -/
theorem Line.walks {source : List Char} (h : Line layout source u) :
    Walks layout (start layout source) (u.beginLine layout) := by
  rcases h with rfl | h
  · exact .refl
  · exact h.walks

/-- Where a walk comes by, it ends as it does. -/
theorem Walks.run (h : Walks layout s t) : s.run layout = t.run layout := by
  induction h with
  | refl => rfl
  | tail _ hmoves ih => rw [ih, run_eq_bind hmoves.1, hmoves.2]; rfl

private theorem Walks.keeps_tokens (h : Walks layout s t) : s.tokens <:+ t.tokens := by
  induction h with
  | refl => exact List.suffix_rfl
  | tail _ hmoves ih => exact ih.trans (step_tokens hmoves.1 hmoves.2)

/-- Order is kept along a whole walk, by induction on its steps. -/
private theorem Walks.orderly (hmarks : layout.indentation = true) (h : Walks layout s t)
    (hs : s.Orderly ∧ s.Settled) : t.Orderly ∧ t.Settled := by
  induction h with
  | refl => exact hs
  | tail _ hmoves ih =>
    exact ⟨ih.1.step hmarks ih.2 hmoves.1 hmoves.2, step_settled hmoves.1 hmoves.2 ih.2⟩

private theorem start_walks_orderly (hmarks : layout.indentation = true) {source : List Char}
    (h : Walks layout (start layout source) s) : s.Orderly ∧ s.Settled :=
  h.orderly hmarks ⟨start_orderly hmarks source, start_settled layout source⟩

-- ============================================== between two lines

/-- All that stands on top of these levels is deeper than `w`. -/
def Upon (levels : List Nat) (w : Nat) (s : Lexer) : Prop :=
  ∃ above, s.levels = above ++ levels ∧ ∀ level ∈ above, w < level

/-- A line that is no narrower touches nothing of what is below. -/
theorem Upon.indentTo {levels : List Nat} {w w' : Nat} (h : Upon levels w s)
    (hw : levels.headD 0 = w) (hle : w ≤ w') : Upon levels w (s.indentTo w') := by
  obtain ⟨above, hlevels, habove⟩ := h
  have hkept : s.levels.dropWhile (w' < ·) = above.dropWhile (w' < ·) ++ levels := by
    have hbelow : levels.dropWhile (w' < ·) = levels := by
      cases levels with
      | nil => rfl
      | cons level levels =>
        have hlevel : ¬w' < level := Nat.not_lt.2 (hw.trans_le hle)
        exact List.dropWhile_cons_of_neg (by simpa using hlevel)
    rw [hlevels, List.dropWhile_append]
    split
    · rename_i hempty
      rw [hbelow, List.isEmpty_iff.1 hempty, List.nil_append]
    · rfl
  have hrest : ∀ level ∈ above.dropWhile (w' < ·), w < level := fun level hmem =>
    habove level ((List.dropWhile_sublist _).mem hmem)
  unfold Upon
  rw [indentTo_levels, hkept]
  split
  · rename_i hopen
    refine ⟨w' :: above.dropWhile (w' < ·), rfl, List.forall_mem_cons.2 ⟨?_, hrest⟩⟩
    refine Nat.lt_of_le_of_lt ?_ hopen
    cases habove : above.dropWhile (w' < ·) with
    | nil => exact hw.ge
    | cons level above' => exact Nat.le_of_lt (hrest level (by simp [habove]))
  · exact ⟨_, rfl, hrest⟩

/-- The next line of the same width leaves what is below and nothing else. -/
theorem Upon.indentTo_self {levels : List Nat} {w : Nat} (h : Upon levels w s)
    (hw : levels.headD 0 = w) : (s.indentTo w).levels = levels := by
  obtain ⟨above, hlevels, habove⟩ := h
  have hkept : s.levels.dropWhile (w < ·) = levels := by
    rw [hlevels, List.dropWhile_append_of_pos fun level hmem => by simpa using habove level hmem]
    cases levels with
    | nil => rfl
    | cons level levels =>
      have hlevel : ¬w < level := Nat.not_lt.2 hw.le
      exact List.dropWhile_cons_of_neg (by simpa using hlevel)
  rw [indentTo_levels, hkept, if_neg (Nat.not_lt.2 hw.ge)]

/-- Between the lines at `u` and `v`, no line that is measured is narrower than `w`. -/
def NoneNarrower (layout : Layout) (u v : Lexer) (w : Nat) : Prop :=
  ∀ c w', Later layout u c → Later layout c v → Measured layout c.rest w' → w ≤ w'

/-- As long as no line is narrower, nothing of the stack of a line is touched. -/
theorem Walks.upon (hmarks : layout.indentation = true) {v : Lexer} {w : Nat} {rest : List Char}
    (hu : Measured layout u.rest w) (hnone : NoneNarrower layout u v w)
    (h : Walks layout (u.beginLine layout) s) (hs : Walks layout s t) (ht : t.rest = '\n' :: rest)
    (hv : v = t.endLine.moveOver ['\n'] rest) : Upon (u.beginLine layout).levels w s := by
  have hw : (u.beginLine layout).levels.headD 0 = w := by
    rw [hu.beginLine_eq hmarks, indentTo_headD]
  induction h with
  | refl => exact ⟨[], rfl, by simp⟩
  | @tail s₁ s₂ hwalk hmoves ih =>
    have hupon := ih (.head hmoves hs)
    rcases step_cases hmoves.1 hmoves.2 with
      ⟨_, _, rfl⟩ | ⟨rest₁, hrest, rfl⟩ | ⟨_, _, _, -, -, rfl⟩
    · exact hupon
    · -- a line between the two is begun here
      have hupon : Upon (u.beginLine layout).levels w (s₁.endLine.moveOver ['\n'] rest₁) := by
        simpa [Upon, moveOver] using hupon
      rcases beginLine_cases hmarks (s₁.endLine.moveOver ['\n'] rest₁) with
        ⟨w', hw', heq⟩ | ⟨-, heq⟩
      · have hle := hnone _ w' ⟨s₁, rest₁, hwalk, hrest, rfl⟩ ⟨t, rest, hs, ht, hv⟩ hw'
        rw [heq]
        exact Upon.indentTo (s := Lexer.moveOver _ _ _) hupon hw hle
      · rw [heq]
        exact hupon
    · exact hupon

/-- Two lines of the same width have the same levels, if no line between them is narrower. -/
theorem Later.levels_eq (hmarks : layout.indentation = true) {v : Lexer} {w : Nat}
    (hlater : Later layout u v) (hu : Measured layout u.rest w) (hv : Measured layout v.rest w)
    (hnone : NoneNarrower layout u v w) :
    (v.beginLine layout).levels = (u.beginLine layout).levels := by
  obtain ⟨s, rest, hwalk, hrest, hend⟩ := hlater
  have hupon := hwalk.upon hmarks hu hnone .refl hrest hend
  have hw : (u.beginLine layout).levels.headD 0 = w := by
    rw [hu.beginLine_eq hmarks, indentTo_headD]
  rw [hv.beginLine_eq hmarks]
  refine Upon.indentTo_self ?_ hw
  simpa [Upon, moveOver, hend] using hupon

-- ================================================== the two together

/-- The marks follow the lines of a source. -/
structure Faithful (layout : Layout) (source : List Char) (tokens : List Token) : Prop where
  /-- At every point of the walk the stack grows from the margin on, and so does what is left of
  it while levels are closed. -/
  growing : ∀ s left, Walks layout (start layout source) s → left <+: s.stack →
    left.Pairwise (· < ·)
  /-- Behind the marks of a measured line, the line's width is on top of the stack. -/
  top : ∀ u w, Line layout source u → Measured layout u.rest w →
    (u.beginLine layout).stack.getLast? = some w
  /-- Between two measured lines of one width, with no narrower one between them, as many levels
  are opened as closed. -/
  level : ∀ u v w, Line layout source u → Later layout u v → Measured layout u.rest w →
    Measured layout v.rest w → NoneNarrower layout u v w →
    ∃ front between behind, tokens = front ++ between ++ behind
      ∧ front = (u.beginLine layout).tokens.reverse
      ∧ front ++ between = (v.beginLine layout).tokens.reverse
      ∧ opened between = closed between

/-- The three facts about levels, each read off at the lines in question and carried to
the end of the walk. -/
private theorem run_faithful (hmarks : layout.indentation = true) {source : List Char}
    (hrun : (start layout source).run layout = .ok t) : Faithful layout source t.finish where
  growing s left hs hleft :=
    (start_walks_orderly hmarks hs).1.growing.sublist hleft.sublist
  top u w _ hu := by rw [stack_getLast?, hu.beginLine_eq hmarks, indentTo_headD]
  level u v w hline hlater hu hv hnone := by
    have hwalk := hline.walks.trans hlater.walks
    obtain ⟨between, hbetween⟩ := hlater.walks.keeps_tokens
    obtain ⟨behind, hbehind⟩ : (v.beginLine layout).tokens.reverse <+: t.finish :=
      finish_of_run ((Walks.run hwalk).symm.trans hrun)
    refine ⟨_, between.reverse, behind, ?_, rfl, ?_, ?_⟩
    · rw [← hbehind, ← hbetween, List.reverse_append]
    · rw [← hbetween, List.reverse_append]
    · -- the same levels are open at both ends
      have hfirst := (start_walks_orderly hmarks hline.walks).1.nests.opened_eq
      have hsecond := (start_walks_orderly hmarks hwalk).1.nests.opened_eq
      rw [hlater.levels_eq hmarks hu hv hnone, ← hbetween] at hsecond
      simp only [opened_append, closed_append] at hsecond
      rw [opened_reverse, closed_reverse]
      omega

end Lexer

open Lexer in
/-- In the tokens of a source that is not refused, the marks of indentation are balanced, and
they follow the widths of its lines. -/
theorem tokenize_indentation {layout : Layout} (hmarks : layout.indentation = true)
    {source : String} {tokens : List Token} (h : tokenize layout source = .ok tokens) :
    Balanced tokens ∧ Faithful layout source.toList tokens := by
  unfold tokenize at h
  split at h
  · cases h
  · rename_i s hrun
    cases h
    obtain ⟨⟨horderly, hsettled⟩, hrest⟩ := run_keeps
      (P := fun s => s.Orderly ∧ s.Settled)
      (fun _ _ hs hstep h => ⟨h.1.step hmarks h.2 hs hstep, step_settled hs hstep h.2⟩) hrun
      ⟨start_orderly hmarks _, start_settled layout _⟩
    exact ⟨horderly.finish_balanced hsettled hrest, run_faithful hmarks hrun⟩

/-- A source with a line that is less wide than the one before it and wider than all others
that are open, with lines that are not measured, and with a line feed in a string. -/
def dented : String := "if\n    a 'b\n  c'\n\td\n\n  # e\n      f\n    g"

/-- The theorem there: the marks cancel out between the lines of equal width, although one
line goes back to a width that was not open. -/
theorem tokenize_indentation_dented :
    ∃ tokens, tokenize {} dented = .ok tokens
      ∧ tokens.map (·.kind) = [.keyword .if_, .newline, .indent, .name, .string, .newline, .indent,
        .name, .newline, .dedent, .indent, .name, .newline, .dedent, .name, .newline, .dedent, .eof]
      ∧ Lexer.Balanced tokens ∧ Lexer.Faithful {} dented.toList tokens := by
  have hkinds : (tokenize {} dented).toOption.map (fun tokens => tokens.map (·.kind))
      = some [.keyword .if_, .newline, .indent, .name, .string, .newline, .indent, .name, .newline,
        .dedent, .indent, .name, .newline, .dedent, .name, .newline, .dedent, .eof] := by
    decide +kernel
  cases htokens : tokenize {} dented with
  | error e =>
    rw [htokens] at hkinds
    cases hkinds
  | ok tokens =>
    rw [htokens] at hkinds
    exact ⟨tokens, rfl, Option.some.inj hkinds, tokenize_indentation rfl htokens⟩

end Scriptlet
