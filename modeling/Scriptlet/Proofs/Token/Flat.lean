/-
Tokens without their indentation. The grammar never sees the marks of
indentation, so for the meaning of a source it does not matter how its layout is
measured, or whether it is. Here every reading of a source is reduced to the
flat one, which measures nothing: same errors, same tokens but for the marks.

# Why the marks leave no trace

A line end is not marked twice in a row, and the lexer sees only the last token.
A mark of indentation behind a line end could hide it, but a line is measured
only if a lexeme follows its blanks (`Settled`), so nothing comes between the
mark and that lexeme.
-/
import Scriptlet.Interpreter
import Scriptlet.Proofs.Grammar.Content

namespace Scriptlet

/-- The layout that measures nothing. -/
def Layout.flat : Layout := { indentation := false, tabWidth := 0 }

namespace Lexer

variable {layout : Layout} {s t : Lexer}

-- ======================================================== the walk

/-- With nothing left to read the walk is over. -/
theorem run_of_rest_eq_nil (h : s.rest = []) : s.run layout = .ok s := by
  rw [run, dif_pos h]

/-- A walk is a step and the walk from there. -/
theorem run_eq_bind (h : s.rest ≠ []) : s.run layout = s.step layout >>= (·.run layout) := by
  rw [run, dif_neg h]
  split
  · rename_i e hstep
    rw [hstep]
    rfl
  · rename_i t hstep
    show t.run layout = _
    rw [hstep]
    rfl

/-- What every step keeps, a walk keeps. -/
theorem run_keeps {P : Lexer → Prop}
    (hstep : ∀ ⦃s t : Lexer⦄, s.rest ≠ [] → s.step layout = .ok t → P s → P t)
    (h : s.run layout = .ok t) (hs : P s) : P t ∧ t.rest = [] := by
  induction hn : s.rest.length using Nat.strongRecOn generalizing s with
  | ind n ih =>
    by_cases hrest : s.rest = []
    · rw [run_of_rest_eq_nil hrest] at h
      cases h
      exact ⟨hs, hrest⟩
    · rw [run_eq_bind hrest] at h
      obtain ⟨u, hu, h⟩ := Except.ok_of_bind h
      exact ih _ (hn ▸ step_shortens hrest hu) h (hstep hrest hu hs) rfl

-- ===================================================== indentation

/-- Whether the last token marks a change of indentation. -/
def markedLast (s : Lexer) : Bool := s.tokens.head?.any (·.kind.isIndentation)

/-- Where the last token marks a change of indentation, a lexeme follows. -/
def Settled (s : Lexer) : Prop :=
  s.markedLast = true →
    ∃ c rest, s.rest = c :: rest ∧ isIndent c = false ∧ isBare (c :: rest) = false

/-- The state of a walk that measures nothing. -/
def unmarked (s : Lexer) : Lexer :=
  { s with levels := [], tokens := s.tokens.filter fun t => !t.kind.isIndentation }

@[simp] theorem unmarked_rest : s.unmarked.rest = s.rest := rfl

@[simp] theorem unmarked_pos : s.unmarked.pos = s.pos := rfl

@[simp] theorem unmarked_moveOver (span rest : List Char) :
    (s.moveOver span rest).unmarked = s.unmarked.moveOver span rest := rfl

/-- Forgetting marks commutes with every move of the walk that adds none. -/
private theorem unmarked_push {kind : Token.Kind} (hkind : kind.isIndentation = false)
    (lexeme : String)
    (pos : Position) : (s.push kind lexeme pos).unmarked = s.unmarked.push kind lexeme pos := by
  simp [push, unmarked, hkind]

/-- Here it matters what the last token is: a mark would hide the line end before it. -/
private theorem unmarked_endLine (h : s.markedLast = false) :
    s.endLine.unmarked = s.unmarked.endLine := by
  obtain ⟨rest, pos, levels, tokens⟩ := s
  cases tokens with
  | nil => rfl
  | cons last before =>
    have hlast : last.kind.isIndentation = false := h
    have hnewline : Token.Kind.newline.isIndentation = false := rfl
    by_cases hk : last.kind = .newline
    · simp [endLine, unmarked, hk, hnewline]
    · simp [endLine, unmarked, push, hk, hlast, hnewline]

private theorem closeLevels_unmarked (n : Nat) : (s.closeLevels n).unmarked = s.unmarked := by
  induction n generalizing s with
  | zero => rfl
  | succ n ih =>
    rw [closeLevels, ih]
    rfl

private theorem indentTo_unmarked (w : Nat) : (s.indentTo w).unmarked = s.unmarked := by
  rw [← closeLevels_unmarked (s := s) (s.levels.takeWhile (w < ·)).length]
  simp only [indentTo]
  split <;> rfl

/-- Beginning a line adds marks only, so without them it is passing over the blanks. -/
private theorem beginLine_unmarked :
    (s.beginLine layout).unmarked = s.unmarked.beginLine .flat := by
  simp only [beginLine]
  split
  · rw [indentTo_unmarked]
    rfl
  · rfl

/-- Line ends are not marks of indentation. -/
theorem endLine_markedLast (h : s.markedLast = false) : s.endLine.markedLast = false := by
  unfold endLine
  split
  · exact h
  · split
    · exact h
    · rfl

/-- A line is measured only where a lexeme follows. -/
theorem beginLine_settled (h : s.markedLast = false) : (s.beginLine layout).Settled := by
  simp only [beginLine]
  split
  · rename_i hmeasured
    intro _
    rw [indentTo_rest]
    simp only [moveOver] at hmeasured ⊢
    have hbare : isBare (s.rest.dropWhile isIndent) = false := by
      simpa using (Bool.and_eq_true_iff.1 hmeasured).2
    cases hdrop : s.rest.dropWhile isIndent with
    | nil => simp [hdrop, isBare] at hbare
    | cons c rest =>
      refine ⟨c, rest, rfl, ?_, hdrop ▸ hbare⟩
      have := List.head?_dropWhile_not isIndent s.rest
      simpa [hdrop] using this
  · intro hmarked
    exact absurd hmarked (by simpa [moveOver, markedLast] using h)

-- ======================================================= the steps

/-- The kinds that a lexeme can have. -/
def isLexeme : Token.Kind → Bool
  | .newline | .indent | .dedent | .eof => false
  | _ => true

/-- What is read from the text itself is no mark. -/
theorem isIndentation_of_isLexeme {kind : Token.Kind} (h : isLexeme kind = true) :
    kind.isIndentation = false := by
  cases kind <;> first | rfl | cases h

/-- What is scanned is a word, a numeral, a string or a symbol. -/
theorem scan_isLexeme {c : Char} {rest : List Char} {l : Lexeme} (h : Lexeme.scan c rest = .ok l) :
    isLexeme l.kind = true := by
  unfold Lexeme.scan at h
  split at h
  · cases h
    simp only [Lexeme.word]
    split <;> rfl
  split at h
  · simp only [Lexeme.number] at h
    repeat' split at h
    all_goals first | cases h; rfl | cases h
  split at h
  · unfold Lexeme.string at h
    split at h
    · cases h
    · cases h
      rfl
  split at h
  · cases h
    rfl
  · cases h

/-- Before a blank, a comment or the end of a line, the last token is no mark of
indentation. -/
theorem Settled.markedLast_eq_false (h : s.Settled)
    (hrest : s.rest = [] ∨ ∃ c rest, s.rest = c :: rest
      ∧ (isIndent c = true ∨ isBare (c :: rest) = true)) :
    s.markedLast = false := by
  cases hmarked : s.markedLast with
  | false => rfl
  | true =>
    obtain ⟨c, rest, heq, hindent, hbare⟩ := h hmarked
    rcases hrest with hnil | ⟨c', rest', heq', hc⟩
    · rw [heq] at hnil
      cases hnil
    · rw [heq] at heq'
      obtain ⟨rfl, rfl⟩ := List.cons.inj heq'
      rw [hindent, hbare] at hc
      rcases hc with hc | hc <;> cases hc

private theorem isIndent_or_isBare_of_blank {c : Char} {rest : List Char}
    (h : (c = ' ' || c = '\t' || c = '\r') = true) :
    isIndent c = true ∨ isBare (c :: rest) = true := by
  simp only [Bool.or_eq_true, decide_eq_true_eq] at h
  rcases h with (rfl | rfl) | rfl
  · exact .inl rfl
  · exact .inl rfl
  · exact .inr rfl

/-- A step of a walk that measures lines is, but for the marks, one of the walk
that does not. -/
theorem step_unmarked (h : s.Settled) :
    s.unmarked.step .flat = (s.step layout).map unmarked := by
  unfold step
  rw [unmarked_rest]
  cases hrest : s.rest with
  | nil => rfl
  | cons c rest =>
    dsimp only
    by_cases hnewline : c = '\n'
    · have hmarked := h.markedLast_eq_false
        (.inr ⟨c, rest, hrest, .inr (by simp [isBare, hnewline])⟩)
      rw [if_pos hnewline, if_pos hnewline]
      simp only [Except.map, beginLine_unmarked, unmarked_moveOver, unmarked_endLine hmarked]
    rw [if_neg hnewline, if_neg hnewline]
    split
    · rfl
    split
    · rfl
    cases hscan : Lexeme.scan c rest with
    | error cause => rfl
    | ok l =>
      simp only [Except.map, unmarked_moveOver, unmarked_pos,
        unmarked_push (isIndentation_of_isLexeme (scan_isLexeme hscan))]

/-- After each step either the last token is no mark or a lexeme comes next: marks are
pushed only where a line is measured, and it is measured only in front of a lexeme. -/
theorem step_settled (hrest : s.rest ≠ []) (ht : s.step layout = .ok t) (h : s.Settled) :
    t.Settled := by
  -- blanks and comments pass over a lexer that has marked nothing, and leave it so
  have hkeep {u : Lexer} (hu : u.markedLast = s.markedLast) {c : Char} {rest : List Char}
      (heq : s.rest = c :: rest) (hc : isIndent c = true ∨ isBare (c :: rest) = true) :
      u.Settled := by
    intro hmarked
    rw [hu, h.markedLast_eq_false (.inr ⟨c, rest, heq, hc⟩)] at hmarked
    cases hmarked
  unfold step at ht
  split at ht
  · contradiction
  · rename_i c rest heq
    split at ht
    · rename_i hnewline
      cases ht
      have hmarked := h.markedLast_eq_false
        (.inr ⟨c, rest, heq, .inr (by simp [isBare, hnewline])⟩)
      exact beginLine_settled (endLine_markedLast hmarked)
    split at ht
    · cases ht
      exact hkeep rfl heq (isIndent_or_isBare_of_blank ‹_›)
    split at ht
    · rename_i hcomment
      cases ht
      refine hkeep rfl heq (.inr ?_)
      rw [isBare, hcomment, Bool.or_true]
    split at ht
    · cases ht
    · rename_i l hscan
      cases ht
      intro hmarked
      have hkind : l.kind.isIndentation = true := hmarked
      rw [isIndentation_of_isLexeme (scan_isLexeme hscan)] at hkind
      cases hkind

/-- A walk that measures lines is, but for the marks, one that does not. -/
theorem run_unmarked (h : s.Settled) : s.unmarked.run .flat = (s.run layout).map unmarked := by
  induction hn : s.rest.length using Nat.strongRecOn generalizing s with
  | ind n ih =>
    by_cases hrest : s.rest = []
    · rw [run_of_rest_eq_nil hrest, run_of_rest_eq_nil (s := s.unmarked) hrest]
      rfl
    · rw [run_eq_bind hrest, run_eq_bind (s := s.unmarked) hrest, step_unmarked h]
      cases hstep : s.step layout with
      | error e => rfl
      | ok t => exact ih _ (hn ▸ step_shortens hrest hstep) (step_settled hrest hstep h) rfl

/-- At the start there is no token at all. -/
theorem start_settled (layout : Layout) (source : List Char) : (start layout source).Settled :=
  beginLine_settled rfl

private theorem finish_unmarked (h : s.markedLast = false) :
    s.unmarked.finish = s.finish.filter fun t => !t.kind.isIndentation := by
  have hclosed := closeLevels_unmarked (s := s.endLine) s.levels.length
  rw [unmarked_endLine h] at hclosed
  have htokens : ((s.endLine.closeLevels s.levels.length).tokens.filter
      fun t => !t.kind.isIndentation) = s.unmarked.endLine.tokens := by
    rw [← hclosed]
    rfl
  simp only [finish, push, List.filter_reverse, List.filter_cons, htokens]
  rfl

end Lexer

/-- Every layout cuts a source into the same tokens, but for the marks of
indentation, or refuses it for the same reason. -/
theorem tokenize_flat (layout : Layout) (source : String) :
    tokenize .flat source
      = (tokenize layout source).map fun tokens =>
        tokens.filter fun t => !t.kind.isIndentation := by
  have hsettled := Lexer.start_settled layout source.toList
  have hstart : Lexer.start .flat source.toList = (Lexer.start layout source.toList).unmarked :=
    (Lexer.beginLine_unmarked (s := ⟨source.toList, .start, [], []⟩)).symm
  unfold tokenize
  rw [hstart, Lexer.run_unmarked hsettled]
  cases hrun : (Lexer.start layout source.toList).run layout with
  | error e => rfl
  | ok s =>
    obtain ⟨hs, hrest⟩ := Lexer.run_keeps (fun _ _ => Lexer.step_settled) hrun hsettled
    exact congrArg Except.ok (Lexer.finish_unmarked (hs.markedLast_eq_false (.inl hrest)))

/-- The grammar drops the marks itself, so it makes no difference if they are dropped
before. -/
private theorem Program.ofTokens_filter (tokens : List Token) :
    Program.ofTokens (tokens.filter fun t => !t.kind.isIndentation) = Program.ofTokens tokens := by
  simp [Program.ofTokens]

/-- The layout has no part in what a source means. -/
theorem Interpreter.parse_flat (layout : Layout) (source : String) :
    Interpreter.parse .flat source = Interpreter.parse layout source := by
  unfold Interpreter.parse
  rw [tokenize_flat layout]
  cases tokenize layout source with
  | error e => rfl
  | ok tokens => simp only [Except.map, Program.ofTokens_filter]

end Scriptlet
