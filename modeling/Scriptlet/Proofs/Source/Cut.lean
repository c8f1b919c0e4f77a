/-
Sources put together from lines. When a source makes a program, then so do the
parts it is cut into behind a line end, or else the first part is recognized as
one that lacks its end. In the first case the program of the whole is that of
the first part followed by that of the second, further down.

This joins what is known of tokens (`Lexer.run_facing_append`,
`Lexer.run_behind`) with what is known of the grammar (`Parser.program_cut`,
`Parser.program_moved`).
-/
import Scriptlet.Proofs.Grammar.Cut
import Scriptlet.Proofs.Token.Lines

namespace Scriptlet

-- ======================================================= positions

private theorem Position.down_step (lines : Nat) (pos : Position) (c : Char) :
    Position.down lines (pos.step c) = (Position.down lines pos).step c := by
  unfold Position.step Position.down
  split
  · exact congrArg (Position.mk · 1) (Nat.add_right_comm _ _ _)
  · rfl

private theorem Position.after_line (pos : Position) (text : List Char) :
    (pos.after text).line = pos.line + text.count '\n' := by
  induction text generalizing pos with
  | nil => rfl
  | cons c rest ih =>
    rw [Position.after_cons, ih, List.count_cons, Position.step]
    by_cases hc : c = '\n'
    · simp [hc, Nat.add_assoc, Nat.add_comm 1]
    · simp [hc]

/-- Behind a line end the column is the first one. -/
theorem Position.after_column {text : List Char} (h : EndsLine text) (pos : Position) :
    (pos.after text).column = 1 := by
  obtain ⟨front, rfl⟩ := List.getLast?_eq_some_iff.1 h
  rw [Position.after_append]
  rfl

/-- Behind whole lines a text starts in the first column, as many lines further down. -/
theorem Position.start_after {text : List Char} (h : text = [] ∨ EndsLine text) :
    Position.start.after text = Position.down (text.count '\n') .start := by
  rcases h with rfl | h
  · rfl
  · have hline := Position.after_line .start text
    have hcolumn := Position.after_column h .start
    rw [← show (⟨(Position.start.after text).line, (Position.start.after text).column⟩ : Position)
      = Position.start.after text from rfl, hline, hcolumn]
    rfl

-- ======================================================= programs

namespace Lexer

variable {s t u : Lexer}

/-- Where a line begins, ending it adds nothing to what was pushed. -/
theorem LineStart.marks_eq (h : t.LineStart) : t.marks = t.tokens.reverse := by
  rw [marks, h.endLine_eq]

/-- So the tokens before a cut are used up or end with a line end, as the grammar needs
it. -/
theorem LineStart.loose (h : t.LineStart) : Parser.Loose t.marks := by
  rw [h.marks_eq]
  refine h.imp (fun hnil => ?_) fun hlast => ?_
  · rw [hnil]
    rfl
  · obtain ⟨last, hlast, hk⟩ := hlast
    exact ⟨last, by rw [List.getLast?_reverse, hlast], hk⟩

/-- The tokens of a source behind another one follow those of the other. -/
theorem marks_behind {f : Position → Position} (h : t.LineStart) (u : Lexer) :
    (u.behind f t.tokens).marks = t.marks ++ u.marks.map (Token.moved f) := by
  rw [h.marks_eq, marks, endLine_behind h]
  simp [behind, marks]

/-- From the start of a line on, the walk is that over a source of its own, further
down. -/
theorem LineStart.run_facing (h : t.LineStart) (hlevels : t.levels = []) {lines : Nat}
    (hpos : t.pos = Position.down lines .start) (text : List Char) :
    (t.facing text).run .flat
      = behindResult (Position.down lines) t.tokens ((ahead text).run .flat) := by
  have hbehind : t.facing text = (ahead text).behind (Position.down lines) t.tokens := by
    simp [facing, behind, ahead, hpos, hlevels]
  rw [hbehind, run_behind (Position.down_step _) h]

end Lexer

/-- A source cut behind a line end. -/
theorem Interpreter.parse_append {layout : Layout} {first second : String}
    (hfirst : first.toList = [] ∨ EndsLine first.toList) {whole : Program}
    (h : Interpreter.parse layout (first ++ second) = .ok whole) :
    (∃ e, Interpreter.parse layout first = .error e ∧ e.isIncomplete = true)
      ∨ ∃ before behind, Interpreter.parse layout first = .ok before
        ∧ Interpreter.parse layout second = .ok behind
        ∧ whole = before ++ Program.moved (Position.down (first.toList.count '\n')) behind := by
  simp only [Interpreter.parse_eq, String.toList_append] at h ⊢
  have hcut := Lexer.run_facing_append (Lexer.ahead []) first.toList second.toList
    (hfirst.imp (fun hnil => ⟨hnil, .inl rfl⟩) id)
  have hahead (text : List Char) : (Lexer.ahead []).facing text = Lexer.ahead text := rfl
  simp only [hahead] at hcut
  -- the first text stops short, or the whole text fails with it, or it is read to its end
  rcases hcut with ⟨e, he, hcause | hwhole⟩ | ⟨t, ht, hstart, hwhole⟩
  · rw [he]
    exact .inl ⟨.lex e, rfl, by simpa [Failure.isIncomplete] using hcause⟩
  · rw [hwhole] at h
    cases h
  · have hpos : t.pos = Position.down (first.toList.count '\n') .start := by
      rw [Lexer.run_pos ht]
      exact Position.start_after hfirst
    rw [hwhole, hstart.run_facing (Lexer.run_plain ht).1 hpos] at h
    rw [ht]
    cases hu : (Lexer.ahead second.toList).run .flat with
    | error e =>
      rw [hu] at h
      cases h
    | ok u =>
      rw [hu] at h
      simp only [Lexer.behindResult, Lexer.marks_behind hstart] at h
      dsimp only
      have hprogram : Parser.program (Position.down (first.toList.count '\n') u.pos)
          (t.marks ++ u.marks.map (Token.moved (Position.down (first.toList.count '\n'))))
            = .ok whole := by
        split at h
        · cases h
        · cases h
          assumption
      -- the tokens of the first text either want more or are statements of their own
      rcases Parser.program_cut t.pos _ hstart.loose
          (fun _ => Lexer.marks_ne_eof (Lexer.run_plain ht)) hprogram with
        ⟨e, he, hfound⟩ | ⟨before, moved, hbefore, hmoved, rfl⟩
      · rw [he]
        exact .inl ⟨.parse e, rfl, by simpa [Failure.isIncomplete] using hfound⟩
      · rw [Parser.program_moved] at hmoved
        cases hparse : Parser.program u.pos u.marks with
        | error e =>
          rw [hparse] at hmoved
          cases hmoved
        | ok behind =>
          rw [hparse] at hmoved
          cases hmoved
          rw [hbefore]
          exact .inr ⟨before, behind, rfl, rfl, rfl⟩

end Scriptlet
