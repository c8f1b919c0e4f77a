/-
Sources joined by a line end. Two sources that both make a program also make one together,
with a line end between them: that of the first followed by that of the second, further
down. Nothing that the first source ends with takes up what the second begins with, be it
a comment, a symbol that could be the front of a longer one, or a statement that could go
on; and no blank or bracket at the front of the second is taken for a part of the first.

The walk over the first source finds the same pieces when a line follows
(`Lexer.run_joined`), and ends at the start of that line. From there on the walk is that
over the second source (`Lexer.run_behind`), and the grammar reads the tokens up to there
as it reads them alone (`Parser.program_append`).
-/
import Scriptlet.Proofs.Source.Cut
import Scriptlet.Proofs.Token.Pieces

namespace Scriptlet

namespace Lexer

variable {s t : Lexer} {text : List Char}

/-- A text that is not refused is walked over in the same way when a line end and more
text follow. -/
theorem run_joined (h : Pieces text) (s : Lexer) (tail : List Char) :
    ∃ t, (s.facing text).run .flat = .ok t
      ∧ (s.facing (text ++ '\n' :: tail)).run .flat
        = ((t.endLine.moveOver ['\n'] []).facing tail).run .flat := by
  induction h generalizing s with
  | nil =>
    refine ⟨s.facing [], run_of_rest_eq_nil rfl, ?_⟩
    rw [List.nil_append, run_newline, endLine_facing]
    rfl
  | @cons piece behind hfirst _ ih =>
    rw [List.append_assoc]
    cases hfirst with
    | newline =>
      rw [List.singleton_append, List.singleton_append, run_newline, run_newline]
      exact ih _
    | blank hc =>
      rw [List.singleton_append, List.singleton_append, run_blank s hc, run_blank s hc]
      exact ih _
    | comment hcomment hends =>
      have hends' : AtLineEnd (behind ++ '\n' :: tail) := by
        cases behind with
        | nil =>
          rintro c ⟨⟩
          rfl
        | cons d rest => exact hends
      rw [run_comment s hcomment hends, run_comment s hcomment hends']
      exact ih _
    | lexeme hspells hstops =>
      rw [run_spelled s hspells hstops,
        run_spelled s hspells (Lexeme.stops_newline hspells hstops tail)]
      exact ih _

end Lexer

namespace Interpreter

/-- What is known of a source that makes a program. -/
theorem eq_ok_of_parse {layout : Layout} {source : String} {program : Program}
    (h : parse layout source = .ok program) :
    ∃ t, (Lexer.ahead source.toList).run .flat = .ok t
      ∧ Parser.program t.pos t.marks = .ok program := by
  rw [parse_eq] at h
  cases hrun : (Lexer.ahead source.toList).run .flat with
  | error e =>
    rw [hrun] at h
    cases h
  | ok t =>
    rw [hrun] at h
    refine ⟨t, rfl, ?_⟩
    cases hprogram : Parser.program t.pos t.marks with
    | error e => simp [hprogram] at h
    | ok program' => simpa [hprogram] using h

/-- Two sources that both make a program make one together, if a line end stands between
them: that of the first, and then that of the second, with all lines counted on. -/
theorem parse_joined {layout : Layout} {first second : String} {before behind : Program}
    (hfirst : parse layout first = .ok before) (hsecond : parse layout second = .ok behind) :
    parse layout (first ++ "\n" ++ second)
      = .ok (before ++ Program.moved (Position.down (1 + first.toList.count '\n')) behind) := by
  obtain ⟨t, ht, hbefore⟩ := eq_ok_of_parse hfirst
  obtain ⟨u, hu, hbehind⟩ := eq_ok_of_parse hsecond
  have htext : (first ++ "\n" ++ second).toList = first.toList ++ '\n' :: second.toList := by
    simp
  -- the walk comes to the start of the line behind the first source
  obtain ⟨t', ht', hrun⟩ :=
    Lexer.run_joined (Lexer.pieces_of_run (s := .ahead []) ht) (.ahead []) second.toList
  obtain rfl : t = t' := Except.ok.inj (ht.symm.trans ht')
  have hstart : (t.endLine.moveOver ['\n'] []).LineStart := Lexer.endLine_lineStart
  have hlevels : (t.endLine.moveOver ['\n'] []).levels = [] :=
    (Lexer.endLine_plain (Lexer.run_plain ht)).1
  have hpos : (t.endLine.moveOver ['\n'] []).pos
      = Position.down (1 + first.toList.count '\n') .start := by
    have hends : EndsLine (first.toList ++ ['\n']) := by simp [EndsLine]
    have hcount : (first.toList ++ ['\n']).count '\n' = 1 + first.toList.count '\n' := by
      simp [Nat.add_comm]
    rw [← hcount, ← Position.start_after (.inr hends), Position.after_append, Lexer.moveOver,
      Lexer.endLine_pos, Lexer.run_pos ht]
    rfl
  have hmarks : (t.endLine.moveOver ['\n'] []).marks = t.marks := hstart.marks_eq
  have hloose : Parser.Loose t.marks := hmarks ▸ hstart.loose
  have hprogram : Parser.program (Position.down (1 + first.toList.count '\n') u.pos)
      (t.marks ++ u.marks.map (Token.moved (Position.down (1 + first.toList.count '\n'))))
        = .ok (before ++ Program.moved (Position.down (1 + first.toList.count '\n')) behind) := by
    rcases Parser.program_append t.pos _ hloose
        (fun _ => Lexer.marks_ne_eof (Lexer.run_plain ht)) _ with
      ⟨e, he, -⟩ | ⟨e, he, -⟩ | ⟨before', hbefore', hwhole⟩
    · rw [hbefore] at he
      cases he
    · rw [hbefore] at he
      cases he
    · obtain rfl : before = before' := Except.ok.inj (hbefore.symm.trans hbefore')
      rw [hwhole, Parser.program_moved, hbehind]
      rfl
  have hwalk : (Lexer.ahead (first.toList ++ '\n' :: second.toList)).run .flat
      = .ok (u.behind (Position.down (1 + first.toList.count '\n'))
        (t.endLine.moveOver ['\n'] []).tokens) := by
    have hfacing := hstart.run_facing hlevels hpos second.toList
    rw [hu] at hfacing
    exact hrun.trans hfacing
  rw [parse_eq, htext, hwalk]
  dsimp only
  rw [Lexer.marks_behind hstart, hmarks]
  simp only [Lexer.behind, hprogram]

/-- The comment at the end of the first source stays a comment, and the parenthesis at the
front of the second does not make a call. -/
theorem parse_joined_comment :
    ∃ before behind, parse {} "x = f # all" = .ok before ∧ parse {} "  (y)\n[x]" = .ok behind
      ∧ parse {} "x = f # all\n  (y)\n[x]"
        = .ok (before ++ Program.moved (Position.down 1) behind)
      ∧ (before ++ Program.moved (Position.down 1) behind).map Stmt.pos
        = [⟨1, 1⟩, ⟨2, 4⟩, ⟨3, 1⟩] := by
  have hpos : (parse {} "x = f # all").toOption.map (List.map Stmt.pos) = some [⟨1, 1⟩]
      ∧ (parse {} "  (y)\n[x]").toOption.map (List.map Stmt.pos) = some [⟨1, 4⟩, ⟨2, 1⟩] := by
    decide +kernel
  have htext : "x = f # all" ++ "\n" ++ "  (y)\n[x]" = "x = f # all\n  (y)\n[x]" := by decide
  have hcount : "x = f # all".toList.count '\n' = 0 := by decide
  cases hfirst : parse {} "x = f # all" with
  | error e =>
    rw [hfirst] at hpos
    cases hpos.1
  | ok before =>
    cases hsecond : parse {} "  (y)\n[x]" with
    | error e =>
      rw [hsecond] at hpos
      cases hpos.2
    | ok behind =>
      rw [hfirst, hsecond] at hpos
      have hjoined := parse_joined hfirst hsecond
      rw [htext, hcount] at hjoined
      refine ⟨before, behind, rfl, rfl, hjoined, ?_⟩
      have hmoved : (Program.moved (Position.down 1) behind).map Stmt.pos
          = (behind.map Stmt.pos).map (Position.down 1) := by
        simp [Function.comp_def]
      rw [List.map_append, hmoved, Option.some.inj hpos.1, Option.some.inj hpos.2]
      rfl

end Interpreter

end Scriptlet
