/-
How tokens divide a source. A source that can be cut into tokens is a row of lexemes with
gaps between them, and nothing else (`Divides`): no character is lost or counted twice.
What its tokens are, up to the marks of indentation, can be read off the division alone
(`Part.tokens`). Each lexeme makes the token that it spells, at the place of its first
character, and a gap between two lexemes makes one line end or none.

# From the walk to a division

A walk that is not refused passes one piece after another (`Lexer.pieces_of_run`). Blanks,
line ends and comments are added to the gap that follows them (`Divides.widen`), and a
lexeme begins a part of its own (`divides_of_pieces`). The tokens have no part in this.

# From a division to the tokens

The walk over a gap at the start of a line makes nothing, and behind a lexeme it makes a
line end at the first line feed (`Lexer.run_gap_lineStart`, `Lexer.run_gap`). So the walk
over a divided text is known token by token (`Lexer.run_divides`), and since this holds of
every division, it holds of the one that the walk itself gives.
-/
import Scriptlet.Proofs.Source.Layout
import Scriptlet.Proofs.Source.Places
import Scriptlet.Proofs.Token.Pieces

namespace Scriptlet

open Lexer (AtLineEnd IsBlank IsComment)

-- ======================================================= divisions

/-- What may stand before `behind` without making a lexeme: blanks, line ends, and comments,
which go on to the end of their line. -/
inductive Spacing (behind : List Char) : List Char → Prop where
  | nil : Spacing behind []
  | newline {gap : List Char} (rest : Spacing behind gap) : Spacing behind ('\n' :: gap)
  | blank {c : Char} {gap : List Char} (isBlank : IsBlank c) (rest : Spacing behind gap) :
      Spacing behind (c :: gap)
  | comment {text gap : List Char} (isComment : IsComment text) (ends : AtLineEnd (gap ++ behind))
      (rest : Spacing behind gap) : Spacing behind (text ++ gap)

/-- A lexeme of a source, with the characters that it stands on and the gap before it. -/
structure Part where
  gap : List Char
  span : List Char
  kind : Token.Kind
  contents : List Char

/-- A text is the given parts in order and one more gap behind them. Each lexeme is spelled
as one of its kind, and is as long as it can be. -/
inductive Divides : List Part → List Char → List Char → Prop where
  | last {gap : List Char} (isSpacing : Spacing [] gap) : Divides [] gap gap
  | part {p : Part} {parts : List Part} {last behind : List Char}
      (isSpacing : Spacing (p.span ++ behind) p.gap)
      (spells : Lexeme.Spells p.kind p.span p.contents)
      (stops : Lexeme.Stops p.kind p.span behind) (rest : Divides parts last behind) :
      Divides (p :: parts) last (p.gap ++ (p.span ++ behind))

namespace Part

variable (source : List Char)

/-- The line end that a gap between two lexemes makes, at its first line feed; `offset` is
where the gap begins. -/
def lineEnd (offset : Nat) (gap : List Char) : List Token :=
  if '\n' ∈ gap then [⟨.newline, "\n", .ofOffset source (offset + gap.idxOf '\n')⟩] else []

/-- The token that a part makes, at the first character of its lexeme; `offset` is where its
gap begins. -/
def token (offset : Nat) (p : Part) : Token :=
  ⟨p.kind, String.ofList p.contents, .ofOffset source (offset + p.gap.length)⟩

/-- The tokens behind a lexeme that ends at `offset`. Behind the last one the line is ended
in any case, at the end of the source if there is no line feed. -/
def tokensBehind (last : List Char) : Nat → List Part → List Token
  | offset, [] => [⟨.newline, "\n", .ofOffset source (offset + last.idxOf '\n')⟩]
  | offset, p :: parts =>
      lineEnd source offset p.gap
        ++ p.token source offset :: tokensBehind last (offset + p.gap.length + p.span.length) parts

/-- The tokens of a source that is divided into the given parts. No line is ended before
the first lexeme. -/
def tokens (last : List Char) : List Part → List Token
  | [] => []
  | p :: parts =>
      p.token source 0 :: tokensBehind source last (p.gap.length + p.span.length) parts

end Part

/-- More can be put before a division, if it goes with the gap that comes first. -/
theorem Divides.widen {parts : List Part} {last front text : List Char}
    (h : Divides parts last text)
    (hfront : ∀ gap behind, text = gap ++ behind → Spacing behind gap →
      Spacing behind (front ++ gap)) :
    ∃ parts last, Divides parts last (front ++ text) := by
  cases h with
  | last hgap => exact ⟨[], _, .last (hfront _ [] (List.append_nil _).symm hgap)⟩
  | @part p parts last behind hgap hspells hstops hrest =>
    refine ⟨{ p with gap := front ++ p.gap } :: parts, last, ?_⟩
    rw [← List.append_assoc]
    exact .part (p := { p with gap := front ++ p.gap }) (hfront _ _ rfl hgap) hspells hstops hrest

/-- Pieces fall into parts. -/
theorem divides_of_pieces {text : List Char} (h : Lexer.Pieces text) :
    ∃ parts last, Divides parts last text := by
  induction h with
  | nil => exact ⟨[], [], .last .nil⟩
  | @cons piece behind hfirst _ ih =>
    obtain ⟨parts, last, hdivides⟩ := ih
    cases hfirst with
    | newline => exact hdivides.widen fun _ _ _ hgap => .newline hgap
    | blank hc => exact hdivides.widen fun _ _ _ hgap => .blank hc hgap
    | comment hcomment hends =>
      exact hdivides.widen fun _ _ htext hgap => .comment hcomment (htext ▸ hends) hgap
    | @lexeme kind _ contents _ hspells hstops =>
      exact ⟨⟨[], piece, kind, contents⟩ :: parts, last, .part .nil hspells hstops hdivides⟩

-- ============================================================ gaps

namespace Lexer

variable {s : Lexer} {behind gap : List Char}

private theorem moveOver_moveOver (s : Lexer) (first second : List Char) :
    (s.moveOver first []).moveOver second [] = s.moveOver (first ++ second) [] := by
  simp [moveOver, Position.after_append]

/-- At the start of a line, a gap leaves no trace. -/
theorem run_gap_lineStart (hs : s.LineStart) (h : Spacing behind gap) :
    (s.facing (gap ++ behind)).run .flat = ((s.moveOver gap []).facing behind).run .flat := by
  induction h generalizing s with
  | nil => rfl
  | @newline gap _ ih =>
    have hs' : (s.moveOver ['\n'] []).LineStart := hs
    rw [List.cons_append, run_newline, hs.endLine_eq, ih hs', moveOver_moveOver]
    rfl
  | @blank c gap hc _ ih =>
    have hs' : (s.moveOver [c] []).LineStart := hs
    rw [List.cons_append, run_blank s hc, ih hs', moveOver_moveOver]
    rfl
  | @comment text gap hcomment hends _ ih =>
    have hs' : (s.moveOver text []).LineStart := hs
    rw [List.append_assoc, run_comment s hcomment hends, ih hs', moveOver_moveOver]

/-- Within a line, its end is recorded. -/
theorem endLine_of_not_lineStart (hs : ¬ s.LineStart) :
    s.endLine = s.push .newline "\n" s.pos := by
  unfold endLine
  split
  · exact absurd (.inl ‹_›) hs
  · rename_i last before htokens
    refine if_neg fun hlast => hs (.inr ⟨last, ?_, hlast⟩)
    rw [htokens]
    rfl

/-- The line end that the walk makes of a gap behind a lexeme. -/
def lineEnd (pos : Position) (gap : List Char) : List Token :=
  if '\n' ∈ gap then [⟨.newline, "\n", pos.after (gap.take (gap.idxOf '\n'))⟩] else []

/-- The state behind a gap that follows a lexeme. -/
def behindGap (s : Lexer) (gap : List Char) : Lexer :=
  { s with rest := [], pos := s.pos.after gap, tokens := lineEnd s.pos gap ++ s.tokens }

private theorem behindGap_append {front : List Char} (hfront : '\n' ∉ front) (s : Lexer)
    (gap : List Char) : (s.moveOver front []).behindGap gap = s.behindGap (front ++ gap) := by
  have hlineEnd : lineEnd (s.pos.after front) gap = lineEnd s.pos (front ++ gap) := by
    unfold lineEnd
    rw [List.idxOf_append_of_notMem hfront, List.take_length_add_append, Position.after_append]
    simp [hfront]
  simp only [behindGap, moveOver, hlineEnd, Position.after_append]

/-- Behind a lexeme, a gap ends the line where its first line feed is. -/
theorem run_gap (hs : ¬ s.LineStart) (h : Spacing behind gap) :
    (s.facing (gap ++ behind)).run .flat = ((s.behindGap gap).facing behind).run .flat := by
  induction h generalizing s with
  | nil => rfl
  | @newline gap hgap _ =>
    have hs' : (s.endLine.moveOver ['\n'] []).LineStart := endLine_lineStart
    rw [List.cons_append, run_newline, run_gap_lineStart hs' hgap, moveOver_moveOver,
      endLine_of_not_lineStart hs]
    rfl
  | @blank c gap hc _ ih =>
    have hnewline : '\n' ∉ [c] := by
      rcases hc with rfl | rfl | rfl <;> decide
    have hs' : ¬ (s.moveOver [c] []).LineStart := hs
    rw [List.cons_append, run_blank s hc, ih hs', behindGap_append hnewline]
    rfl
  | @comment text gap hcomment hends _ ih =>
    have hs' : ¬ (s.moveOver text []).LineStart := hs
    rw [List.append_assoc, run_comment s hcomment hends, ih hs', behindGap_append hcomment.line]

-- ========================================================== tokens

/-- What spells a kind is text of the source, and marks have none. -/
theorem isLexeme_of_spells {kind : Token.Kind} {span contents : List Char}
    (h : Lexeme.Spells kind span contents) : isLexeme kind = true := by
  cases h <;> rfl

/-- Behind a lexeme no line starts. -/
theorem push_not_lineStart {kind : Token.Kind} (hkind : isLexeme kind = true) (lexeme : String)
    (pos : Position) : ¬ (s.push kind lexeme pos).LineStart := by
  rintro (hnil | ⟨last, hlast, hnewline⟩)
  · cases hnil
  · cases hlast
    rw [show kind = .newline from hnewline] at hkind
    cases hkind

/-- Where the walk is behind the first characters of a gap. -/
theorem after_take (front rest : List Char) {n : Nat} (hn : n ≤ gap.length) :
    (Position.start.after front).after (gap.take n)
      = .ofOffset (front ++ (gap ++ rest)) (front.length + n) := by
  have hsplit : front ++ (gap ++ rest) = front ++ gap.take n ++ (gap.drop n ++ rest) := by
    rw [List.append_assoc, ← List.append_assoc (gap.take n), List.take_append_drop]
  rw [← Position.after_append, hsplit, Position.start_after_front _ (gap.drop n ++ rest),
    List.length_append, List.length_take_of_le hn]

private theorem lineEnd_start (front gap rest : List Char) :
    lineEnd (.after .start front) gap
      = Part.lineEnd (front ++ (gap ++ rest)) front.length gap := by
  unfold lineEnd Part.lineEnd
  split
  · rw [after_take front rest List.idxOf_le_length]
  · rfl

private theorem lineEnd_reverse (pos : Position) (gap : List Char) :
    (lineEnd pos gap).reverse = lineEnd pos gap := by
  unfold lineEnd
  split <;> rfl

/-- Behind the last lexeme the line is ended in any case. -/
theorem behindGap_marks (hs : ¬ s.LineStart) (gap : List Char) :
    (s.behindGap gap).marks
      = s.tokens.reverse ++ [⟨.newline, "\n", s.pos.after (gap.take (gap.idxOf '\n'))⟩] := by
  by_cases hgap : '\n' ∈ gap
  · have hstart : (s.behindGap gap).LineStart := by
      rw [behindGap, lineEnd, if_pos hgap]
      exact .inr ⟨_, rfl, rfl⟩
    rw [marks, hstart.endLine_eq, behindGap, lineEnd, if_pos hgap]
    exact List.reverse_cons
  · have hnone : lineEnd s.pos gap = [] := if_neg hgap
    have hopen : ¬ (s.behindGap gap).LineStart := by
      rw [behindGap, hnone]
      exact hs
    rw [marks, endLine_of_not_lineStart hopen, behindGap, hnone, List.idxOf_eq_length hgap,
      List.take_length]
    exact List.reverse_cons

/-- The walk over a divided text behind a lexeme. -/
theorem run_divides {parts : List Part} {last text : List Char} (h : Divides parts last text)
    {front : List Char} (hpos : s.pos = Position.start.after front) (hs : ¬ s.LineStart) :
    ∃ t, (s.facing text).run .flat = .ok t
      ∧ t.marks = s.tokens.reverse
        ++ Part.tokensBehind (front ++ text) last front.length parts := by
  induction h generalizing s front with
  | @last gap hgap =>
    have hrun := run_gap hs hgap
    have hplace := after_take front [] (List.idxOf_le_length (a := '\n') (l := gap))
    rw [List.append_nil] at hrun hplace
    refine ⟨_, hrun.trans (run_of_rest_eq_nil rfl), ?_⟩
    show (s.behindGap gap).marks = _
    rw [behindGap_marks hs, hpos, hplace]
    rfl
  | @part p parts last behind hgap hspells hstops _ ih =>
    have hplace := after_take front (p.span ++ behind) (le_refl p.gap.length)
    have hrun := run_gap hs hgap
    rw [run_spelled _ hspells hstops] at hrun
    have hpos' : (s.behindGap p.gap).pos.after p.span
        = Position.start.after (front ++ p.gap ++ p.span) := by
      rw [Position.after_append, Position.after_append, ← hpos]
      rfl
    -- behind a lexeme the line is open, as the induction asks
    have hopen : ¬ (((s.behindGap p.gap).push p.kind (String.ofList p.contents)
        (s.pos.after p.gap)).moveOver p.span []).LineStart :=
      push_not_lineStart (isLexeme_of_spells hspells) _ _
    obtain ⟨t, ht, hmarks⟩ := ih hpos' hopen
    refine ⟨t, hrun.trans ht, ?_⟩
    have htokens : (((s.behindGap p.gap).push p.kind (String.ofList p.contents)
        (s.pos.after p.gap)).moveOver p.span []).tokens.reverse
        = s.tokens.reverse ++ (Part.lineEnd (front ++ (p.gap ++ (p.span ++ behind))) front.length
          p.gap ++ [p.token (front ++ (p.gap ++ (p.span ++ behind))) front.length]) := by
      rw [List.take_length] at hplace
      simp only [moveOver, push, behindGap, List.reverse_cons, List.reverse_append, lineEnd_reverse,
        List.append_assoc, Part.token]
      rw [hpos, lineEnd_start, hplace]
    rw [hmarks, htokens]
    simp [Part.tokensBehind, Nat.add_assoc]

/-- The walk over a divided source. -/
theorem run_ahead_divides {parts : List Part} {last text : List Char}
    (h : Divides parts last text) :
    ∃ t, (ahead text).run .flat = .ok t ∧ t.marks = Part.tokens text last parts := by
  have hstart : (ahead []).LineStart := .inl rfl
  cases h with
  | last hgap =>
    have hrun := run_gap_lineStart hstart hgap
    rw [List.append_nil] at hrun
    exact ⟨_, hrun.trans (run_of_rest_eq_nil rfl), rfl⟩
  | @part p parts last behind hgap hspells hstops hrest =>
    have hplace : Position.start.after p.gap
        = .ofOffset (p.gap ++ (p.span ++ behind)) (0 + p.gap.length) := by
      rw [Nat.zero_add]
      exact Position.start_after_front p.gap (p.span ++ behind)
    have hrun := run_gap_lineStart hstart hgap
    rw [run_spelled _ hspells hstops] at hrun
    have hpos : (Position.start.after p.gap).after p.span
        = Position.start.after (p.gap ++ p.span) :=
      (Position.after_append _ _ _).symm
    have hopen : ¬ ((((ahead []).moveOver p.gap []).push p.kind (String.ofList p.contents)
        (Position.start.after p.gap)).moveOver p.span []).LineStart :=
      push_not_lineStart (isLexeme_of_spells hspells) _ _
    obtain ⟨t, ht, hmarks⟩ := run_divides hrest hpos hopen
    refine ⟨t, hrun.trans ht, ?_⟩
    rw [hmarks, List.append_assoc, List.length_append, Part.tokens, Part.token, ← hplace]
    rfl

end Lexer

-- ========================================================= sources

/-- The tokens of a source, whatever the layout, up to the marks of indentation. -/
theorem tokenize_marks (layout : Layout) (source : String) :
    (tokenize layout source).map unindented
      = ((Lexer.ahead source.toList).run .flat).map fun s => s.marks ++ [Lexer.endMark s.pos] := by
  have hflat := tokenize_flat layout source
  have hstart : (Lexer.start .flat source.toList).run .flat
      = (Lexer.ahead source.toList).run .flat := Lexer.run_beginLine
  unfold unindented
  rw [← hflat, tokenize, hstart]
  cases hrun : (Lexer.ahead source.toList).run .flat with
  | error e => rfl
  | ok s => exact congrArg Except.ok (Lexer.finish_eq (Lexer.run_plain hrun))

/-- A source that is divided into lexemes and gaps is not refused by any layout, and its
tokens, up to the marks of indentation, are those of the division and the end of input. -/
theorem tokenize_of_divides (layout : Layout) {source : String} {parts : List Part}
    {last : List Char} (h : Divides parts last source.toList) :
    (tokenize layout source).map unindented
      = .ok (Part.tokens source.toList last parts
        ++ [⟨.eof, "", .ofOffset source.toList source.toList.length⟩]) := by
  obtain ⟨t, ht, hmarks⟩ := Lexer.run_ahead_divides h
  have hpos : t.pos = .ofOffset source.toList source.toList.length := by
    have hend := Position.start_after_front source.toList []
    rw [List.append_nil] at hend
    exact (Lexer.run_pos ht).trans hend
  rw [tokenize_marks, ht, ← hpos, ← hmarks]
  rfl

/-- Every source that can be cut into tokens is divided into lexemes and gaps, with nothing
lost and nothing counted twice. Its tokens, up to the marks of indentation, are those of
the division: one for each lexeme, at its first character; a line end, at the first line
feed, for each gap between two lexemes that has a line feed; a line end behind the last
lexeme; and the end of input. -/
theorem tokenize_divides {layout : Layout} {source : String} {tokens : List Token}
    (h : tokenize layout source = .ok tokens) :
    ∃ parts last, Divides parts last source.toList
      ∧ unindented tokens = Part.tokens source.toList last parts
        ++ [⟨.eof, "", .ofOffset source.toList source.toList.length⟩] := by
  have hmarks := tokenize_marks layout source
  rw [h] at hmarks
  cases hrun : (Lexer.ahead source.toList).run .flat with
  | error e =>
    rw [hrun] at hmarks
    cases hmarks
  | ok t =>
    obtain ⟨parts, last, hdivides⟩ := divides_of_pieces (Lexer.pieces_of_run (s := .ahead []) hrun)
    have htokens := tokenize_of_divides layout hdivides
    rw [h] at htokens
    exact ⟨parts, last, hdivides, Except.ok.inj htokens⟩

/-- A source with escapes, a comment, a blank line and a symbol of two characters. -/
def noted : String := "x = 'it\\'s\\n\\0\\q' # a note\n\n  y /= 2"

/-- The blank line and the comment of the source come to one line end, and the escapes to a
quote, a line feed, a null and a letter that has no escape of its own. -/
theorem tokenize_divides_noted :
    ∃ tokens, tokenize {} noted = .ok tokens
      ∧ tokens.map (·.lexeme) = ["x", "=", "it's\n\x00q", "\n", "", "y", "/=", "2", "\n", "", ""]
      ∧ ∃ parts last, Divides parts last noted.toList
        ∧ unindented tokens = Part.tokens noted.toList last parts
          ++ [⟨.eof, "", .ofOffset noted.toList noted.toList.length⟩] := by
  have hlexemes : (tokenize {} noted).toOption.map (fun tokens => tokens.map (·.lexeme))
      = some ["x", "=", "it's\n\x00q", "\n", "", "y", "/=", "2", "\n", "", ""] := by
    decide +kernel
  cases htokens : tokenize {} noted with
  | error e =>
    rw [htokens] at hlexemes
    cases hlexemes
  | ok tokens =>
    rw [htokens] at hlexemes
    exact ⟨tokens, rfl, Option.some.inj hlexemes, tokenize_divides htokens⟩

end Scriptlet
