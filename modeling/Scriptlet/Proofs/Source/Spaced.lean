/-
Cutting a text into tokens undoes writing tokens as text. Lexemes with blanks between
them and line ends are written down one after another (`Item.Written`), each lexeme in any
of its spellings (`Lexeme.Spells`): a string in either quotes and with any escapes that
mean its contents. What is read from the text is what was written, under every layout.

A blank or a line end behind a lexeme is enough for it to stop
(`Lexeme.stops_of_separated`), so the walk passes the items one by one
(`Lexer.run_item`), and no neighbour has a part in what becomes of an item. The induction
carries one thing along: a line end is the next item only where no line starts
(`Lexer.run_written`).
-/
import Scriptlet.Proofs.Source.Division
import Scriptlet.Proofs.Source.Reformatted

namespace Scriptlet

-- =========================================================== items

/-- What is written down: lexemes, by their kinds and contents, and line ends. -/
inductive Item where
  | lexeme (kind : Token.Kind) (contents : List Char)
  | lineEnd
  deriving DecidableEq

namespace Item

/-- The kind and the lexeme of the token that an item is to become. -/
def spelling : Item → Token.Kind × String
  | lexeme kind contents => (kind, String.ofList contents)
  | lineEnd => (.newline, "\n")

/-- How an item is written by itself. -/
inductive Spelled : Item → List Char → Prop where
  | lexeme {kind : Token.Kind} {span contents : List Char}
      (spells : Lexeme.Spells kind span contents) : Spelled (.lexeme kind contents) span
  | lineEnd : Spelled .lineEnd ['\n']

/-- What is written between two neighbours: a blank, which may be left out beside a line
end. -/
def Between : Item → Item → List Char → Prop
  | lexeme _ _, lexeme _ _, gap => gap = [' ']
  | _, _, gap => gap = [] ∨ gap = [' ']

/-- How items are written in a row. -/
inductive Written : List Item → List Char → Prop where
  | nil : Written [] []
  | last {item : Item} {span : List Char} (spelled : item.Spelled span) : Written [item] span
  | next {item next : Item} {items : List Item} {span gap text : List Char}
      (spelled : item.Spelled span) (between : item.Between next gap)
      (rest : Written (next :: items) text) :
      Written (item :: next :: items) (span ++ (gap ++ text))

/-- No line end comes first, and none behind another. -/
structure Parted (items : List Item) : Prop where
  first : items.head? ≠ some lineEnd
  apart : items.IsChain fun item next => ¬ (item = lineEnd ∧ next = lineEnd)

/-- The line end that is added at the end, unless there is one or nothing was written. -/
def closing (items : List Item) : List (Token.Kind × String) :=
  if items = [] ∨ items.getLast? = some lineEnd then [] else [(.newline, "\n")]

private theorem closing_cons_cons (item next : Item) (items : List Item) :
    closing (item :: next :: items) = closing (next :: items) := by
  simp only [closing, List.getLast?_cons_cons, List.cons_ne_nil]

/-- Between two items there is a blank, or nothing at a line end. -/
theorem Between.blank {item next : Item} {gap : List Char} (h : item.Between next gap) :
    gap = [' '] ∨ gap = [] ∧ (item = lineEnd ∨ next = lineEnd) := by
  cases item with
  | lexeme kind contents =>
    cases next with
    | lexeme kind' contents' => exact .inl h
    | lineEnd => exact h.symm.imp id fun hgap => ⟨hgap, .inr rfl⟩
  | lineEnd => exact h.symm.imp id fun hgap => ⟨hgap, .inl rfl⟩

private theorem Written.head_lineEnd {items : List Item} {text : List Char}
    (h : Written (lineEnd :: items) text) : text.head? = some '\n' := by
  cases h with
  | last hspelled | next hspelled =>
    cases hspelled
    rfl

/-- Behind a lexeme there is nothing, a blank or a line end. -/
theorem Written.separated {item next : Item} {items : List Item} {gap text : List Char}
    (hbetween : item.Between next gap) (h : Written (next :: items) text) :
    item = lineEnd ∨ ∀ c ∈ (gap ++ text).head?, c = ' ' ∨ c = '\n' := by
  rcases hbetween.blank with rfl | ⟨rfl, rfl | rfl⟩
  · refine .inr ?_
    rintro c ⟨⟩
    exact .inl rfl
  · exact .inl rfl
  · refine .inr fun c hc => ?_
    rw [List.nil_append, h.head_lineEnd] at hc
    cases hc
    exact .inr rfl

end Item

-- ======================================================== the walk

namespace Lexer

variable {s : Lexer} {item : Item} {items : List Item} {span text : List Char}

/-- Every item becomes its token, if the line is not ended twice. -/
theorem run_item (h : item.Spelled span) (hs : s.LineStart → item ≠ .lineEnd)
    {behind : List Char}
    (hbehind : item = .lineEnd ∨ ∀ c ∈ behind.head?, c = ' ' ∨ c = '\n') :
    ∃ (u : Lexer) (token : Token),
      (s.facing (span ++ behind)).run .flat = (u.facing behind).run .flat
      ∧ u.tokens = token :: s.tokens ∧ token.spelling = item.spelling
      ∧ (u.LineStart ↔ item = .lineEnd) := by
  cases h with
  | @lexeme kind _ contents hspells =>
    have hstops : Lexeme.Stops kind span behind :=
      Lexeme.stops_of_separated hspells (hbehind.resolve_left nofun)
    have hopen := push_not_lineStart (s := s) (isLexeme_of_spells hspells) (String.ofList contents)
      s.pos
    exact ⟨_, _, run_spelled s hspells hstops, rfl, rfl, iff_of_false hopen nofun⟩
  | lineEnd =>
    have hopen : ¬ s.LineStart := fun hstart => hs hstart rfl
    refine ⟨_, ⟨.newline, "\n", s.pos⟩, run_newline s behind, ?_, rfl, iff_of_true ?_ rfl⟩
    · rw [endLine_of_not_lineStart hopen]
      rfl
    · exact endLine_lineStart

/-- Items become their tokens, and the last line is ended. -/
theorem run_written (h : Item.Written items text) (hne : items ≠ [])
    (happart : items.IsChain fun item next => ¬ (item = .lineEnd ∧ next = .lineEnd))
    (hs : s.LineStart → items.head? ≠ some .lineEnd) :
    ∃ t, (s.facing text).run .flat = .ok t
      ∧ t.marks.map Token.spelling
        = s.tokens.reverse.map Token.spelling
          ++ (items.map Item.spelling ++ Item.closing items) := by
  induction h generalizing s with
  | nil => exact absurd rfl hne
  | @last item span hspelled =>
    have hbehind : item = .lineEnd ∨ ∀ c ∈ ([] : List Char).head?, c = ' ' ∨ c = '\n' := .inr nofun
    obtain ⟨u, token, hrun, htokens, hspelling, hstart⟩ :=
      run_item hspelled (fun h hitem => hs h (congrArg some hitem)) hbehind
    rw [List.append_nil] at hrun
    refine ⟨_, hrun.trans (run_of_rest_eq_nil rfl), ?_⟩
    -- a text that does not end with a line end is given one at its close
    by_cases hitem : item = .lineEnd
    · have hstart' : (u.facing []).LineStart := hstart.2 hitem
      rw [marks, hstart'.endLine_eq]
      simp [facing, htokens, hspelling, Item.closing, hitem]
    · have hopen : ¬ (u.facing []).LineStart := mt hstart.1 hitem
      have hlineEnd (pos : Position) : Token.spelling ⟨.newline, "\n", pos⟩ = (.newline, "\n") :=
        rfl
      rw [marks, endLine_of_not_lineStart hopen]
      simp [facing, push, htokens, hspelling, Item.closing, hitem, hlineEnd]
  | @next item next items span gap text hspelled hbetween hrest ih =>
    obtain ⟨hfirst, happart⟩ := List.isChain_cons_cons.1 happart
    obtain ⟨u, token, hrun, htokens, hspelling, hstart⟩ :=
      run_item hspelled (fun h hitem => hs h (congrArg some hitem)) (hrest.separated hbetween)
    have hgap : (u.facing (gap ++ text)).run .flat
        = ((u.moveOver gap []).facing text).run .flat := by
      rcases hbetween.blank with rfl | ⟨rfl, -⟩
      · exact run_blank u (.inl rfl) text
      · rfl
    -- behind a line end no second one follows, which is what the induction asks
    have hs' : (u.moveOver gap []).LineStart → (next :: items).head? ≠ some .lineEnd := by
      intro h hnext
      exact hfirst ⟨hstart.1 h, Option.some.inj hnext⟩
    obtain ⟨t, ht, hmarks⟩ := ih (List.cons_ne_nil _ _) happart hs'
    refine ⟨t, hrun.trans (hgap.trans ht), ?_⟩
    have hpassed : (u.moveOver gap []).tokens = token :: s.tokens := htokens
    rw [hmarks, hpassed, List.reverse_cons, List.map_append, List.append_assoc, List.map_singleton,
      hspelling, Item.closing_cons_cons]
    rfl

end Lexer

-- ========================================================= sources

/-- Cutting a text into tokens undoes writing tokens as text. Lexemes and line ends that are
written in a row, with a blank between neighbours, are not refused by any layout, and the
tokens, up to the marks of indentation, have the same kinds and lexemes in the same order;
behind them, the last line is ended and the input is. -/
theorem tokenize_written (layout : Layout) {items : List Item} {text : List Char}
    (hparted : Item.Parted items) (h : Item.Written items text) :
    ∃ tokens, tokenize layout (String.ofList text) = .ok tokens
      ∧ (unindented tokens).map Token.spelling
        = items.map Item.spelling ++ Item.closing items ++ [(.eof, "")] := by
  obtain ⟨t, ht, hmarks⟩ : ∃ t, (Lexer.ahead text).run .flat = .ok t
      ∧ t.marks.map Token.spelling = items.map Item.spelling ++ Item.closing items := by
    by_cases hne : items = []
    · subst hne
      cases h
      exact ⟨_, Lexer.run_of_rest_eq_nil rfl, rfl⟩
    · exact Lexer.run_written (s := .ahead []) h hne hparted.apart fun _ => hparted.first
  have htokens := tokenize_marks layout (String.ofList text)
  rw [String.toList_ofList, ht] at htokens
  cases hresult : tokenize layout (String.ofList text) with
  | error e =>
    rw [hresult] at htokens
    cases htokens
  | ok tokens =>
    rw [hresult] at htokens
    refine ⟨tokens, rfl, ?_⟩
    rw [Except.ok.inj htokens, List.map_append, hmarks]
    rfl

/-- A string with a comment mark, a quote, a line feed and a tab in it, and a number behind
a line end. -/
def Item.mixed : List Item :=
  [.lexeme .name ['x'], .lexeme (.symbol .assign) ['='],
    .lexeme .string ['#', '\'', '\n', '\t', 'b'], .lineEnd, .lexeme (.symbol .slash) ['/'],
    .lexeme .number ['2', '.', '5', 'e', '-', '1']]

/-- Neither the comment mark nor the line feed in the string is taken for one. The line feed
stands in the string itself, the quote, the tab and a letter that needs no escape in escapes. -/
theorem tokenize_written_mixed :
    Item.Parted Item.mixed
      ∧ Item.Written Item.mixed "x = '#\\'\n\\t\\b'\n / 2.5e-1".toList
      ∧ ∃ tokens, tokenize {} "x = '#\\'\n\\t\\b'\n / 2.5e-1" = .ok tokens
        ∧ (unindented tokens).map Token.spelling
          = [(.name, "x"), (.symbol .assign, "="), (.string, "#'\n\tb"), (.newline, "\n"),
            (.symbol .slash, "/"), (.number, "2.5e-1"), (.newline, "\n"), (.eof, "")] := by
  have hparted : Item.Parted Item.mixed := ⟨by decide, by decide⟩
  have hname : Lexeme.Spells .name ['x'] ['x'] := .name (by decide) (by decide)
  have hescapes : Lexeme.Body '\'' ['\\', 't', '\\', 'b'] ['\t', 'b'] :=
    .escape .tab (.escape (.itself (by decide)) .nil)
  have hbody : Lexeme.Body '\'' ['#', '\\', '\'', '\n', '\\', 't', '\\', 'b']
      ['#', '\'', '\n', '\t', 'b'] :=
    .plain (by decide) (by decide)
      (.escape (.itself (by decide)) (.plain (by decide) (by decide) hescapes))
  have hwhole : Lexeme.Digits ['2'] := ⟨by decide, by simp⟩
  have hplaces : Lexeme.Digits ['5'] := ⟨by decide, by simp⟩
  have hpower : Lexeme.Digits ['1'] := ⟨by decide, by simp⟩
  have hnumber : Lexeme.Numeric (['2'] ++ (['.', '5'] ++ 'e' :: (['-'] ++ ['1']))) :=
    .mk hwhole (.point hplaces) (.power (.inl rfl) (.inr (.inr rfl)) hpower)
  have hblank (k k' : Token.Kind) (c c' : List Char) :
      (Item.lexeme k c).Between (.lexeme k' c') [' '] := rfl
  have hend (k : Token.Kind) (c : List Char) : (Item.lexeme k c).Between .lineEnd [] := .inl rfl
  have hline (k : Token.Kind) (c : List Char) : Item.lineEnd.Between (.lexeme k c) [' '] :=
    .inr rfl
  have hitems := Item.Written.next (.lexeme hname) (hblank _ _ _ _)
    (.next (.lexeme (.symbol .assign)) (hblank _ _ _ _)
      (.next (.lexeme (.string (.inr rfl) hbody)) (hend _ _)
        (.next .lineEnd (hline _ _)
          (.next (.lexeme (.symbol .slash)) (hblank _ _ _ _)
            (.last (.lexeme (.number hnumber)))))))
  have hwritten : Item.Written Item.mixed "x = '#\\'\n\\t\\b'\n / 2.5e-1".toList := hitems
  obtain ⟨tokens, htokens, hspelling⟩ := tokenize_written {} hparted hwritten
  rw [String.ofList_toList] at htokens
  refine ⟨hparted, hwritten, tokens, htokens, ?_⟩
  rw [hspelling]
  decide

end Scriptlet
