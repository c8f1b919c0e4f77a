/-
The pieces that a walk passes: blanks, line ends, comments and lexemes. One lemma for
each kind says where the walk is behind such a piece (`run_blank`, `run_newline`,
`run_comment`, `run_spelled`), whatever stands there. In the other direction, a walk that
is not refused begins with a piece of one of the kinds (`run_cases`).

The lemmas have the shape `run (piece ++ behind) = run behind`, with the state moved. An
argument about a whole walk needs nothing else: it rewrites with the lemma of the first
piece and goes on behind it.
-/
import Scriptlet.Proofs.Token.Spelled

namespace Scriptlet

namespace Lexer

variable {s t : Lexer} {behind : List Char}

-- ================================================== one by one

/-- The characters that separate lexemes and end no line. -/
def IsBlank (c : Char) : Prop := c = ' ' ∨ c = '\t' ∨ c = '\r'

/-- A comment without the line end behind it. -/
structure IsComment (text : List Char) : Prop where
  begins : startsComment text = true
  line : '\n' ∉ text

/-- The end of a line, or of the source. -/
def AtLineEnd (behind : List Char) : Prop := ∀ c ∈ behind.head?, c = '\n'

/-- The walk passes over a blank and is where it was, one column further. -/
theorem run_blank (s : Lexer) {c : Char} (hc : IsBlank c) (behind : List Char) :
    (s.facing (c :: behind)).run .flat = ((s.moveOver [c] []).facing behind).run .flat := by
  have hblank : (c = ' ' || c = '\t' || c = '\r') = true := by
    rcases hc with rfl | rfl | rfl <;> rfl
  have hnewline : c ≠ '\n' := by
    rintro rfl
    cases hblank
  rw [run_eq_bind (by simp [facing])]
  simp only [step, facing, if_neg hnewline, if_pos hblank]
  rfl

/-- A comment has at least its own sign. -/
theorem IsComment.ne_nil {text : List Char} (h : IsComment text) : text ≠ [] := by
  rintro rfl
  cases h.begins

/-- What stands behind a comment does not undo it. -/
theorem IsComment.startsComment_append {text : List Char} (h : IsComment text)
    (behind : List Char) : startsComment (text ++ behind) = true := by
  have hbegins := h.begins
  unfold startsComment at hbegins
  split at hbegins
  · rfl
  · rfl
  · cases hbegins

/-- A comment is passed over up to the end of its line, which it leaves. -/
theorem run_comment (s : Lexer) {text : List Char} (h : IsComment text)
    (hbehind : AtLineEnd behind) :
    (s.facing (text ++ behind)).run .flat = ((s.moveOver text []).facing behind).run .flat := by
  have hcomment := h.startsComment_append behind
  have hall : ∀ c ∈ text, decide (c ≠ '\n') = true := by
    intro c hc
    refine decide_eq_true ?_
    rintro rfl
    exact h.line hc
  have hend : ∀ c ∈ behind.head?, decide (c ≠ '\n') = false := by
    intro c hc
    simp [hbehind c hc]
  obtain ⟨htake, hdrop⟩ := takeWhile_front hall hend
  obtain ⟨c, rest, rfl⟩ := List.exists_cons_of_ne_nil h.ne_nil
  have hbegins : Lexeme.Begins c := by
    refine ⟨fun hc => h.line (hc ▸ List.mem_cons_self ..), fun hblank => ?_⟩
    have hbegins := h.begins
    unfold startsComment at hbegins
    split at hbegins <;> simp_all
  rw [List.cons_append] at htake hdrop hcomment ⊢
  rw [run_eq_bind (by simp [facing])]
  simp only [step, facing, if_neg hbegins.newline, if_neg hbegins.blank, hcomment, if_true, htake,
    hdrop]
  rfl

/-- A lexeme is pushed as it is spelled, if what follows it does not go on with it. -/
theorem run_spelled (s : Lexer) {kind : Token.Kind} {span contents : List Char}
    (h : Lexeme.Spells kind span contents) (hstops : Lexeme.Stops kind span behind) :
    (s.facing (span ++ behind)).run .flat
      = (((s.push kind (String.ofList contents) s.pos).moveOver span []).facing behind).run
        .flat := by
  obtain ⟨c, tail, rfl, hbegins, hcomment, hscan⟩ := Lexeme.scan_of_spells h hstops
  rw [List.cons_append] at hcomment ⊢
  rw [run_eq_bind (by simp [facing])]
  simp only [step, facing, if_neg hbegins.newline, if_neg hbegins.blank, hcomment, hscan]
  rfl

-- ================================================== all of them

/-- What stands at the front of a text that is not refused, with what is behind it. -/
inductive Piece : List Char → List Char → Prop where
  | newline {behind : List Char} : Piece ['\n'] behind
  | blank {c : Char} {behind : List Char} (isBlank : IsBlank c) : Piece [c] behind
  | comment {text behind : List Char} (isComment : IsComment text) (ends : AtLineEnd behind) :
      Piece text behind
  | lexeme {kind : Token.Kind} {span contents behind : List Char}
      (spells : Lexeme.Spells kind span contents) (stops : Lexeme.Stops kind span behind) :
      Piece span behind

/-- A text that is nothing but pieces. -/
inductive Pieces : List Char → Prop where
  | nil : Pieces []
  | cons {piece behind : List Char} (first : Piece piece behind) (rest : Pieces behind) :
      Pieces (piece ++ behind)

private theorem startsComment_takeWhile {text : List Char} (h : startsComment text = true) :
    startsComment (text.takeWhile (· ≠ '\n')) = true := by
  unfold startsComment at h
  split at h
  · rfl
  · rfl
  · cases h

/-- A step that is not refused passes a piece. -/
theorem step_piece {c : Char} {rest : List Char} (h : (s.facing (c :: rest)).step .flat = .ok t) :
    ∃ piece behind, piece ≠ [] ∧ c :: rest = piece ++ behind ∧ Piece piece behind := by
  simp only [step, facing] at h
  split at h
  · rename_i hc
    rw [hc]
    exact ⟨['\n'], rest, List.cons_ne_nil _ _, rfl, .newline⟩
  split at h
  · rename_i hc
    have hblank : IsBlank c := by simpa [IsBlank, or_assoc] using hc
    exact ⟨[c], rest, List.cons_ne_nil _ _, rfl, .blank hblank⟩
  split at h
  · rename_i hcomment
    have hline : '\n' ∉ (c :: rest).takeWhile (· ≠ '\n') := not_mem_takeWhile (by decide)
    have hsplit : c :: rest
        = (c :: rest).takeWhile (· ≠ '\n') ++ (c :: rest).dropWhile (· ≠ '\n') :=
      List.takeWhile_append_dropWhile.symm
    have hends : AtLineEnd ((c :: rest).dropWhile (· ≠ '\n')) := by
      intro d hd
      simpa using head?_dropWhile (c :: rest) d hd
    have hcomment : IsComment _ := ⟨startsComment_takeWhile hcomment, hline⟩
    exact ⟨_, _, hcomment.ne_nil, hsplit, .comment hcomment hends⟩
  rename_i hcomment
  split at h
  · cases h
  · rename_i l hscan
    obtain ⟨hspells, hstops⟩ := Lexeme.spells_of_scan (eq_false_of_ne_true hcomment) hscan
    exact ⟨l.span, l.rest, Lexeme.scan_span_ne_nil hscan, Lexeme.scan_eq_append hscan,
      .lexeme hspells hstops⟩

/-- Behind a piece, the walk goes on. -/
theorem run_piece {piece behind : List Char} (h : Piece piece behind) (s : Lexer) :
    ∃ u : Lexer, (s.facing (piece ++ behind)).run .flat = (u.facing behind).run .flat := by
  cases h with
  | newline => exact ⟨_, run_newline s behind⟩
  | blank hc => exact ⟨_, run_blank s hc behind⟩
  | comment hcomment hends => exact ⟨_, run_comment s hcomment hends⟩
  | lexeme hspells hstops => exact ⟨_, run_spelled s hspells hstops⟩

/-- A text that is not refused is nothing but pieces. -/
theorem pieces_of_run {text : List Char} (h : (s.facing text).run .flat = .ok t) :
    Pieces text := by
  induction hn : text.length using Nat.strongRecOn generalizing s text with
  | ind n ih =>
    obtain - | ⟨c, rest⟩ := text
    · exact .nil
    have hne : (s.facing (c :: rest)).rest ≠ [] := List.cons_ne_nil c rest
    obtain ⟨u, hstep, -⟩ := Except.ok_of_bind ((run_eq_bind hne).symm.trans h)
    obtain ⟨piece, behind, hpiece, hsplit, hfirst⟩ := step_piece hstep
    obtain ⟨u, hu⟩ := run_piece hfirst s
    rw [hsplit] at h hn ⊢
    have hshorter : behind.length < n := by
      rw [← hn, List.length_append]
      exact Nat.lt_add_of_pos_left (List.length_pos_iff.2 hpiece)
    exact .cons hfirst (ih behind.length hshorter (hu.symm.trans h) rfl)

end Lexer

end Scriptlet
