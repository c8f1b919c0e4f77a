/-
The places of a source text. Every position that reading a source gives away is
the line and the column of some offset in it: the positions of its tokens, those
of its program, and those of the errors that refuse it.

# Tokens

A walk stands behind the part of the source that it has read, so the place it
stands at is that of an offset (`Lexer.Along`). Tokens and errors are given the
place where the walk stands.

# Trees

The grammar takes all its positions from tokens and makes none up. This needs no
look at the grammar: it maps moved tokens to moved trees (`Parser.program_moved`).
A map that leaves alone exactly the positions of some kind leaves alone all tokens
that stand there, and therefore the program, and so every position in it is one of
that kind.
-/
import Mathlib.Data.List.Induction
import Scriptlet.Proofs.Grammar.Budget
import Scriptlet.Proofs.Token.Lines
import Scriptlet.Proofs.Tree.Rule

namespace Scriptlet

-- ======================================================== offsets

namespace Position

/-- The place of an offset in a text: its line is one more than the line feeds
before it, its column one more than the characters since the last of them. -/
def ofOffset (text : List Char) (offset : Nat) : Position :=
  let before := text.take offset
  ⟨1 + before.count '\n', 1 + (before.reverse.takeWhile (· ≠ '\n')).length⟩

/-- A place of a text is the place of some offset in it. -/
def Within (pos : Position) (text : List Char) : Prop :=
  ∃ offset ≤ text.length, pos = ofOffset text offset

instance (pos : Position) (text : List Char) : Decidable (pos.Within text) :=
  inferInstanceAs (Decidable (∃ offset ≤ text.length, pos = ofOffset text offset))

/-- What is behind a text, by what it is made of. -/
theorem start_after_eq (text : List Char) :
    start.after text
      = ⟨1 + text.count '\n', 1 + (text.reverse.takeWhile (· ≠ '\n')).length⟩ := by
  induction text using List.reverseRecOn with
  | nil => rfl
  | append_singleton front c ih =>
    rw [after_append, ih, List.reverse_concat, after_cons, after_nil, step]
    by_cases hc : c = '\n'
    · simp [hc, Nat.add_assoc]
    · simp [hc, Nat.add_assoc]

/-- Behind the front part of a text is the place of its length. -/
theorem start_after_front (front rest : List Char) :
    start.after front = ofOffset (front ++ rest) front.length := by
  rw [start_after_eq, ofOffset, List.take_left]

private theorem start_after_within {front text : List Char} (h : front <+: text) :
    (start.after front).Within text := by
  obtain ⟨rest, rfl⟩ := h
  exact ⟨front.length, by simp, start_after_front front rest⟩

end Position

-- ========================================================= tokens

namespace Lexer

variable {source : List Char} {s t : Lexer}

/-- A walk along a source: it stands behind what it has read, and its tokens stand at
places of the source. -/
structure Along (source : List Char) (s : Lexer) : Prop where
  here : ∃ front, front ++ s.rest = source ∧ s.pos = Position.start.after front
  tokens : ∀ t ∈ s.tokens, t.pos.Within source

private theorem ahead_along (source : List Char) : (ahead source).Along source :=
  ⟨⟨[], rfl, rfl⟩, nofun⟩

namespace Along

private theorem pos_within (h : s.Along source) : s.pos.Within source := by
  obtain ⟨front, rfl, hpos⟩ := h.here
  rw [hpos]
  exact Position.start_after_within (List.prefix_append _ _)

/-- Where something is left to read, the walk has not come to the end. -/
theorem pos_before (h : s.Along source) (hrest : s.rest ≠ []) :
    ∃ offset < source.length, s.pos = Position.ofOffset source offset := by
  obtain ⟨front, rfl, hpos⟩ := h.here
  refine ⟨front.length, ?_, hpos.trans (Position.start_after_front _ _)⟩
  rw [List.length_append]
  exact Nat.lt_add_of_pos_right (List.length_pos_iff.2 hrest)

/-- The walk stands where the text that it has moved over ends. -/
theorem moveOver (h : s.Along source) {span rest : List Char} (hrest : s.rest = span ++ rest) :
    (s.moveOver span rest).Along source := by
  obtain ⟨front, hsource, hpos⟩ := h.here
  refine ⟨⟨front ++ span, ?_, ?_⟩, h.tokens⟩
  · rw [← hsource, hrest]
    exact List.append_assoc front span rest
  · rw [Position.after_append, ← hpos]
    rfl

/-- A token gets the place where the walk stands. -/
theorem push (h : s.Along source) (kind : Token.Kind) (lexeme : String) :
    (s.push kind lexeme s.pos).Along source :=
  ⟨h.here, List.forall_mem_cons.2 ⟨h.pos_within, h.tokens⟩⟩

/-- So does a line end. -/
theorem endLine (h : s.Along source) : s.endLine.Along source := by
  unfold Lexer.endLine
  split
  · exact h
  · split
    · exact h
    · exact h.push _ _

/-- Hence every step keeps the walk along the source. -/
theorem step (h : s.Along source) (hstep : s.step .flat = .ok t) : t.Along source := by
  rcases step_flat_cases hstep with
    ⟨_, _, hrest, rfl⟩ | ⟨_, _, hrest, rfl⟩ | ⟨_, _, l, hrest, hl, rfl⟩
  · exact h.moveOver hrest
  · exact h.endLine.moveOver ((endLine_rest s).trans hrest)
  · exact (h.push _ _).moveOver (hrest.trans (Lexeme.scan_eq_append hl))

/-- A walk is refused where it stands. -/
theorem step_error {e : LexError} (hstep : s.step .flat = .error e) : e.pos = s.pos := by
  unfold Lexer.step at hstep
  repeat' split at hstep
  all_goals cases hstep
  rfl

/-- And so does the whole walk. -/
theorem run (h : s.Along source) (hrun : s.run .flat = .ok t) : t.Along source :=
  (run_keeps (fun _ _ _ hstep hs => hs.step hstep) hrun h).1

/-- A walk is refused before the end of the source. -/
theorem run_error (h : s.Along source) {e : LexError} (hrun : s.run .flat = .error e) :
    ∃ offset < source.length, e.pos = Position.ofOffset source offset := by
  induction hn : s.rest.length using Nat.strongRecOn generalizing s with
  | ind n ih =>
    by_cases hrest : s.rest = []
    · rw [run_of_rest_eq_nil hrest] at hrun
      cases hrun
    rw [run_eq_bind hrest] at hrun
    cases hstep : s.step .flat with
    | error e' =>
      rw [hstep] at hrun
      cases hrun
      rw [step_error hstep]
      exact h.pos_before hrest
    | ok t =>
      rw [hstep] at hrun
      exact ih _ (hn ▸ step_shortens hrest hstep) (h.step hstep) hrun rfl

/-- All the tokens that were pushed have places in the source. -/
theorem marks (h : s.Along source) : ∀ t ∈ s.marks, t.pos.Within source :=
  fun t ht => h.endLine.tokens t (List.mem_reverse.1 ht)

end Along

end Lexer

-- ========================================================== trees

/-- All positions are of some kind. -/
def Tree.Rule.standing (P : Position → Prop) : Tree.Rule where
  expr e := P e.pos
  stmt s := P s.pos
  code c := P c.pos ∧ ∀ p ∈ c.params, P p.pos

/-- What a map leaves alone stands at positions that it leaves alone. -/
theorem Tree.standing_of_moved_eq (f : Position → Position) :
    Tree.Cases (fun e => e.moved f = e → e.Every (.standing fun pos => f pos = pos))
      (fun s => s.moved f = s → s.Every (.standing fun pos => f pos = pos))
      (fun c => c.moved f = c → c.Every (.standing fun pos => f pos = pos)) := by
  refine .ofParts ?expr ?stmt ?code
  case expr =>
    intro e parts code hmoved
    have hpos := congrArg Expr.pos hmoved
    have hparts := congrArg Expr.parts hmoved
    have hcode := congrArg Expr.code? hmoved
    rw [Expr.moved_pos] at hpos
    rw [Expr.parts_moved, map_eq_self_iff] at hparts
    rw [Expr.code?_moved] at hcode
    refine .mk hpos (fun p hp => parts p hp (hparts p hp)) fun c hc => code c hc ?_
    rw [hc] at hcode
    exact Option.some.inj hcode
  case stmt =>
    intro s exprs parts code hmoved
    have hpos := congrArg Stmt.pos hmoved
    have hexprs := congrArg Stmt.exprs hmoved
    have hparts := congrArg Stmt.parts hmoved
    have hcode := congrArg Stmt.code? hmoved
    rw [Stmt.moved_pos] at hpos
    rw [Stmt.exprs_moved, map_eq_self_iff] at hexprs
    rw [Stmt.parts_moved, map_eq_self_iff] at hparts
    rw [Stmt.code?_moved] at hcode
    refine .mk hpos (fun e he => exprs e he (hexprs e he)) (fun p hp => parts p hp (hparts p hp))
      fun c hc => code c hc ?_
    rw [hc] at hcode
    exact Option.some.inj hcode
  case code =>
    rintro ⟨name, params, body, pos⟩ hbody hmoved
    simp only [Code.moved, Stmt.movedBody_eq_map, Code.mk.injEq, map_eq_self_iff,
      true_and] at hmoved
    obtain ⟨hparams, hmovedBody, hpos⟩ := hmoved
    refine .mk ⟨hpos, fun p hp => ?_⟩ fun s hs => hbody s hs (hmovedBody s hs)
    exact congrArg Param.pos (hparams p hp)

section Standing

open Classical

/-- A map that leaves alone the positions of some kind, and no others. -/
noncomputable def Position.movedUnless (P : Position → Prop) (pos : Position) : Position :=
  if P pos then pos else pos.step '\n'

private theorem Position.movedUnless_eq_self_iff {P : Position → Prop} {pos : Position} :
    pos.movedUnless P = pos ↔ P pos := by
  unfold movedUnless
  split
  · exact iff_of_true rfl ‹_›
  · rename_i hpos
    refine iff_of_false (fun heq => ?_) hpos
    exact Nat.succ_ne_self pos.line (congrArg Position.line heq)

/-- All positions of a program, or of the error that refuses it, are positions of its
tokens or the one where they stop. -/
theorem Parser.program_standing {P : Position → Prop} {stop : Position} {tokens : List Token}
    (hstop : P stop) (htokens : ∀ t ∈ tokens, P t.pos) :
    match Parser.program stop tokens with
    | .ok program => program.Every (.standing P)
    | .error e => P e.pos := by
  have hkept : (fun pos => Position.movedUnless P pos = pos) = P :=
    funext fun _ => propext Position.movedUnless_eq_self_iff
  have htokens' : tokens.map (Token.moved (Position.movedUnless P)) = tokens :=
    map_eq_self fun t ht =>
      congrArg (Token.mk t.kind t.lexeme) (Position.movedUnless_eq_self_iff.2 (htokens t ht))
  have hmoved := Parser.program_moved (Position.movedUnless P) stop tokens
  rw [htokens', Position.movedUnless_eq_self_iff.2 hstop] at hmoved
  cases hprogram : Parser.program stop tokens with
  | error e =>
    simp only [hprogram, Except.error.injEq] at hmoved
    exact Position.movedUnless_eq_self_iff.1 (congrArg ParseError.pos hmoved).symm
  | ok program =>
    simp only [hprogram, Except.ok.injEq, Stmt.movedBody_eq_map] at hmoved
    intro s hs
    rw [← hkept]
    exact (Tree.standing_of_moved_eq _).ofStmt s (map_eq_self_iff.1 hmoved.symm s hs)

end Standing

-- ========================================================= sources

/-- All positions of a source's program, or of the error that refuses it, are places of
the source; and before its end, if it cannot be cut into tokens. -/
theorem Interpreter.parse_standing (layout : Layout) (source : String) :
    match Interpreter.parse layout source with
    | .ok program => program.Every (.standing (·.Within source.toList))
    | .error failure => failure.pos.Within source.toList
        ∧ ∀ e, failure = .lex e →
          ∃ offset < source.toList.length, e.pos = .ofOffset source.toList offset := by
  have hahead := Lexer.ahead_along source.toList
  rw [Interpreter.parse_eq]
  cases hrun : (Lexer.ahead source.toList).run .flat with
  | error e =>
    obtain ⟨offset, hlt, hpos⟩ := hahead.run_error hrun
    refine ⟨⟨offset, Nat.le_of_lt hlt, hpos⟩, ?_⟩
    rintro _ ⟨⟩
    exact ⟨offset, hlt, hpos⟩
  | ok s =>
    have hs := hahead.run hrun
    have hprogram := Parser.program_standing (P := (·.Within source.toList)) hs.pos_within hs.marks
    dsimp only
    cases hparse : Parser.program s.pos s.marks with
    | error e =>
      rw [hparse] at hprogram
      exact ⟨hprogram, nofun⟩
    | ok program =>
      rw [hparse] at hprogram
      exact hprogram

end Scriptlet
