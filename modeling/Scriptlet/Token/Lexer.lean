/-
Cutting a source text into tokens. The lexer walks over the text one lexeme,
blank or comment at a time and keeps what it has produced so far. Each step
makes the text shorter (`Lexer.step_shortens`), which is why the walk ends.

Line ends become tokens, but never first and never twice in a row, so blank
lines and comment lines leave no trace. The width of a line's leading blanks is
compared with the open indentation levels, and every level opened or closed is
marked by a token of its own; at the end of the text all open levels are
closed.
-/
import Scriptlet.Token.Lexeme

namespace Scriptlet

/-- How leading blanks are measured and whether their changes are marked. -/
structure Layout where
  indentation : Bool := true
  tabWidth : Nat := 8
  deriving DecidableEq, Repr

/-- The state of the walk: the text not read yet, the place where it begins, the
open indentation levels above zero, deepest first, and the tokens so far, newest
first. -/
structure Lexer where
  rest : List Char
  pos : Position
  levels : List Nat
  tokens : List Token

namespace Lexer

-- =========================================================== moves

/-- Appends a token at `pos`. -/
def push (s : Lexer) (kind : Token.Kind) (lexeme : String) (pos : Position) : Lexer :=
  { s with tokens := ⟨kind, lexeme, pos⟩ :: s.tokens }

/-- Moves over `span`, behind which `rest` is left. -/
def moveOver (s : Lexer) (span rest : List Char) : Lexer :=
  { s with rest, pos := s.pos.after span }

/-- Ends a line here, unless nothing was read yet or the line is ended
already. -/
def endLine (s : Lexer) : Lexer :=
  match s.tokens with
  | [] => s
  | last :: _ => if last.kind = .newline then s else s.push .newline "\n" s.pos

-- ===================================================== indentation

/-- Whether a text begins with a comment. -/
def startsComment : List Char → Bool
  | '#' :: _ => true
  | '/' :: '/' :: _ => true
  | _ => false

/-- Whether a line has nothing to measure: it ends, or holds only a comment. -/
def isBare : List Char → Bool
  | [] => true
  | c :: rest => c = '\n' || c = '\r' || startsComment (c :: rest)

/-- The blanks that count as indentation. -/
def isIndent (c : Char) : Bool := c = ' ' || c = '\t'

/-- How wide leading blanks are. Widths are counted without a bound. A count in words of 64
bits is the same until the tabs of one line, taken as often as the tab width, pass the
largest word; there it would stop, or start again from zero if nothing checks it. -/
def width (layout : Layout) (blanks : List Char) : Nat :=
  blanks.foldl (fun w c => w + if c = '\t' then layout.tabWidth else 1) 0

/-- Closes `n` levels here. -/
def closeLevels (s : Lexer) : Nat → Lexer
  | 0 => s
  | n + 1 => (s.push .dedent "" s.pos).closeLevels n

/-- Makes `w` the innermost level: deeper ones are closed, and it is opened if
it was not open. -/
def indentTo (s : Lexer) (w : Nat) : Lexer :=
  let deeper := s.levels.takeWhile (w < ·)
  let kept := s.levels.dropWhile (w < ·)
  let s := s.closeLevels deeper.length
  if kept.headD 0 < w then { s.push .indent "" s.pos with levels := w :: kept }
  else { s with levels := kept }

/-- Reads the leading blanks of a line and marks the change of indentation, if
the line has anything to measure. -/
def beginLine (layout : Layout) (s : Lexer) : Lexer :=
  let blanks := s.rest.takeWhile isIndent
  let s := s.moveOver blanks (s.rest.dropWhile isIndent)
  if layout.indentation && !isBare s.rest then s.indentTo (width layout blanks) else s

-- ============================================================ walk

/-- Reads one line end, blank, comment or lexeme. -/
def step (layout : Layout) (s : Lexer) : Except LexError Lexer :=
  match s.rest with
  | [] => .ok s
  | c :: rest =>
      if c = '\n' then .ok ((s.endLine.moveOver [c] rest).beginLine layout)
      else if c = ' ' || c = '\t' || c = '\r' then .ok (s.moveOver [c] rest)
      else if startsComment (c :: rest) then
        .ok (s.moveOver ((c :: rest).takeWhile (· ≠ '\n')) ((c :: rest).dropWhile (· ≠ '\n')))
      else
        match Lexeme.scan c rest with
        | .error cause => .error ⟨cause, s.pos⟩
        | .ok l => .ok ((s.push l.kind (String.ofList l.contents) s.pos).moveOver l.span l.rest)

@[simp] theorem endLine_rest (s : Lexer) : s.endLine.rest = s.rest := by
  unfold endLine
  split
  · rfl
  · split <;> rfl

@[simp] theorem closeLevels_rest (s : Lexer) (n : Nat) : (s.closeLevels n).rest = s.rest := by
  induction n generalizing s with
  | zero => rfl
  | succ n ih => simp [closeLevels, ih, push]

@[simp] theorem indentTo_rest (s : Lexer) (w : Nat) : (s.indentTo w).rest = s.rest := by
  simp only [indentTo]
  split <;> simp [push]

/-- Measuring a line reads its leading blanks and nothing else. -/
@[simp] theorem beginLine_rest (layout : Layout) (s : Lexer) :
    (s.beginLine layout).rest = s.rest.dropWhile isIndent := by
  simp only [beginLine]
  split <;> simp [moveOver]

/-- A step on a text that is not empty leaves a shorter one. -/
theorem step_shortens {layout : Layout} {s t : Lexer} (hs : s.rest ≠ [])
    (h : s.step layout = .ok t) : t.rest.length < s.rest.length := by
  unfold step at h
  split at h
  · contradiction
  · next c rest hrest =>
    rw [hrest]
    split at h
    · cases h
      simpa [moveOver] using Nat.lt_succ_of_le (List.dropWhile_suffix isIndent).length_le
    · split at h
      · cases h
        simp [moveOver]
      · next hnl _ =>
        split at h
        · cases h
          have hle := (List.dropWhile_suffix (l := rest) fun x => decide (x ≠ '\n')).length_le
          simpa [moveOver, hnl] using Nat.lt_succ_of_le hle
        · split at h
          · cases h
          · next l hl =>
            cases h
            simpa [moveOver] using Lexeme.scan_rest_lt hl

/-- Walks to the end of the text. -/
def run (layout : Layout) (s : Lexer) : Except LexError Lexer :=
  if hs : s.rest = [] then .ok s
  else
    match h : s.step layout with
    | .error e => .error e
    | .ok t =>
        have : t.rest.length < s.rest.length := step_shortens hs h
        run layout t
termination_by s.rest.length

/-- The walk at the beginning of a source. -/
def start (layout : Layout) (source : List Char) : Lexer :=
  Lexer.beginLine layout { rest := source, pos := .start, levels := [], tokens := [] }

/-- The tokens in order, with the last line ended, all levels closed and the end
of input marked. -/
def finish (s : Lexer) : List Token :=
  (((s.endLine).closeLevels s.levels.length).push .eof "" s.pos).tokens.reverse

end Lexer

/-- The tokens of a source text. -/
def tokenize (layout : Layout) (source : String) : Except LexError (List Token) :=
  match (Lexer.start layout source.toList).run layout with
  | .error e => .error e
  | .ok s => .ok s.finish

end Scriptlet
