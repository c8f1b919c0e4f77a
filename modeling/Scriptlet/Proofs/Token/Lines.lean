/-
Sources cut behind a line end. Whatever is read before a line end is read the
same whether or not more lines follow: no word, number or symbol reaches over a
line end, and neither does the look ahead that decides where one of them stops.
Strings alone do. A string that is closed behind the cut is refused before it as
one that is not closed at all.

What follows the cut is then read as if the source began there, further down
(`run_behind`): a line end leaves nothing open that a later lexeme could see.
-/
import Mathlib.Data.List.Find
import Scriptlet.Proofs.Moved.Tree
import Scriptlet.Proofs.Token.Flat

namespace Scriptlet

/-- A text the last character of which ends a line. -/
def EndsLine (text : List Char) : Prop := text.getLast? = some '\n'

/-- The line end is a character of the text. -/
theorem EndsLine.ne_nil {text : List Char} (h : EndsLine text) : text ≠ [] := by
  rintro rfl
  cases h

/-- A character that is no line end is not the last one. -/
theorem EndsLine.tail {c : Char} {text : List Char} (h : EndsLine (c :: text)) (hc : c ≠ '\n') :
    EndsLine text := by
  cases text with
  | nil =>
    cases h
    exact absurd rfl hc
  | cons d rest => simpa [EndsLine] using h

private theorem EndsLine.tail_or {c : Char} {text : List Char} (h : EndsLine (c :: text)) :
    text = [] ∨ EndsLine text := by
  cases text with
  | nil => exact .inl rfl
  | cons d rest => exact .inr (by simpa [EndsLine] using h)

/-- What stands behind characters that are no line ends still ends the line. -/
theorem EndsLine.of_append {front rest : List Char} (h : EndsLine (front ++ rest))
    (hfront : '\n' ∉ front) : EndsLine rest := by
  induction front with
  | nil => exact h
  | cons c front ih =>
    simp only [List.mem_cons, not_or] at hfront
    exact ih (EndsLine.tail h (Ne.symm hfront.1)) hfront.2

/-- Dropping characters of the text drops the same ones of the text with more behind
it. -/
theorem EndsLine.drop {text front : List Char} (h : EndsLine text) (hfront : front <+: text)
    (hnewline : '\n' ∉ front) (tail : List Char) :
    EndsLine (text.drop front.length)
      ∧ (text ++ tail).drop front.length = text.drop front.length ++ tail := by
  obtain ⟨rest, rfl⟩ := hfront
  have hrest : EndsLine rest := h.of_append hnewline
  exact ⟨by simpa using hrest, by simp⟩

/-- Characters that no line end is among are found before the cut. -/
theorem EndsLine.spanWhile {text : List Char} (h : EndsLine text) {p : Char → Bool}
    (hp : p '\n' = false) (tail : List Char) :
    (text ++ tail).takeWhile p = text.takeWhile p
      ∧ (text ++ tail).dropWhile p = text.dropWhile p ++ tail
      ∧ EndsLine (text.dropWhile p) := by
  induction text with
  | nil => exact absurd rfl h.ne_nil
  | cons c rest ih =>
    rw [List.cons_append, List.takeWhile_cons, List.dropWhile_cons, List.takeWhile_cons,
      List.dropWhile_cons]
    by_cases hc : p c = true
    · have hne : c ≠ '\n' := by
        rintro rfl
        rw [hp] at hc
        cases hc
      obtain ⟨htake, hdrop, hends⟩ := ih (h.tail hne)
      simp only [hc, if_true]
      exact ⟨by rw [htake], hdrop, hends⟩
    · simp only [hc]
      exact ⟨rfl, rfl, h⟩

/-- What is taken while a condition holds has no line end if the condition fails there. -/
theorem not_mem_takeWhile {text : List Char} {p : Char → Bool} (hp : p '\n' = false) :
    '\n' ∉ text.takeWhile p := fun hmem => by
  have h := List.all_takeWhile (p := p) (l := text)
  rw [List.all_eq_true] at h
  rw [h _ hmem] at hp
  cases hp

namespace Lexeme

-- ========================================================= lexemes

/-- A lexeme with more text behind it. -/
def before (tail : List Char) (l : Lexeme) : Lexeme := { l with rest := l.rest ++ tail }

variable {text : List Char} (tail : List Char)

/-- Each kind of lexeme is cut the same with and without the tail: none of the characters
it goes on with is a line end. -/
private theorem word_before (h : EndsLine text) :
    word (text ++ tail) = (word text).before tail ∧ EndsLine (word text).rest := by
  obtain ⟨htake, hdrop, hends⟩ := h.spanWhile (p := Text.isNamePart) (by decide) tail
  refine ⟨?_, hends⟩
  simp only [word, before, htake, hdrop]

/-- A fraction needs a digit behind the dot. The look ahead goes two characters far, and
if the first is a dot there is a second before the cut. -/
private theorem startsFraction_append (h : EndsLine text) :
    startsFraction (text ++ tail) = startsFraction text := by
  match text with
  | [] => exact absurd rfl h.ne_nil
  | [c] =>
    cases h
    cases tail <;> rfl
  | c :: d :: rest =>
    by_cases hc : c = '.'
    · subst hc
      rfl
    · simp [startsFraction, hc]

private theorem fraction_append (h : EndsLine text) : fraction (text ++ tail) = fraction text := by
  unfold fraction
  rw [startsFraction_append tail h]
  split
  · rename_i hstarts
    match text with
    | [] => exact absurd rfl h.ne_nil
    | c :: rest =>
      have hc : c ≠ '\n' := by
        rintro rfl
        cases hstarts
      simp only [List.cons_append, List.drop_succ_cons, List.drop_zero]
      rw [((h.tail hc).spanWhile (p := Char.isDigit) (by decide) tail).1]
  · rfl

/-- The mark may have a sign behind it, so the look ahead is as for fractions. -/
private theorem exponentMark_append (h : EndsLine text) :
    exponentMark (text ++ tail) = exponentMark text := by
  match text with
  | [] => exact absurd rfl h.ne_nil
  | [c] =>
    cases h
    cases tail <;> rfl
  | c :: d :: rest => rfl

private theorem exponentDigits_append (mark : List Char) (h : EndsLine text) :
    exponentDigits mark (text ++ tail) = exponentDigits mark text := by
  unfold exponentDigits
  split
  · rfl
  · exact (h.spanWhile (by decide) tail).1

private theorem not_mem_fraction : '\n' ∉ fraction text := by
  unfold fraction
  split
  · simp only [List.mem_cons, not_or]
    exact ⟨by decide, not_mem_takeWhile (by decide)⟩
  · simp

private theorem not_mem_exponentMark : '\n' ∉ exponentMark text := by
  have hmark {e : Char} (he : (e = 'e' || e = 'E') = true) : '\n' ≠ e := by
    rintro rfl
    cases he
  have hsign {c : Char} (hc : (c = '+' || c = '-') = true) : '\n' ≠ c := by
    rintro rfl
    cases hc
  match text with
  | [] => simp [exponentMark]
  | [e] =>
    simp only [exponentMark]
    split
    · simpa using hmark ‹_›
    · simp
  | e :: c :: rest =>
    simp only [exponentMark]
    split
    · rename_i he
      split
      · rename_i hc
        simpa using ⟨hmark he, hsign hc⟩
      · simpa using hmark he
    · simp

private theorem not_mem_exponentDigits (mark : List Char) : '\n' ∉ exponentDigits mark text := by
  unfold exponentDigits
  split
  · simp
  · exact not_mem_takeWhile (by decide)

private theorem numeral_append (h : EndsLine text) :
    numeral (text ++ tail) = { numeral text with rest := (numeral text).rest ++ tail }
      ∧ EndsLine (numeral text).rest := by
  have htake := (h.spanWhile (p := Char.isDigit) (by decide) tail).1
  obtain ⟨hwhole, hwholeEq⟩ :=
    h.drop (List.takeWhile_prefix Char.isDigit) (not_mem_takeWhile (by decide)) tail
  obtain ⟨hfraction, hfractionEq⟩ := hwhole.drop (fraction_isPrefix _) not_mem_fraction tail
  obtain ⟨hmark, hmarkEq⟩ := hfraction.drop (exponentMark_isPrefix _) not_mem_exponentMark tail
  obtain ⟨hpower, hpowerEq⟩ :=
    hmark.drop (exponentDigits_isPrefix _ _) (not_mem_exponentDigits _) tail
  refine ⟨?_, hpower⟩
  simp only [numeral, htake, hwholeEq, fraction_append tail hwhole, hfractionEq,
    exponentMark_append tail hfraction, hmarkEq, exponentDigits_append tail _ hmark, hpowerEq]

private theorem number_before (h : EndsLine text) :
    number (text ++ tail) = (number text).map (before tail) := by
  obtain ⟨heq, hends⟩ := numeral_append tail h
  have hdigits : (numeral (text ++ tail)).digits = (numeral text).digits := by
    rw [heq]
    rfl
  have htake := (hends.spanWhile (p := Text.isNamePart) (by decide) tail).1
  simp only [number, hdigits]
  simp only [heq, startsFraction_append tail hends, htake, apply_ite (Except.map (before tail))]
  rfl

/-- A character that is no backslash stands for itself or closes the string. -/
theorem body?_cons {quote c : Char} (hc : c ≠ '\\') (rest : List Char) :
    body? quote (c :: rest)
      = if c = quote then some [] else (body? quote rest).map (c :: ·) := by
  rw [body?]
  intro _ _ heq
  exact absurd heq hc

/-- A string closed before the cut is closed by the same quote. -/
theorem body?_append {quote : Char} (hquote : quote ≠ '\\') {body : List Char}
    (h : body? quote text = some body) : body? quote (text ++ tail) = some body := by
  fun_induction body? quote text generalizing body with
  | case1 c rest ih =>
    obtain ⟨inner, hinner, rfl⟩ := Option.map_eq_some_iff.1 h
    simp [body?, ih hinner]
  | case2 rest hescape =>
    rw [List.cons_append, body?_cons hquote, if_pos rfl]
    exact h
  | case3 c rest hescape hc ih =>
    obtain ⟨inner, hinner, rfl⟩ := Option.map_eq_some_iff.1 h
    have hslash : c ≠ '\\' := by
      rintro rfl
      cases rest with
      | nil => cases hinner
      | cons d others => exact hescape d others rfl rfl
    rw [List.cons_append, body?_cons hslash, if_neg hc, ih hinner]
    rfl
  | case4 => cases h

/-- A string is the exception: it may go on over the cut, and before the cut it is then
not closed. -/
private theorem string_before {quote : Char} (hquote : quote ≠ '\\') :
    string quote text = .error .unterminatedString
      ∨ string quote (text ++ tail) = (string quote text).map (before tail) := by
  unfold string
  cases hbody : body? quote text with
  | none => exact .inl rfl
  | some body =>
    have hlen : body.length + 1 ≤ text.length := by
      rw [body?_eq_append hbody]
      simp only [List.length_append, List.length_singleton]
      omega
    rw [body?_append tail hquote hbody]
    refine .inr (congrArg Except.ok ?_)
    simp only [before, List.drop_append_of_le_length hlen]

/-- Symbols have at most two characters. -/
private theorem symbol?_append (h : 2 ≤ text.length) : symbol? (text ++ tail) = symbol? text := by
  have hlength : ∀ entry ∈ symbols, entry.1.length ≤ 2 := by decide
  refine List.find?_congr fun entry hentry => ?_
  rw [Bool.eq_iff_iff, List.isPrefixOf_iff_prefix, List.isPrefixOf_iff_prefix]
  constructor
  · intro hfront
    exact List.prefix_of_prefix_length_le hfront (List.prefix_append _ _)
      (Nat.le_trans (hlength entry hentry) h)
  · intro hfront
    exact hfront.trans (List.prefix_append _ _)

/-- No lexeme but a string reaches over a line end. -/
theorem scan_before {c : Char} {rest : List Char} (hc : c ≠ '\n') (h : EndsLine (c :: rest)) :
    scan c rest = .error .unterminatedString
      ∨ scan c (rest ++ tail) = (scan c rest).map (before tail) := by
  have hrest := h.tail hc
  unfold scan
  rw [← List.cons_append]
  split
  · exact .inr (congrArg Except.ok (word_before tail h).1)
  split
  · exact .inr (number_before tail h)
  split
  · rename_i hquote
    refine string_before tail ?_
    rintro rfl
    cases hquote
  · have hlength : 2 ≤ (c :: rest).length := by
      have := List.length_pos_iff.2 hrest.ne_nil
      simp only [List.length_cons]
      omega
    rw [symbol?_append tail hlength]
    right
    cases hsymbol : symbol? (c :: rest) with
    | none => rfl
    | some found =>
      have hfront := (symbol?_isPrefix (s := found.2) hsymbol).length_le
      simp only [Except.map, before, List.drop_append_of_le_length hfront]

private theorem string_rest_endsLine {quote : Char} (hquote : quote ≠ '\n') (h : EndsLine text)
    {l : Lexeme} (hl : string quote text = .ok l) : EndsLine l.rest := by
  unfold string at hl
  split at hl
  · cases hl
  · rename_i body hbody
    cases hl
    rw [body?_eq_append hbody, List.append_assoc] at h
    have hbehind : EndsLine (quote :: text.drop (body.length + 1)) := by
      simpa [EndsLine, List.getLast?_append] using h
    exact hbehind.tail hquote

/-- A lexeme before a line end leaves the line end. -/
theorem scan_rest_endsLine {c : Char} {rest : List Char} (hc : c ≠ '\n')
    (h : EndsLine (c :: rest)) {l : Lexeme} (hl : scan c rest = .ok l) : EndsLine l.rest := by
  unfold scan at hl
  split at hl
  · cases hl
    exact (word_before [] h).2
  split at hl
  · rw [(number_eq_ok hl).2]
    exact (numeral_append [] h).2
  split at hl
  · exact string_rest_endsLine hc (h.tail hc) hl
  split at hl
  · rename_i spelling symbol hsymbol
    cases hl
    have hspelling : ∀ entry ∈ symbols, '\n' ∉ entry.1 := by decide
    exact (h.drop (symbol?_isPrefix hsymbol)
      (hspelling _ (List.mem_of_find?_eq_some hsymbol)) []).1
  · cases hl

end Lexeme

namespace Lexer

variable {s t : Lexer} {text tail : List Char}

-- ======================================================== the walk

/-- The state with another text to read. -/
def facing (s : Lexer) (text : List Char) : Lexer := { s with rest := text }

/-- Nothing has been read yet, or a line was just ended. -/
def LineStart (s : Lexer) : Prop :=
  s.tokens = [] ∨ ∃ last, s.tokens.head? = some last ∧ last.kind = .newline

/-- A line end leaves the walk where a line begins. -/
theorem endLine_lineStart : s.endLine.LineStart := by
  unfold endLine
  split
  · exact .inl ‹_›
  · rename_i last before htokens
    split
    · exact .inr ⟨last, by rw [htokens]; rfl, ‹_›⟩
    · exact .inr ⟨_, rfl, rfl⟩

/-- A second line end is not recorded. -/
theorem LineStart.endLine_eq (h : s.LineStart) : s.endLine = s := by
  unfold endLine
  split
  · rfl
  · rename_i last before htokens
    rcases h with hnil | ⟨last', hlast, hk⟩
    · rw [htokens] at hnil
      cases hnil
    · rw [htokens] at hlast
      cases hlast
      rw [if_pos hk]

/-- Blanks at the front of a line are passed over one by one as well as all at
once. -/
theorem run_beginLine : (s.beginLine .flat).run .flat = s.run .flat := by
  obtain ⟨rest, pos, levels, tokens⟩ := s
  induction rest generalizing pos with
  | nil => rfl
  | cons c rest ih =>
    by_cases hc : isIndent c = true
    · have hblank : (c = ' ' || c = '\t' || c = '\r') = true := by
        rw [← show isIndent c = (decide (c = ' ') || decide (c = '\t')) from rfl, hc]
        rfl
      have hnewline : c ≠ '\n' := by
        rintro rfl
        cases hc
      have hstep : step .flat ⟨c :: rest, pos, levels, tokens⟩
          = .ok ⟨rest, pos.step c, levels, tokens⟩ := by
        simp only [step, if_neg hnewline, if_pos hblank]
        rfl
      rw [run_eq_bind (s := ⟨c :: rest, pos, levels, tokens⟩) (by simp), hstep]
      show _ = run .flat ⟨rest, pos.step c, levels, tokens⟩
      rw [← ih]
      simp only [beginLine, List.takeWhile_cons, List.dropWhile_cons, hc, if_true, moveOver,
        Position.after_cons]
      rfl
    · have hstay : beginLine .flat ⟨c :: rest, pos, levels, tokens⟩
          = ⟨c :: rest, pos, levels, tokens⟩ := by
        simp [beginLine, hc, moveOver, Layout.flat]
      rw [hstay]

/-- What is still to be read has no part in ending a line. -/
theorem endLine_facing (s : Lexer) (text : List Char) :
    (s.facing text).endLine = s.endLine.facing text := by
  obtain ⟨rest, pos, levels, tokens⟩ := s
  cases tokens with
  | nil => rfl
  | cons last before =>
    simp only [endLine, facing]
    split <;> rfl

/-- A line end is read in one step, and the walk goes on with what is behind it. -/
theorem run_newline (s : Lexer) (rest : List Char) :
    (s.facing ('\n' :: rest)).run .flat
      = ((s.endLine.moveOver ['\n'] []).facing rest).run .flat := by
  rw [run_eq_bind (by simp [facing]), ← run_beginLine (s := (s.endLine.moveOver _ _).facing rest)]
  show (((s.facing ('\n' :: rest)).endLine.moveOver ['\n'] rest).beginLine .flat).run .flat = _
  rw [endLine_facing]
  rfl

/-- Two characters decide whether a comment starts. -/
theorem startsComment_append (c d : Char) (rest tail : List Char) :
    startsComment (c :: d :: rest ++ tail) = startsComment (c :: d :: rest) := by
  by_cases hhash : c = '#'
  · subst hhash
    rfl
  by_cases hslash : c = '/' ∧ d = '/'
  · obtain ⟨rfl, rfl⟩ := hslash
    rfl
  · have hnone (others : List Char) : startsComment (c :: d :: others) = false := by
      unfold startsComment
      split <;> simp_all
    rw [List.cons_append, List.cons_append, hnone, hnone]

/-- One step before the cut, on anything but a line end: it is refused because a
string is not closed, or is the step of the whole. -/
theorem step_facing_append (s : Lexer) {c : Char} {rest : List Char} (hc : c ≠ '\n')
    (h : EndsLine (c :: rest)) (tail : List Char) :
    (∃ e, (s.facing (c :: rest)).step .flat = .error e ∧ e.cause = .unterminatedString)
      ∨ (∃ e, (s.facing (c :: rest)).step .flat = .error e
        ∧ (s.facing (c :: rest ++ tail)).step .flat = .error e)
      ∨ ∃ (t : Lexer) (text : List Char), (s.facing (c :: rest)).step .flat = .ok (t.facing text)
        ∧ (s.facing (c :: rest ++ tail)).step .flat = .ok (t.facing (text ++ tail))
        ∧ EndsLine text := by
  -- the line feed to come is part of the first text, so a comment cannot start across the seam
  have hcomment : startsComment (c :: rest ++ tail) = startsComment (c :: rest) := by
    obtain ⟨d, others, rfl⟩ := List.exists_cons_of_ne_nil (h.tail hc).ne_nil
    exact startsComment_append c d others tail
  simp only [step, facing, List.cons_append, if_neg hc] at hcomment ⊢
  rw [hcomment]
  split
  · exact .inr (.inr ⟨s.moveOver [c] [], rest, rfl, rfl, h.tail hc⟩)
  split
  · obtain ⟨htake, hdrop, hends⟩ := h.spanWhile (p := fun x => decide (x ≠ '\n')) (by decide) tail
    rw [List.cons_append] at htake hdrop
    refine .inr (.inr ⟨s.moveOver ((c :: rest).takeWhile (· ≠ '\n')) [], _, rfl, ?_, hends⟩)
    rw [htake, hdrop]
    rfl
  rcases Lexeme.scan_before tail hc h with hscan | hscan
  · rw [hscan]
    exact .inl ⟨_, rfl, rfl⟩
  · rw [hscan]
    cases hl : Lexeme.scan c rest with
    | error cause => exact .inr (.inl ⟨_, rfl, rfl⟩)
    | ok l =>
      exact .inr (.inr ⟨(s.push l.kind (String.ofList l.contents) s.pos).moveOver l.span [], l.rest,
        rfl, rfl, Lexeme.scan_rest_endsLine hc h hl⟩)

/-- A source cut behind a line end: what stands before the cut is refused for a
string that is not closed, or for what the whole is refused for, or the walk over
the whole goes on from where the walk over it ended, at the start of a line. -/
theorem run_facing_append (s : Lexer) (text tail : List Char)
    (h : text = [] ∧ s.LineStart ∨ EndsLine text) :
    (∃ e, (s.facing text).run .flat = .error e
        ∧ (e.cause = .unterminatedString ∨ (s.facing (text ++ tail)).run .flat = .error e))
      ∨ ∃ t, (s.facing text).run .flat = .ok t ∧ t.LineStart
        ∧ (s.facing (text ++ tail)).run .flat = (t.facing tail).run .flat := by
  induction hn : text.length using Nat.strongRecOn generalizing s text with
  | ind n ih =>
    rcases h with ⟨rfl, hstart⟩ | h
    · exact .inr ⟨s.facing [], run_of_rest_eq_nil rfl, hstart, rfl⟩
    obtain ⟨c, rest, rfl⟩ := List.exists_cons_of_ne_nil h.ne_nil
    by_cases hc : c = '\n'
    · subst hc
      rw [List.cons_append, run_newline, run_newline]
      refine ih rest.length (by simp [← hn]) _ rest ?_ rfl
      exact h.tail_or.imp (fun hnil => ⟨hnil, endLine_lineStart⟩) id
    · rw [run_eq_bind (s := s.facing (c :: rest)) (by simp [facing]),
        run_eq_bind (s := s.facing (c :: rest ++ tail)) (by simp [facing])]
      rcases step_facing_append s hc h tail with
        ⟨e, he, hcause⟩ | ⟨e, he, he'⟩ | ⟨t, text, ht, ht', hends⟩
      · rw [he]
        exact .inl ⟨e, rfl, .inl hcause⟩
      · rw [he, he']
        exact .inl ⟨e, rfl, .inr rfl⟩
      · have hlt := step_shortens (s := s.facing (c :: rest)) (by simp [facing]) ht
        rw [ht, ht']
        exact ih text.length (hn ▸ hlt) t text (.inr hends) rfl

-- ================================================= behind the cut

section Behind

variable {f : Position → Position} {before : List Token}

/-- The walk of a source that stands behind another one, whose tokens are
`before`, and therefore elsewhere. -/
def behind (f : Position → Position) (before : List Token) (s : Lexer) : Lexer :=
  { s with pos := f s.pos, tokens := s.tokens.map (Token.moved f) ++ before }

/-- Line ends that come first stay without a token, and one that follows a line
end does too. -/
theorem endLine_behind
    (hbefore : before = [] ∨ ∃ last, before.head? = some last ∧ last.kind = .newline)
    (s : Lexer) : (s.behind f before).endLine = s.endLine.behind f before := by
  obtain ⟨rest, pos, levels, tokens⟩ := s
  cases tokens with
  | nil => exact LineStart.endLine_eq (s := ⟨rest, f pos, levels, before⟩) hbefore
  | cons last others =>
    simp only [endLine, behind, List.map_cons, List.cons_append, Token.moved_kind]
    split <;> rfl

private theorem after_moved (hf : ∀ pos c, f (Position.step pos c) = (f pos).step c)
    (pos : Position)
    (text : List Char) : f (pos.after text) = (f pos).after text := by
  induction text generalizing pos with
  | nil => rfl
  | cons c rest ih => rw [Position.after_cons, Position.after_cons, ih, hf]

private theorem moveOver_behind (hf : ∀ pos c, f (Position.step pos c) = (f pos).step c) (s : Lexer)
    (span rest : List Char) :
    (s.moveOver span rest).behind f before = (s.behind f before).moveOver span rest := by
  simp only [moveOver, behind, after_moved hf]

/-- The result of a walk, moved like the walk. -/
def behindResult (f : Position → Position) (before : List Token) :
    Except LexError Lexer → Except LexError Lexer
  | .ok t => .ok (t.behind f before)
  | .error e => .error { e with pos := f e.pos }

/-- A step does the same further down, behind tokens that end with a line end. -/
private theorem step_behind (hf : ∀ pos c, f (Position.step pos c) = (f pos).step c)
    (hbefore : before = [] ∨ ∃ last, before.head? = some last ∧ last.kind = .newline) (s : Lexer) :
    (s.behind f before).step .flat = behindResult f before (s.step .flat) := by
  have hrest : (s.behind f before).rest = s.rest := rfl
  unfold step
  rw [hrest]
  cases s.rest with
  | nil => rfl
  | cons c rest =>
    dsimp only
    split
    · rw [endLine_behind hbefore, ← moveOver_behind hf]
      exact congrArg Except.ok (moveOver_behind hf _ _ _).symm
    split
    · exact congrArg Except.ok (moveOver_behind hf _ _ _).symm
    split
    · exact congrArg Except.ok (moveOver_behind hf _ _ _).symm
    cases Lexeme.scan c rest with
    | error cause => rfl
    | ok l =>
      refine congrArg Except.ok ?_
      rw [moveOver_behind hf]
      rfl

/-- And so does the whole walk, by induction on what is left to read. -/
theorem run_behind (hf : ∀ pos c, f (Position.step pos c) = (f pos).step c)
    (hbefore : before = [] ∨ ∃ last, before.head? = some last ∧ last.kind = .newline) (s : Lexer) :
    (s.behind f before).run .flat = behindResult f before (s.run .flat) := by
  induction hn : s.rest.length using Nat.strongRecOn generalizing s with
  | ind n ih =>
    by_cases hrest : s.rest = []
    · rw [run_of_rest_eq_nil hrest, run_of_rest_eq_nil (s := s.behind f before) hrest]
      rfl
    · rw [run_eq_bind hrest, run_eq_bind (s := s.behind f before) hrest, step_behind hf hbefore]
      cases hstep : s.step .flat with
      | error e => rfl
      | ok t => exact ih _ (hn ▸ step_shortens hrest hstep) t rfl

end Behind

-- ================================================== tokens in order

/-- What a walk that measures nothing has at every point: no open levels, and
tokens that are lexemes or line ends. -/
def Plain (s : Lexer) : Prop :=
  s.levels = [] ∧ ∀ t ∈ s.tokens, isLexeme t.kind = true ∨ t.kind = .newline

/-- The walk without marks of indentation never has one among its tokens. -/
theorem endLine_plain (h : s.Plain) : s.endLine.Plain := by
  unfold endLine
  split
  · exact h
  · split
    · exact h
    · refine ⟨h.1, fun t ht => ?_⟩
      rcases List.mem_cons.1 ht with rfl | ht
      · exact .inr rfl
      · exact h.2 t ht

/-- What a step of a walk that measures nothing does: it passes blanks or a comment, ends
a line and passes the blanks behind it, or reads a lexeme. -/
theorem step_flat_cases (hstep : s.step .flat = .ok t) :
    (∃ span rest, s.rest = span ++ rest ∧ t = s.moveOver span rest)
      ∨ (∃ blanks rest, s.rest = '\n' :: blanks ++ rest
        ∧ t = s.endLine.moveOver ('\n' :: blanks) rest)
      ∨ ∃ c rest l, s.rest = c :: rest ∧ Lexeme.scan c rest = .ok l
        ∧ t = (s.push l.kind (String.ofList l.contents) s.pos).moveOver l.span l.rest := by
  unfold step at hstep
  split at hstep
  · cases hstep
    exact .inl ⟨[], s.rest, rfl, rfl⟩
  rename_i c rest hrest
  split at hstep
  · rename_i hc
    subst hc
    cases hstep
    refine .inr (.inl ⟨rest.takeWhile isIndent, rest.dropWhile isIndent, ?_, rfl⟩)
    rw [hrest, List.cons_append, List.takeWhile_append_dropWhile]
  split at hstep
  · cases hstep
    exact .inl ⟨[c], rest, hrest, rfl⟩
  split at hstep
  · cases hstep
    exact .inl ⟨_, _, hrest.trans List.takeWhile_append_dropWhile.symm, rfl⟩
  split at hstep
  · cases hstep
  · rename_i l hl
    cases hstep
    exact .inr (.inr ⟨c, rest, l, hrest, hl, rfl⟩)

private theorem step_plain (_ : s.rest ≠ []) (hstep : s.step .flat = .ok t) (h : s.Plain) :
    t.Plain := by
  rcases step_flat_cases hstep with
    ⟨_, _, -, rfl⟩ | ⟨_, _, -, rfl⟩ | ⟨_, _, l, -, hl, rfl⟩
  · exact h
  · exact endLine_plain h
  · refine ⟨h.1, fun t ht => ?_⟩
    rcases List.mem_cons.1 ht with rfl | ht
    · exact .inl (scan_isLexeme hl)
    · exact h.2 t ht

/-- Ending a line is not moving over it. -/
@[simp] theorem endLine_pos (s : Lexer) : s.endLine.pos = s.pos := by
  unfold endLine
  split
  · rfl
  · split <;> rfl

private theorem after_moveOver (u : Lexer) (span rest : List Char) (hs : s.rest = span ++ rest)
    (hu : u.pos = s.pos) :
    (u.moveOver span rest).pos.after (u.moveOver span rest).rest = s.pos.after s.rest := by
  rw [hs, Position.after_append, ← hu]
  rfl

/-- A step moves over what it reads. -/
theorem step_after (hstep : s.step .flat = .ok t) : t.pos.after t.rest = s.pos.after s.rest := by
  rcases step_flat_cases hstep with
    ⟨_, _, hrest, rfl⟩ | ⟨_, _, hrest, rfl⟩ | ⟨_, _, l, hrest, hl, rfl⟩
  · exact after_moveOver s _ _ hrest rfl
  · exact after_moveOver s.endLine _ _ hrest s.endLine_pos
  · exact after_moveOver _ _ _ (hrest.trans (Lexeme.scan_eq_append hl)) rfl

/-- A walk ends behind what it read. -/
theorem run_pos (h : s.run .flat = .ok t) : t.pos = s.pos.after s.rest := by
  obtain ⟨hafter, hrest⟩ := run_keeps (P := fun u => u.pos.after u.rest = s.pos.after s.rest)
    (fun _ _ _ hstep hu => (step_after hstep).trans hu) h rfl
  rwa [hrest] at hafter

/-- The walk at the beginning of a source, before any line is measured. -/
def ahead (text : List Char) : Lexer :=
  { rest := text, pos := .start, levels := [], tokens := [] }

/-- The tokens in order, with the last line ended. -/
def marks (s : Lexer) : List Token := s.endLine.tokens.reverse

private theorem marks_mem (h : s.Plain) {t : Token} (ht : t ∈ s.marks) :
    isLexeme t.kind = true ∨ t.kind = .newline :=
  (endLine_plain h).2 t (List.mem_reverse.1 ht)

/-- No end mark is pushed during the walk. -/
theorem marks_ne_eof (h : s.Plain) {t : Token} (ht : t ∈ s.marks) : t.kind ≠ .eof := by
  intro heof
  rcases marks_mem h ht with hk | hk <;> rw [heof] at hk <;> cases hk

/-- The token behind all others. -/
def endMark (pos : Position) : Token := ⟨.eof, "", pos⟩

/-- So the tokens are the marks of the walk and one end mark at its place. -/
theorem finish_eq (h : s.Plain) : s.finish = s.marks ++ [endMark s.pos] := by
  simp [finish, marks, push, h.1, closeLevels, endMark]

/-- The walk of a whole source begins plain. -/
theorem run_plain {text : List Char} (h : (ahead text).run .flat = .ok t) : t.Plain :=
  (run_keeps (fun _ _ => step_plain) h ⟨rfl, fun _ ht => nomatch ht⟩).1

end Lexer

/-- The parser is given exactly what the walk has pushed. -/
private theorem Program.ofTokens_marks {s : Lexer} (h : s.Plain) :
    Program.ofTokens (s.marks ++ [Lexer.endMark s.pos]) = Parser.program s.pos s.marks := by
  have hkinds {t : Token} (ht : t ∈ s.marks) : t.kind.isIndentation = false ∧ t.kind ≠ .eof := by
    refine ⟨?_, Lexer.marks_ne_eof h ht⟩
    rcases Lexer.marks_mem h ht with hk | hk
    · exact Lexer.isIndentation_of_isLexeme hk
    · rw [hk]
      rfl
  have hfilter : (s.marks ++ [Lexer.endMark s.pos]).filter (fun t => !t.kind.isIndentation)
      = s.marks ++ [Lexer.endMark s.pos] := by
    refine List.filter_eq_self.2 fun t ht => ?_
    rcases List.mem_append.1 ht with ht | ht
    · rw [(hkinds ht).1]
      rfl
    · rw [List.mem_singleton.1 ht]
      rfl
  have htake : (s.marks ++ [Lexer.endMark s.pos]).takeWhile (fun t => t.kind ≠ .eof) = s.marks := by
    rw [List.takeWhile_append_of_pos fun t ht => by simpa using (hkinds ht).2]
    simp [Lexer.endMark]
  have hend : endPosition (s.marks ++ [Lexer.endMark s.pos]) = s.pos := by
    have hnone : s.marks.find? (fun t => t.kind = .eof) = none :=
      List.find?_eq_none.2 fun t ht => by simpa using (hkinds ht).2
    simp [endPosition, List.find?_append, hnone, Lexer.endMark]
  simp only [Program.ofTokens, hfilter, htake, hend]

/-- What a source means, whatever the layout: its tokens in order, read as a
program. -/
theorem Interpreter.parse_eq (layout : Layout) (source : String) :
    Interpreter.parse layout source
      = match (Lexer.ahead source.toList).run .flat with
        | .error e => .error (.lex e)
        | .ok s =>
            match Parser.program s.pos s.marks with
            | .error e => .error (.parse e)
            | .ok program => .ok program := by
  rw [← Interpreter.parse_flat layout, Interpreter.parse, tokenize]
  have hstart : (Lexer.start .flat source.toList).run .flat
      = (Lexer.ahead source.toList).run .flat := Lexer.run_beginLine
  rw [hstart]
  cases hrun : (Lexer.ahead source.toList).run .flat with
  | error e => rfl
  | ok s =>
    have hplain := Lexer.run_plain hrun
    have hprogram := Program.ofTokens_marks hplain
    rw [← Lexer.finish_eq hplain] at hprogram
    cases hresult : Parser.program s.pos s.marks with
    | error e =>
      rw [hresult] at hprogram
      simp only [hprogram, hresult]
    | ok program =>
      rw [hresult] at hprogram
      simp only [hprogram, hresult]

end Scriptlet
