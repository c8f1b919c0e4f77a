/-
How the walk over a text passes the pieces that printed values are made of:
words, numbers, quoted strings, brackets, commas, colons and single blanks. Each
piece becomes its token, and what stands behind it is left as it was.

Each of them is a lexeme that is spelled as one of its kind (`Lexeme.Spells`) and stops
where it ends (`Lexeme.Stops`), so one lemma passes them all (`Lexer.lexes_spelled`).

# What follows a piece

Words and numbers are as long as they can be, so what follows has to end them.
Behind a value there is only ever a comma, a colon, a closing bracket or the end
of the text (`Delimits`). A string ends by itself, and a bracket too.

# Tokens are not named

Their positions depend on where the walk is, so a statement says what kind of
tokens a piece becomes, and not which (`Lexes`).
-/
import Scriptlet.Proofs.Token.Pieces
import Scriptlet.Text.Quoted

namespace Scriptlet

-- ======================================================= delimiters

/-- What may stand behind a value. -/
def Delimits (tail : List Char) : Prop :=
  ∀ c ∈ tail.head?, c = ',' ∨ c = ':' ∨ c = ']' ∨ c = '\x7d'

/-- Printed data stands before the end, a comma, a colon or a closing bracket, none of
which goes on with it. -/
theorem delimits_nil : Delimits [] := fun _ hc => nomatch hc

theorem delimits_cons {c : Char} (h : c = ',' ∨ c = ':' ∨ c = ']' ∨ c = '\x7d')
    (tail : List Char) : Delimits (c :: tail) := by
  intro d hd
  cases hd
  exact h

/-- A delimiter is no part of a word or a number. -/
theorem Delimits.not_part {tail : List Char} (h : Delimits tail) :
    ∀ c ∈ tail.head?, Text.isNamePart c = false := by
  intro c hc
  rcases h c hc with rfl | rfl | rfl | rfl <;> decide

private theorem Delimits.startsFraction_eq_false {tail : List Char} (h : Delimits tail) :
    Lexeme.startsFraction tail = false := by
  cases tail with
  | nil => rfl
  | cons c rest => rcases h c rfl with rfl | rfl | rfl | rfl <;> rfl

namespace Lexeme

-- ========================================================== numbers

/-- Digits, and then perhaps a point and more digits: how sizes are printed. -/
inductive Plainly : List Char → Prop where
  | whole {digits : List Char} (some : digits ≠ []) (all : ∀ c ∈ digits, c.isDigit = true) :
      Plainly digits
  | point {digits places : List Char} (some : digits ≠ [])
      (all : ∀ c ∈ digits, c.isDigit = true) (some' : places ≠ [])
      (all' : ∀ c ∈ places, c.isDigit = true) : Plainly (digits ++ '.' :: places)

/-- A size is a number without an exponent. -/
theorem Plainly.numeric {text : List Char} (h : Plainly text) : Numeric text := by
  cases h with
  | whole hsome hall => simpa using Numeric.mk ⟨hsome, hall⟩ .none .none
  | point hsome hall hsome' hall' =>
    simpa using Numeric.mk ⟨hsome, hall⟩ (.point ⟨hsome', hall'⟩) .none

end Lexeme

-- ========================================================== strings

/-- A character that a quoted text shows as it is, or by one of the short
escapes. -/
def Text.IsReadable (c : Char) : Prop :=
  Text.quotedChar c = [c] ∨ ∃ e ∈ ['"', '\\', 'n', 'r', 't', '0'], Text.quotedChar c = ['\\', e]

instance : DecidablePred Text.IsReadable := fun c =>
  decidable_of_iff
    (Text.quotedChar c = [c]
      ∨ ['"', '\\', 'n', 'r', 't', '0'].any (Text.quotedChar c = ['\\', ·]) = true)
    (by simp [Text.IsReadable])

private theorem Text.byNumber_length (c : Char) : 4 ≤ (Text.byNumber c).length := by
  simp [Text.byNumber]

namespace Lexeme

/-- How a readable character is written, and that reading it undoes that. -/
theorem quotedChar_cases {c : Char} (h : Text.IsReadable c) :
    (Text.quotedChar c = [c] ∧ c ≠ '\\' ∧ c ≠ '"')
      ∨ ∃ e, Text.quotedChar c = ['\\', e] ∧ Escape e c := by
  unfold Text.IsReadable at h
  unfold Text.quotedChar at h ⊢
  split at h
  case h_7 hquote hbackslash =>
    split at h
    · next hplain =>
      rw [if_pos hplain]
      exact .inl ⟨rfl, hbackslash, hquote⟩
    · -- An escape by number is longer than all others.
      have hlength := Text.byNumber_length c
      rcases h with h | ⟨e, -, h⟩ <;> rw [h] at hlength <;> simp at hlength
  all_goals exact .inr ⟨_, rfl, escape_iff.2 rfl⟩

/-- A readable text can stand in quotes as it is shown. -/
theorem body_quoted {text : List Char} (h : ∀ c ∈ text, Text.IsReadable c) :
    Body '"' (text.flatMap Text.quotedChar) text := by
  induction text with
  | nil => exact .nil
  | cons c rest ih =>
    obtain ⟨hc, hrest⟩ := List.forall_mem_cons.1 h
    rw [List.flatMap_cons]
    rcases quotedChar_cases hc with ⟨hquoted, hbackslash, hquote⟩ | ⟨e, hquoted, hmeans⟩
    · rw [hquoted]
      exact .plain hbackslash hquote (ih hrest)
    · rw [hquoted]
      exact .escape hmeans (ih hrest)

end Lexeme

namespace Lexer

-- ========================================================= the walk

/-- From the front of `text`, the walk comes to `tail` and has made tokens of
which `R` holds. -/
def Lexes (text tail : List Char) (R : List Token → Prop) : Prop :=
  ∀ s : Lexer, s.rest = text → ∃ tokens pos, R tokens ∧
    s.run .flat = Lexer.run .flat
      { s with rest := tail, pos := pos, tokens := tokens.reverse ++ s.tokens }

/-- One walk after another. -/
theorem Lexes.trans {text middle tail : List Char} {R R' : List Token → Prop}
    (h : Lexes text middle R) (h' : Lexes middle tail R') :
    Lexes text tail fun tokens =>
      ∃ front behind, tokens = front ++ behind ∧ R front ∧ R' behind := by
  intro s hs
  obtain ⟨front, pos, hfront, hrun⟩ := h s hs
  obtain ⟨behind, pos', hbehind, hrun'⟩ :=
    h' { s with rest := middle, pos := pos, tokens := front.reverse ++ s.tokens } rfl
  refine ⟨front ++ behind, pos', ⟨front, behind, rfl, hfront, hbehind⟩, ?_⟩
  rw [hrun, hrun', List.reverse_append, List.append_assoc]

/-- What is said of the tokens may be weakened. -/
theorem Lexes.imp {text tail : List Char} {R R' : List Token → Prop} (h : Lexes text tail R)
    (himp : ∀ tokens, R tokens → R' tokens) : Lexes text tail R' := by
  intro s hs
  obtain ⟨tokens, pos, htokens, hrun⟩ := h s hs
  exact ⟨tokens, pos, himp tokens htokens, hrun⟩

/-- One token of the given kind and contents. -/
def One (kind : Token.Kind) (contents : List Char) (tokens : List Token) : Prop :=
  ∃ pos, tokens = [⟨kind, String.ofList contents, pos⟩]

/-- A lexeme becomes its token where it stops. -/
theorem lexes_spelled {kind : Token.Kind} {span contents tail : List Char}
    (h : Lexeme.Spells kind span contents) (hstops : Lexeme.Stops kind span tail) :
    Lexes (span ++ tail) tail (One kind contents) := by
  rintro ⟨rest, pos, levels, tokens⟩ rfl
  exact ⟨_, pos.after span, ⟨pos, rfl⟩, run_spelled ⟨[], pos, levels, tokens⟩ h hstops⟩

/-- A blank leaves no trace. -/
theorem lexes_space (tail : List Char) : Lexes (' ' :: tail) tail (· = []) := by
  rintro ⟨rest, pos, levels, tokens⟩ rfl
  exact ⟨[], pos.after [' '], rfl, run_blank ⟨[], pos, levels, tokens⟩ (.inl rfl) tail⟩

/-- The brackets and marks that stand between values. -/
def punctuation? : Char → Option Symbol
  | '[' => some .leftBracket
  | ']' => some .rightBracket
  | '\x7b' => some .leftBrace
  | '\x7d' => some .rightBrace
  | ',' => some .comma
  | ':' => some .colon
  | _ => none

/-- No symbol of two characters begins with one of these marks, and no comment does. -/
theorem pair_not_punctuation {c d : Char}
    (h : startsComment [c, d] = true ∨ ∃ s : Symbol, s.text.toList = [c, d]) :
    punctuation? c = none := by
  rcases h with h | ⟨s, h⟩
  · unfold startsComment at h
    split at h <;> simp_all [punctuation?]
  · cases s <;> simp [Symbol.text] at h <;> rw [← h.1] <;> rfl

/-- A single bracket, comma or colon is a token whatever follows it. -/
theorem lexes_punctuation {c : Char} {symbol : Symbol} (h : punctuation? c = some symbol)
    (tail : List Char) : Lexes (c :: tail) tail (One (.symbol symbol) [c]) := by
  have htext : symbol.text.toList = [c] := by
    unfold punctuation? at h
    split at h <;> cases h <;> rfl
  have hspells := Lexeme.Spells.symbol symbol
  rw [htext] at hspells
  refine lexes_spelled hspells ?_
  rintro c' d ⟨⟩ -
  have hnone : ¬ (startsComment [c, d] = true ∨ ∃ s : Symbol, s.text.toList = [c, d]) := by
    intro hpair
    rw [pair_not_punctuation hpair] at h
    cases h
  rw [not_or, not_exists] at hnone
  exact ⟨eq_false_of_ne_true hnone.1, hnone.2⟩

/-- A sign before a number. -/
theorem lexes_minus {d : Char} (hd : d.isDigit = true) (tail : List Char) :
    Lexes ('-' :: d :: tail) (d :: tail) (One (.symbol .minus) ['-']) := by
  refine lexes_spelled (.symbol .minus) ?_
  rintro c d' ⟨⟩ ⟨⟩
  refine ⟨rfl, fun s hs => ?_⟩
  have hmem : d ∈ s.text.toList.tail := by
    rw [hs]
    exact List.mem_singleton_self d
  rcases Lexeme.symbol_tail s d hmem with rfl | rfl | rfl | rfl | rfl <;> cases hd

/-- The words that stand for values. -/
def wordValue? : List Char → Option Keyword
  | ['n', 'i', 'l'] => some .nil
  | ['t', 'r', 'u', 'e'] => some .true_
  | ['f', 'a', 'l', 's', 'e'] => some .false_
  | _ => none

/-- A keyword in front of a delimiter is a token. -/
theorem lexes_word {c : Char} {letters : List Char} {k : Keyword}
    (h : wordValue? (c :: letters) = some k) {tail : List Char} (htail : Delimits tail) :
    Lexes (c :: (letters ++ tail)) tail (One (.keyword k) (c :: letters)) := by
  have htext : k.text.toList = c :: letters := by
    unfold wordValue? at h
    split at h <;> cases h <;> rename_i heq <;> cases heq <;> rfl
  have hspells := Lexeme.Spells.keyword k
  rw [htext] at hspells
  exact lexes_spelled hspells htail.not_part

/-- So is a numeral. -/
theorem lexes_number {text : List Char} (h : Lexeme.Plainly text) {tail : List Char}
    (htail : Delimits tail) : Lexes (text ++ tail) tail (One .number text) :=
  lexes_spelled (.number h.numeric)
    ⟨htail.not_part, fun _ _ => htail.startsFraction_eq_false⟩

/-- A string ends with its own quote, so anything may follow it. -/
theorem lexes_string {text : List Char} (h : ∀ c ∈ text, Text.IsReadable c) (tail : List Char) :
    Lexes ('"' :: (text.flatMap Text.quotedChar ++ '"' :: tail)) tail (One .string text) := by
  have hlexes : Lexes ('"' :: (text.flatMap Text.quotedChar ++ ['"']) ++ tail) tail
      (One .string text) :=
    lexes_spelled (.string (.inl rfl) (Lexeme.body_quoted h)) trivial
  rwa [List.cons_append, List.append_assoc] at hlexes

end Lexer

end Scriptlet
