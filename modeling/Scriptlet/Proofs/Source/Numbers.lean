/-
Numbers of a source. Every token for a number stands on what is spelled like one, and stops
where no longer number could be read. Reading decimal numbers takes whatever is spelled so
(`Number.ofText?_numeric`). So of the two places where a number is made from its digits,
the scanner and the grammar, neither ever fails: no source is refused for a text that is
spelled like a number, and none because a number was expected.

# The scanner

A number is refused in three ways before its digits are looked at as a whole, and the text
that is blamed is longer than the digits each time: it ends in a second point, or goes on
into a word. Of both it is shown that they are not spelled like numbers either
(`Lexeme.number_malformed`). For a word this is seen best from the other side: what is
spelled like a number and stops is scanned as one.

# The grammar

The tokens of a source come from a division of it (`Divides.part_of_mem`), so all numbers
among them are well spelled. Parsers that read on in such a list never expect a number
(`Mirror.wellSpelled`).
-/
import Scriptlet.Proofs.Grammar.Mirror
import Scriptlet.Proofs.Source.Division

namespace Scriptlet

-- ========================================================= scanner

namespace Lexeme

private theorem drop_length_takeWhile (p : Char → Bool) (text : List Char) :
    text.drop (text.takeWhile p).length = text.dropWhile p := by
  have h := congrArg (List.drop (text.takeWhile p).length)
    (List.takeWhile_append_dropWhile (p := p) (l := text))
  rw [List.drop_left] at h
  exact h.symm

private theorem head?_drop_fraction {text : List Char} (h : ∀ c ∈ text.head?, c.isDigit = false) :
    ∀ c ∈ (text.drop (fraction text).length).head?, c.isDigit = false := by
  unfold fraction
  split
  · rw [List.length_cons, Nat.add_comm, ← List.drop_drop, drop_length_takeWhile]
    exact head?_dropWhile _
  · exact h

private theorem head?_drop_exponentDigits {mark text : List Char}
    (h : mark = [] → ∀ c ∈ text.head?, c.isDigit = false) :
    ∀ c ∈ (text.drop (exponentDigits mark text).length).head?, c.isDigit = false := by
  unfold exponentDigits
  split
  · exact h (List.isEmpty_iff.1 ‹_›)
  · rw [drop_length_takeWhile]
    exact head?_dropWhile _

/-- Behind the digits of a numeral stands none that could be added. -/
theorem head?_numeral_rest (text : List Char) :
    ∀ c ∈ (numeral text).rest.head?, c.isDigit = false := by
  have hwhole : ∀ c ∈ (text.drop (text.takeWhile Char.isDigit).length).head?,
      c.isDigit = false := by
    rw [drop_length_takeWhile]
    exact head?_dropWhile text
  refine head?_drop_exponentDigits fun hmark => ?_
  rw [hmark, List.length_nil, List.drop_zero]
  exact head?_drop_fraction hwhole

/-- What is spelled like a number ends in a digit. -/
theorem Numeric.last {text : List Char} (h : Numeric text) :
    ∀ c ∈ text.getLast?, c.isDigit = true := by
  have hdigits (front : List Char) {digits : List Char} (hdigits : Digits digits) :
      ∀ c ∈ (front ++ digits).getLast?, c.isDigit = true := by
    intro c hc
    rw [List.getLast?_append_of_ne_nil _ hdigits.some] at hc
    exact hdigits.all c (List.mem_of_getLast? hc)
  obtain ⟨hwhole, hfraction, hexponent⟩ := h
  rename_i whole fraction exponent
  cases hexponent with
  | @power mark sign power _ _ hpower =>
    have hsplit : whole ++ (fraction ++ mark :: (sign ++ power))
        = whole ++ (fraction ++ mark :: sign) ++ power := by
      simp
    rw [hsplit]
    exact hdigits _ hpower
  | none =>
    cases hfraction with
    | none =>
      rw [List.append_nil, List.append_nil]
      exact hdigits [] hwhole
    | @point places hplaces =>
      have hsplit : whole ++ ('.' :: places ++ []) = whole ++ ['.'] ++ places := by
        simp
      rw [hsplit]
      exact hdigits _ hplaces

/-- Without the mark of an exponent, a number is made of digits and points. -/
theorem Numeric.plain {text : List Char} (h : Numeric text) (he : 'e' ∉ text) (hE : 'E' ∉ text) :
    ∀ c ∈ text, c.isDigit = true ∨ c = '.' := by
  obtain ⟨hwhole, hfraction, hexponent⟩ := h
  intro c hc
  cases hexponent with
  | power hmark =>
    rcases hmark with rfl | rfl
    · exact absurd (by simp) he
    · exact absurd (by simp) hE
  | none =>
    rw [List.append_nil] at hc
    rcases List.mem_append.1 hc with hc | hc
    · exact .inl (hwhole.all c hc)
    · cases hfraction with
      | none => cases hc
      | point hplaces =>
        rcases List.mem_cons.1 hc with rfl | hc
        · exact .inr rfl
        · exact .inl (hplaces.all c hc)

/-- A numeral that goes on into a word is not spelled like a number as far as the word
goes. -/
theorem not_numeric_of_tail {text : List Char}
    (htail : (numeral text).rest.takeWhile Text.isNamePart ≠ [])
    (hrefused : ∀ l, number text ≠ .ok l) :
    ¬ Numeric ((numeral text).digits ++ (numeral text).rest.takeWhile Text.isNamePart) := by
  intro hnumeric
  have htext : text = (numeral text).digits ++ (numeral text).rest.takeWhile Text.isNamePart
      ++ (numeral text).rest.dropWhile Text.isNamePart := by
    rw [List.append_assoc, List.takeWhile_append_dropWhile]
    exact numeral_eq_append text
  have hstops : Stops .number
      ((numeral text).digits ++ (numeral text).rest.takeWhile Text.isNamePart)
      ((numeral text).rest.dropWhile Text.isNamePart) := by
    refine ⟨head?_dropWhile _, fun he hE => ?_⟩
    -- the first character of the word would be one more digit
    obtain ⟨c, word, hword⟩ := List.exists_cons_of_ne_nil htail
    have hc : c ∈ (numeral text).rest.head? := by
      rw [← List.takeWhile_append_dropWhile (p := Text.isNamePart) (l := (numeral text).rest),
        hword]
      rfl
    have hpart : Text.isNamePart c = true :=
      List.all_eq_true.1 List.all_takeWhile c (hword ▸ List.mem_cons_self ..)
    rcases hnumeric.plain he hE c (by simp [hword]) with hdigit | rfl
    · rw [head?_numeral_rest text c hc] at hdigit
      cases hdigit
    · cases hpart
  have hread := number_of_spells hnumeric hstops
  rw [← htext] at hread
  exact hrefused _ hread

/-- What the scanner blames as malformed is not spelled like a number. -/
theorem number_malformed {c : Char} {rest : List Char} {text : String}
    (h : number (c :: rest) = .error (.malformedNumber text)) : ¬ Numeric text.toList := by
  have hrefused : ∀ l, number (c :: rest) ≠ .ok l := by
    intro l hl
    rw [h] at hl
    cases hl
  simp only [number] at h
  split at h
  · cases h
    intro hnumeric
    rw [String.toList_ofList] at hnumeric
    have hpoint := hnumeric.last '.' (by simp)
    cases hpoint
  split at h
  · cases h
  split at h
  · rename_i htail
    cases h
    rw [String.toList_ofList]
    exact not_numeric_of_tail (by simpa using htail) hrefused
  split at h
  · rename_i hfails
    cases h
    intro hnumeric
    rw [String.toList_ofList] at hnumeric
    have htaken := Number.ofText?_numeric hnumeric
    rw [Option.isNone_iff_eq_none.1 hfails] at htaken
    cases htaken
  · cases h

/-- The digits of a number as a whole are never refused. -/
theorem number_ne_refused {c : Char} (hc : c.isDigit = true) (rest : List Char) :
    number (c :: rest)
      ≠ .error (.malformedNumber (String.ofList (numeral (c :: rest)).digits)) := by
  intro h
  have hnot := number_malformed h
  rw [String.toList_ofList] at hnot
  simp only [number] at h
  split at h
  · simp at h
  split at h
  · cases h
  rename_i hpower
  exact hnot (numeral_numeric hc (by simpa [or_iff_not_imp_left] using hpower))

private theorem scan_malformed {c : Char} {rest : List Char} {text : String}
    (h : scan c rest = .error (.malformedNumber text)) : ¬ Numeric text.toList := by
  unfold scan at h
  split at h
  · cases h
  split at h
  · exact number_malformed h
  split at h
  · unfold string at h
    split at h <;> cases h
  split at h <;> cases h

end Lexeme

namespace Lexer

variable {s : Lexer} {layout : Layout} {e : LexError}

/-- A walk is refused for what some lexeme is refused for. -/
theorem run_error_cause (h : s.run layout = .error e) :
    ∃ c rest, Lexeme.scan c rest = .error e.cause := by
  induction hn : s.rest.length using Nat.strongRecOn generalizing s with
  | ind n ih =>
    by_cases hrest : s.rest = []
    · rw [run_of_rest_eq_nil hrest] at h
      cases h
    rw [run_eq_bind hrest] at h
    cases hstep : s.step layout with
    | ok t =>
      rw [hstep] at h
      exact ih _ (hn ▸ step_shortens hrest hstep) h rfl
    | error e' =>
      rw [hstep] at h
      cases h
      unfold step at hstep
      split at hstep
      · cases hstep
      · rename_i c rest _
        split at hstep
        · cases hstep
        split at hstep
        · cases hstep
        split at hstep
        · cases hstep
        split at hstep
        · rename_i cause hcause
          cases hstep
          exact ⟨c, rest, hcause⟩
        · cases hstep

end Lexer

-- ========================================================== tokens

/-- A token reads a number of a source: it stands at an offset where digits are, perhaps a
fraction and perhaps an exponent, has them for its lexeme, and is directly followed by
nothing that could go on with them. -/
def Token.ReadsNumber (source : List Char) (t : Token) : Prop :=
  ∃ front whole fraction exponent behind : List Char,
    source = front ++ (whole ++ (fraction ++ exponent) ++ behind)
      ∧ t.pos = .ofOffset source front.length
      ∧ t.lexeme = String.ofList (whole ++ (fraction ++ exponent))
      ∧ Lexeme.Digits whole ∧ Lexeme.IsFraction fraction ∧ Lexeme.IsExponent exponent
      ∧ (∀ c ∈ behind.head?, Text.isNamePart c = false)
      ∧ (exponent = [] → Lexeme.startsFraction behind = false)

/-- Every token behind a lexeme is a line end or made by a part of the division. -/
theorem Divides.part_of_mem_behind {parts : List Part} {last text source front : List Char}
    (h : Divides parts last text) (hsource : source = front ++ text) {t : Token}
    (ht : t ∈ Part.tokensBehind source last front.length parts) (hkind : t.kind ≠ .newline) :
    ∃ (p : Part) (before behind : List Char), source = before ++ (p.span ++ behind)
      ∧ t = ⟨p.kind, String.ofList p.contents, .ofOffset source before.length⟩
      ∧ Lexeme.Spells p.kind p.span p.contents ∧ Lexeme.Stops p.kind p.span behind := by
  induction h generalizing front with
  | last =>
    rw [Part.tokensBehind, List.mem_singleton] at ht
    rw [ht] at hkind
    exact absurd rfl hkind
  | @part p parts last behind _ hspells hstops _ ih =>
    have hsplit : source = front ++ p.gap ++ (p.span ++ behind) := by
      rw [hsource, List.append_assoc]
    rw [Part.tokensBehind, List.mem_append, List.mem_cons] at ht
    rcases ht with ht | rfl | ht
    · unfold Part.lineEnd at ht
      split at ht
      · rw [List.mem_singleton.1 ht] at hkind
        exact absurd rfl hkind
      · cases ht
    · refine ⟨p, front ++ p.gap, behind, hsplit, ?_, hspells, hstops⟩
      rw [Part.token, List.length_append]
    · have hlength : front.length + p.gap.length + p.span.length
          = (front ++ p.gap ++ p.span).length := by
        rw [List.length_append, List.length_append]
      rw [hlength] at ht
      exact ih (by rw [hsplit, List.append_assoc, List.append_assoc, List.append_assoc]) ht

/-- Every token of a divided source is a line end or made by a part of the division. -/
theorem Divides.part_of_mem {parts : List Part} {last source : List Char}
    (h : Divides parts last source) {t : Token} (ht : t ∈ Part.tokens source last parts)
    (hkind : t.kind ≠ .newline) :
    ∃ (p : Part) (before behind : List Char), source = before ++ (p.span ++ behind)
      ∧ t = ⟨p.kind, String.ofList p.contents, .ofOffset source before.length⟩
      ∧ Lexeme.Spells p.kind p.span p.contents ∧ Lexeme.Stops p.kind p.span behind := by
  cases h with
  | last => cases ht
  | @part p parts last behind _ hspells hstops hrest =>
    rcases List.mem_cons.1 ht with rfl | ht
    · refine ⟨p, p.gap, behind, rfl, ?_, hspells, hstops⟩
      rw [Part.token, Nat.zero_add]
    · rw [← List.length_append] at ht
      exact hrest.part_of_mem_behind (List.append_assoc p.gap p.span behind).symm ht hkind

/-- A number token was cut out of the source, as one of its parts, and the parts that are
numbers have the form of one. -/
private theorem Divides.readsNumber {parts : List Part} {last source : List Char}
    (h : Divides parts last source) {t : Token} (ht : t ∈ Part.tokens source last parts)
    (hkind : t.kind = .number) : t.ReadsNumber source := by
  obtain ⟨p, before, behind, hsource, rfl, hspells, hstops⟩ :=
    h.part_of_mem ht (by rw [hkind]; simp)
  obtain ⟨gap, span, kind, contents⟩ := p
  obtain rfl : kind = .number := hkind
  cases hspells with
  | number hnumeric =>
    cases hnumeric with
    | @mk whole fraction exponent hwhole hfraction hexponent =>
      refine ⟨before, whole, fraction, exponent, behind, hsource, rfl, rfl, hwhole, hfraction,
        hexponent, hstops.1, ?_⟩
      rintro rfl
      exact hstops.2 (Lexeme.not_mem_of_parts hwhole hfraction (.inl rfl))
        (Lexeme.not_mem_of_parts hwhole hfraction (.inr rfl))

/-- So its lexeme is read as a number. -/
theorem Token.ReadsNumber.isSome {source : List Char} {t : Token} (h : t.ReadsNumber source) :
    (Number.ofText? t.lexeme).isSome = true := by
  obtain ⟨_, _, _, _, _, -, -, hlexeme, hwhole, hfraction, hexponent, -, -⟩ := h
  rw [hlexeme]
  exact Number.ofText?_numeric (.mk hwhole hfraction hexponent)

-- ========================================================= grammar

namespace Parser

/-- All tokens for numbers are taken for numbers. -/
def WellSpelled (tokens : List Token) : Prop :=
  ∀ t ∈ tokens, t.kind = .number → (Number.ofText? t.lexeme).isSome = true

/-- What an error says was expected is what was asked for. -/
@[simp] theorem unexpected_expected (stop : Position) (expected : Expected)
    (tokens : List Token) : (unexpected stop expected tokens).expected = expected := by
  cases tokens <;> rfl

/-- Equal lists of well spelled tokens agree, and where they do no number is expected. -/
def Mirror.wellSpelled (stop : Position) : Mirror where
  stop := stop
  stop' := stop
  Tokens tokens tokens' := tokens = tokens' ∧ WellSpelled tokens
  Errors e _ := e.expected ≠ .number
  next := next_of_eq fun _ h t ht => h t (List.mem_cons_of_mem _ ht)
  refused := by
    intro tokens tokens' expected h hnumber hexpected
    rw [unexpected_expected] at hexpected
    obtain ⟨t, ht, hkind, hbad⟩ := hnumber hexpected
    have hgood := h.2 t (List.mem_of_mem_head? ht) hkind
    rw [hbad] at hgood
    cases hgood
  own := by
    intro e he
    rcases he with he | he <;> rw [he] <;> simp

/-- With all numbers well spelled no parser asks for one in vain. The mirror of equal
lists carries this through the grammar. -/
private theorem program_expected {stop : Position} {tokens : List Token} (h : WellSpelled tokens)
    {e : ParseError} (herror : program stop tokens = .error e) : e.expected ≠ .number := by
  have hresults : (Mirror.wellSpelled stop).Results
      (block stop (statement stop (depthFor tokens)) [] (depthFor tokens) tokens)
      (block stop (statement stop (depthFor tokens)) [] (depthFor tokens) tokens) :=
    block_reflects (reflects (.wellSpelled stop) (depthFor tokens)).2 [] _ ⟨rfl, h⟩
  simp only [program] at herror
  cases hblock : block stop (statement stop (depthFor tokens)) [] (depthFor tokens) tokens with
  | ok a =>
    rw [hblock] at herror
    cases herror
  | error e' =>
    rw [hblock] at herror hresults
    cases herror
    cases hresults with
    | error he => exact he

end Parser

-- ========================================================= sources

/-- A source that can be cut into tokens is divided into parts that make the tokens its
grammar sees. -/
theorem Lexer.divides_of_run {source : List Char} {s : Lexer}
    (h : (Lexer.ahead source).run .flat = .ok s) :
    ∃ parts last, Divides parts last source ∧ s.marks = Part.tokens source last parts := by
  obtain ⟨parts, last, hdivides⟩ := divides_of_pieces (Lexer.pieces_of_run (s := .ahead []) h)
  obtain ⟨t, ht, hmarks⟩ := Lexer.run_ahead_divides hdivides
  obtain rfl : s = t := Except.ok.inj (h.symm.trans ht)
  exact ⟨parts, last, hdivides, hmarks⟩

private theorem Token.readsNumber_of_tokenize {layout : Layout} {source : String}
    {tokens : List Token}
    (h : tokenize layout source = .ok tokens) {t : Token} (ht : t ∈ tokens)
    (hkind : t.kind = .number) : t.ReadsNumber source.toList := by
  obtain ⟨parts, last, hdivides, htokens⟩ := tokenize_divides h
  have hkept : t ∈ unindented tokens := by
    refine List.mem_filter.2 ⟨ht, ?_⟩
    rw [hkind]
    rfl
  rw [htokens, List.mem_append, List.mem_singleton] at hkept
  rcases hkept with hpart | rfl
  · exact hdivides.readsNumber hpart hkind
  · cases hkind

/-- A source is never refused for a text that is spelled like a number. -/
theorem tokenize_malformed {layout : Layout} {source : String} {e : LexError} {text : String}
    (h : tokenize layout source = .error e) (hcause : e.cause = .malformedNumber text) :
    ¬ Lexeme.Numeric text.toList := by
  unfold tokenize at h
  split at h
  · rename_i hrun
    cases h
    obtain ⟨c, rest, hscan⟩ := Lexer.run_error_cause hrun
    rw [hcause] at hscan
    exact Lexeme.scan_malformed hscan
  · cases h

private theorem Interpreter.parse_expected {layout : Layout} {source : String} {e : ParseError}
    (h : Interpreter.parse layout source = .error (.parse e)) : e.expected ≠ .number := by
  rw [Interpreter.parse_eq] at h
  split at h
  · cases h
  rename_i s hrun
  split at h
  · rename_i e' hprogram
    cases h
    obtain ⟨parts, last, hdivides, hmarks⟩ := Lexer.divides_of_run hrun
    refine Parser.program_expected (fun t ht hkind => ?_) hprogram
    rw [hmarks] at ht
    exact (hdivides.readsNumber ht hkind).isSome
  · cases h

/-- The numbers of any source. Every token for a number is spelled as digits, perhaps a
fraction and perhaps an exponent, and has neither a part of a name directly behind it nor,
without an exponent, a point and a digit. The scanner never refuses the digits of a number
as a whole, so that no source is refused for a text that is spelled like a number; and the
grammar never reports that a number was expected. -/
theorem Interpreter.numbers_wellSpelled (layout : Layout) (source : String) :
    (∀ tokens, tokenize layout source = .ok tokens →
        ∀ t ∈ tokens, t.kind = .number → t.ReadsNumber source.toList)
      ∧ (∀ c rest, c.isDigit = true →
        Lexeme.number (c :: rest)
          ≠ .error (.malformedNumber (String.ofList (Lexeme.numeral (c :: rest)).digits)))
      ∧ (∀ e text, tokenize layout source = .error e → e.cause = .malformedNumber text →
        ¬ Lexeme.Numeric text.toList)
      ∧ ∀ e, Interpreter.parse layout source = .error (.parse e) → e.expected ≠ .number := by
  refine ⟨?_, ?_, ?_, ?_⟩
  · intro tokens htokens t ht hkind
    exact Token.readsNumber_of_tokenize htokens ht hkind
  · intro c rest hc
    exact Lexeme.number_ne_refused hc rest
  · intro e text he hcause
    exact tokenize_malformed he hcause
  · intro e he
    exact Interpreter.parse_expected he

/-- Two numbers, behind the second of which stands a point that is none of it; a number with
a second fraction; and two numbers in a row. -/
theorem Interpreter.numbers_wellSpelled_exponents :
    (∃ tokens, tokenize {} "1.5e3 + 1e5.x" = .ok tokens
      ∧ (tokens.filter fun t => t.kind = .number).map (·.lexeme) = ["1.5e3", "1e5"]
      ∧ ∀ t ∈ tokens, t.kind = .number → t.ReadsNumber "1.5e3 + 1e5.x".toList)
    ∧ (tokenize {} "1.2.3" = .error ⟨.malformedNumber "1.2.", .start⟩
      ∧ ¬ Lexeme.Numeric "1.2.".toList)
    ∧ ∃ e, Interpreter.parse {} "1 2" = .error (.parse e) ∧ e.expected ≠ .number := by
  have hlexemes : (tokenize {} "1.5e3 + 1e5.x").toOption.map
      (fun tokens => (tokens.filter fun t => t.kind = .number).map (·.lexeme))
        = some ["1.5e3", "1e5"] := by
    decide +kernel
  refine ⟨?_, ?_, ?_⟩
  · cases htokens : tokenize {} "1.5e3 + 1e5.x" with
    | error e =>
      rw [htokens] at hlexemes
      cases hlexemes
    | ok tokens =>
      rw [htokens] at hlexemes
      refine ⟨tokens, rfl, Option.some.inj hlexemes, ?_⟩
      exact (Interpreter.numbers_wellSpelled {} "1.5e3 + 1e5.x").1 tokens htokens
  · have hrefused : tokenize {} "1.2.3" = .error ⟨.malformedNumber "1.2.", .start⟩ := by
      decide +kernel
    exact ⟨hrefused,
      (Interpreter.numbers_wellSpelled {} "1.2.3").2.2.1 _ _ hrefused rfl⟩
  · have hrefused : (Interpreter.parse {} "1 2").map (fun _ => ())
        = .error (.parse ⟨.endOfStatement, .token ⟨.number, "2", ⟨1, 3⟩⟩, ⟨1, 3⟩⟩) := by
      decide +kernel
    cases hparse : Interpreter.parse {} "1 2" with
    | ok program =>
      rw [hparse] at hrefused
      cases hrefused
    | error failure =>
      rw [hparse] at hrefused
      cases hrefused
      exact ⟨_, rfl, (Interpreter.numbers_wellSpelled {} "1 2").2.2.2 _ hparse⟩

end Scriptlet
