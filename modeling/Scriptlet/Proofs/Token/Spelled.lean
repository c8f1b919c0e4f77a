/-
How lexemes are spelled, and where they stop. `Lexeme.Spells` says of each kind of
lexeme on what characters it may stand, and with what contents; `Lexeme.Stops` says what
may not stand behind it, since it would be taken for a part of it. Scanning finds the
lexemes of this description and no others (`Lexeme.spells_of_scan`,
`Lexeme.scan_of_spells`), so whoever knows the two has no need to look into the scanner.

# Where a number stops

No letter, digit or underscore may follow any number. A point and a digit may follow
only a number with an exponent: behind one without, they would be its fraction or, if it
has one, a second point, which is refused.

# Where a symbol stops

The scanner takes the first symbol in its table that fits. The table has those of two
characters before those of one, so one character alone is taken only where no second one
fits, and `/` only where no comment begins.
-/
import Mathlib.Data.List.Nodup
import Scriptlet.Proofs.Token.Lines
import Scriptlet.Proofs.Token.Numeric

namespace Scriptlet

private theorem head?_of_takeWhile_eq_nil {p : Char → Bool} {text : List Char}
    (h : text.takeWhile p = []) : ∀ c ∈ text.head?, p c = false := by
  intro c hc
  obtain ⟨rest, rfl⟩ := List.head?_eq_some_iff.1 hc
  cases hp : p c with
  | false => rfl
  | true =>
    rw [List.takeWhile_cons_of_pos hp] at h
    cases h

/-- What is left behind a run of characters does not go on with it. -/
theorem head?_dropWhile {p : Char → Bool} (text : List Char) :
    ∀ c ∈ (text.dropWhile p).head?, p c = false := by
  intro c hc
  have h := List.head?_dropWhile_not p text
  rw [Option.mem_def.1 hc] at h
  simpa using h

namespace Lexer

private theorem startsComment_eq_false {c : Char} (hhash : c ≠ '#') (hslash : c ≠ '/')
    (rest : List Char) :
    startsComment (c :: rest) = false := by
  unfold startsComment
  split
  case h_1 heq => exact absurd (List.cons.inj heq).1 hhash
  case h_2 heq => exact absurd (List.cons.inj heq).1 hslash
  case h_3 => rfl

end Lexer

namespace Lexeme

-- ======================================================= spellings

/-- What a character means behind a backslash: four letters and digits stand for a
character that has no other short form, and whatever else is written there stands for
itself. -/
inductive Escape : Char → Char → Prop where
  | lineFeed : Escape 'n' '\n'
  | tab : Escape 't' '\t'
  | carriageReturn : Escape 'r' '\r'
  | null : Escape '0' '\x00'
  | itself {c : Char} (other : c ∉ ['n', 't', 'r', '0']) : Escape c c

/-- What may stand between two of the given quotes, and what it means: a backslash and
the character behind it are an escape, and the quote itself stands only in an escape. -/
inductive Body (quote : Char) : List Char → List Char → Prop where
  | nil : Body quote [] []
  | escape {c d : Char} {body contents : List Char} (means : Escape c d)
      (rest : Body quote body contents) : Body quote ('\\' :: c :: body) (d :: contents)
  | plain {c : Char} {body contents : List Char} (notEscape : c ≠ '\\') (notQuote : c ≠ quote)
      (rest : Body quote body contents) : Body quote (c :: body) (c :: contents)

/-- The characters that a lexeme of some kind stands on, and its contents. -/
inductive Spells : Token.Kind → List Char → List Char → Prop where
  | name {word : List Char} (isName : Text.isName word = true)
      (free : Keyword.ofText? (String.ofList word) = none) : Spells .name word word
  | keyword (k : Keyword) : Spells (.keyword k) k.text.toList k.text.toList
  | number {digits : List Char} (numeric : Numeric digits) : Spells .number digits digits
  | string {quote : Char} {body contents : List Char} (quoted : quote = '"' ∨ quote = '\'')
      (meant : Body quote body contents) : Spells .string (quote :: (body ++ [quote])) contents
  | symbol (s : Symbol) : Spells (.symbol s) s.text.toList s.text.toList

/-- A lexeme on `span` is as long as it can be before `behind`: no word or number runs on
into a word, no number into a point and digits that would be its fraction, and no symbol
of one character into what would make a symbol of two of it, or a comment. -/
def Stops : Token.Kind → List Char → List Char → Prop
  | .name, _, behind | .keyword _, _, behind => ∀ c ∈ behind.head?, Text.isNamePart c = false
  | .number, span, behind => (∀ c ∈ behind.head?, Text.isNamePart c = false)
      ∧ ('e' ∉ span → 'E' ∉ span → startsFraction behind = false)
  | .symbol _, span, behind => ∀ c d, span = [c] → d ∈ behind.head? →
      Lexer.startsComment [c, d] = false ∧ ∀ s : Symbol, s.text.toList ≠ [c, d]
  | _, _, _ => True

-- ========================================================== words

private theorem isNamePart_of_isName {word : List Char} (h : Text.isName word = true) :
    ∀ c ∈ word, Text.isNamePart c = true := by
  cases word with
  | nil => exact fun _ hc => nomatch hc
  | cons c rest =>
    obtain ⟨hhead, hparts⟩ := Bool.and_eq_true_iff.1 h
    exact List.forall_mem_cons.2 ⟨Text.isNamePart_of_isNameHead hhead, List.all_eq_true.1 hparts⟩

/-- Every keyword is spelled like a name, and its spelling is its own. -/
theorem keyword_text (k : Keyword) :
    Text.isName k.text.toList = true ∧ Keyword.ofText? k.text = some k := by
  cases k <;> exact ⟨by decide, by decide⟩

/-- A word that is scanned is a name or a keyword, and the longest there is. -/
private theorem word_spells {c : Char} {rest : List Char} (hc : Text.isNameHead c = true) :
    Spells (word (c :: rest)).kind (word (c :: rest)).span (word (c :: rest)).contents
      ∧ Stops (word (c :: rest)).kind (word (c :: rest)).span (word (c :: rest)).rest := by
  have hletters : (c :: rest).takeWhile Text.isNamePart = c :: rest.takeWhile Text.isNamePart :=
    List.takeWhile_cons_of_pos (Text.isNamePart_of_isNameHead hc)
  have hstops := head?_dropWhile (p := Text.isNamePart) (c :: rest)
  simp only [word]
  split
  · rename_i k hk
    have htext : k.text == String.ofList ((c :: rest).takeWhile Text.isNamePart) :=
      List.find?_some (p := fun k : Keyword => k.text == _) hk
    have hspan : (c :: rest).takeWhile Text.isNamePart = k.text.toList := by
      rw [eq_of_beq htext, String.toList_ofList]
    rw [hspan]
    exact ⟨.keyword k, hstops⟩
  · rename_i hnone
    refine ⟨.name ?_ hnone, hstops⟩
    rw [hletters]
    exact Bool.and_eq_true_iff.2 ⟨hc, List.all_takeWhile⟩

/-- A name that is written is scanned as it is, as long as what follows is no part
of one. -/
private theorem word_of_spells {word behind : List Char} (hname : Text.isName word = true)
    (hstops : ∀ c ∈ behind.head?, Text.isNamePart c = false) :
    Lexeme.word (word ++ behind)
      = ⟨match Keyword.ofText? (String.ofList word) with
          | some k => .keyword k
          | none => .name, word, word, behind⟩ := by
  obtain ⟨htake, hdrop⟩ := takeWhile_front (isNamePart_of_isName hname) hstops
  cases hk : Keyword.ofText? (String.ofList word) <;>
    simp only [Lexeme.word, htake, hdrop, hk]

-- ======================================================== numbers

private theorem not_isDigit {c : Char} (h : Text.isNamePart c = false) : c.isDigit = false := by
  cases hc : c.isDigit with
  | false => rfl
  | true =>
    have hlow : c.toNat < 128 :=
      Nat.lt_of_le_of_lt (Char.isDigit_iff_toNat.1 hc).2 (by decide)
    have hpart : Text.isNamePart c = true := by
      simp [Text.isNamePart, Text.isNumeral, hlow, hc]
    rw [hpart] at h
    cases h

private theorem isNameHead_of_isDigit {c : Char} (h : c.isDigit = true) :
    Text.isNameHead c = false := by
  have hdigit : c.toNat ≤ 57 := (Char.isDigit_iff_toNat.1 h).2
  have hlow : c.toNat < 128 := Nat.lt_of_le_of_lt hdigit (by decide)
  have hupper : c.isUpper = false := decide_eq_false fun hc =>
    absurd (Nat.le_trans (UInt32.le_iff_toNat_le.1 hc.1) hdigit) (by decide)
  have hlower : c.isLower = false := Bool.eq_false_iff.2 fun hc =>
    absurd (Nat.le_trans (UInt32.le_iff_toNat_le.1
      (of_decide_eq_true (Bool.and_eq_true_iff.1 hc).1)) hdigit) (by decide)
  have halpha : c.isAlpha = false := Bool.or_eq_false_iff.2 ⟨hupper, hlower⟩
  have hunderscore : c ≠ '_' := Number.ne_of_isDigit h rfl
  simp [Text.isNameHead, Text.isLetter, hlow, halpha, hunderscore]

/-- The mark of an exponent, if there is one, may have a sign. -/
theorem exponentMark_cases (text : List Char) :
    exponentMark text = [] ∨ ∃ e sign, (e = 'e' ∨ e = 'E')
      ∧ (sign = [] ∨ sign = ['+'] ∨ sign = ['-']) ∧ exponentMark text = e :: sign := by
  have hmark {e : Char} (h : (e = 'e' || e = 'E') = true) : e = 'e' ∨ e = 'E' := by simpa using h
  match text with
  | [] => exact .inl rfl
  | [e] =>
    simp only [exponentMark]
    split
    · exact .inr ⟨e, [], hmark ‹_›, .inl rfl, rfl⟩
    · exact .inl rfl
  | e :: s :: rest =>
    simp only [exponentMark]
    split
    · rename_i he
      split
      · rename_i hs
        have hs : s = '+' ∨ s = '-' := by simpa using hs
        refine .inr ⟨e, [s], hmark he, .inr ?_, rfl⟩
        exact hs.imp (fun h => by rw [h]) fun h => by rw [h]
      · exact .inr ⟨e, [], hmark he, .inl rfl, rfl⟩
    · exact .inl rfl

private theorem fraction_isFraction (text : List Char) : IsFraction (fraction text) := by
  unfold fraction
  split
  · rename_i h
    unfold startsFraction at h
    split at h
    · rename_i d rest
      refine .point ⟨?_, List.all_eq_true.1 List.all_takeWhile⟩
      simp [h]
    · cases h
  · exact .none

private theorem startsFraction_of_fraction {text : List Char} (h : fraction text = []) :
    startsFraction text = false := by
  unfold fraction at h
  split at h
  · cases h
  · exact eq_false_of_ne_true ‹_›

private theorem digits_takeWhile {c : Char} {rest : List Char} (hc : c.isDigit = true) :
    Digits ((c :: rest).takeWhile Char.isDigit) :=
  ⟨by simp [hc], List.all_eq_true.1 List.all_takeWhile⟩

/-- A numeral whose exponent, if it has one, has digits is spelled like a number. -/
theorem numeral_numeric {c : Char} {rest : List Char} (hc : c.isDigit = true)
    (hpower : (numeral (c :: rest)).mark = [] ∨ (numeral (c :: rest)).power ≠ []) :
    Numeric (numeral (c :: rest)).digits := by
  have hexponent : IsExponent ((numeral (c :: rest)).mark ++ (numeral (c :: rest)).power) := by
    simp only [numeral] at hpower ⊢
    rcases exponentMark_cases _ with hmark | ⟨e, sign, he, hsign, hmark⟩
    · rw [hmark]
      exact .none
    · rw [hmark] at hpower ⊢
      refine .power he hsign ⟨hpower.resolve_left (by simp), ?_⟩
      exact List.all_eq_true.1 List.all_takeWhile
  have hwhole : Digits (numeral (c :: rest)).whole := digits_takeWhile hc
  have hfraction : IsFraction (numeral (c :: rest)).fraction := fraction_isFraction _
  simpa only [Numeral.digits, List.append_assoc] using Numeric.mk hwhole hfraction hexponent

/-- Behind a numeral that has neither fraction nor exponent no fraction begins. -/
theorem startsFraction_numeral {text : List Char} (hfraction : (numeral text).fraction = [])
    (hmark : (numeral text).mark = []) : startsFraction (numeral text).rest = false := by
  simp only [numeral] at hfraction hmark ⊢
  rw [hfraction, List.length_nil, List.drop_zero] at hmark ⊢
  rw [hmark]
  exact startsFraction_of_fraction hfraction

/-- A numeral that is scanned has the form of one, and what follows it goes on with none
of its parts. -/
private theorem number_spells {c : Char} {rest : List Char} {l : Lexeme} (hc : c.isDigit = true)
    (h : number (c :: rest) = .ok l) :
    Spells l.kind l.span l.contents ∧ Stops l.kind l.span l.rest := by
  simp only [number] at h
  split at h
  · cases h
  rename_i hfraction
  split at h
  · cases h
  rename_i hpower
  split at h
  · cases h
  rename_i htail
  split at h
  · cases h
  · cases h
    have hnumeric : Numeric (numeral (c :: rest)).digits := numeral_numeric hc (by
      simpa [or_iff_not_imp_left] using hpower)
    refine ⟨.number hnumeric, head?_of_takeWhile_eq_nil (by simpa using htail), fun he hE => ?_⟩
    have hmark : (numeral (c :: rest)).mark = [] := by
      rcases exponentMark_cases _ with hmark | ⟨e, sign, he', -, hmark⟩
      · exact hmark
      · have hmem : e ∈ (numeral (c :: rest)).digits := by
          have hmark : (numeral (c :: rest)).mark = e :: sign := hmark
          simp [Numeral.digits, hmark]
        rcases he' with rfl | rfl
        · exact absurd hmem he
        · exact absurd hmem hE
    by_cases hnone : (numeral (c :: rest)).fraction = []
    · exact startsFraction_numeral hnone hmark
    · simpa [hnone, hmark] using hfraction

/-- No exponent begins with what is no part of a word. -/
theorem exponentMark_eq_nil {text : List Char}
    (h : ∀ c ∈ text.head?, Text.isNamePart c = false) : exponentMark text = [] := by
  have hmark {c : Char} (hc : Text.isNamePart c = false) : (c = 'e' || c = 'E') = false := by
    have he : c ≠ 'e' := by
      rintro rfl
      cases hc
    have hE : c ≠ 'E' := by
      rintro rfl
      cases hc
    simp [he, hE]
  match text with
  | [] => rfl
  | [c] => simp [exponentMark, hmark (h c rfl)]
  | c :: d :: rest => simp [exponentMark, hmark (h c rfl)]

/-- Before what is no part of a word, an exponent is found as its mark and its digits. -/
theorem exponent_of_isExponent {exponent behind : List Char} (h : IsExponent exponent)
    (hstops : ∀ c ∈ behind.head?, Text.isNamePart c = false) :
    ∃ mark power, exponent = mark ++ power ∧ (mark = [] ↔ power = [])
      ∧ exponentMark (exponent ++ behind) = mark
      ∧ exponentDigits mark (power ++ behind) = power := by
  cases h with
  | none => exact ⟨[], [], rfl, .rfl, exponentMark_eq_nil hstops, rfl⟩
  | @power mark sign power hmark hsign hpower =>
    obtain ⟨d, ds, rfl⟩ := List.exists_cons_of_ne_nil hpower.some
    have hd : d.isDigit = true := hpower.all d (List.mem_cons_self ..)
    have hmark : (mark = 'e' || mark = 'E') = true := by simpa using hmark
    refine ⟨mark :: sign, d :: ds, rfl, iff_of_false nofun nofun, ?_, ?_⟩
    · rcases hsign with rfl | rfl | rfl
      · have hplus : d ≠ '+' := by
          rintro rfl
          cases hd
        have hminus : d ≠ '-' := by
          rintro rfl
          cases hd
        simp [exponentMark, hmark, hplus, hminus]
      · simp [exponentMark, hmark]
      · simp [exponentMark, hmark]
    · exact (takeWhile_front hpower.all fun c hc => not_isDigit (hstops c hc)).1

/-- Before what is no digit and begins no fraction, a fraction is found as it is. -/
theorem fraction_of_isFraction {text tail : List Char} (h : IsFraction text)
    (htail : ∀ c ∈ tail.head?, c.isDigit = false)
    (hpoint : text = [] → startsFraction tail = false) : fraction (text ++ tail) = text := by
  cases h with
  | none =>
    unfold fraction
    rw [List.nil_append, hpoint rfl]
    rfl
  | @point places hplaces =>
    have htake := (takeWhile_front hplaces.all htail).1
    obtain ⟨d, ds, rfl⟩ := List.exists_cons_of_ne_nil hplaces.some
    have hd : d.isDigit = true := hplaces.all d (List.mem_cons_self ..)
    have hstarts : startsFraction ('.' :: (d :: ds ++ tail)) = true := hd
    rw [List.cons_append, fraction, if_pos hstarts, List.drop_one, List.tail_cons, htake]

/-- Where no word and no fraction goes on, a number is taken apart as it was put
together. -/
theorem numeral_of_parts {whole fraction exponent behind : List Char} (hwhole : Digits whole)
    (hfraction : IsFraction fraction) (hexponent : IsExponent exponent)
    (hstops : ∀ c ∈ behind.head?, Text.isNamePart c = false)
    (hpoint : exponent = [] → startsFraction behind = false) :
    ∃ mark power, exponent = mark ++ power ∧ (mark = [] ↔ power = [])
      ∧ numeral (whole ++ (fraction ++ (exponent ++ behind)))
        = ⟨whole, fraction, mark, power, behind⟩ := by
  obtain ⟨mark, power, hparts, hsome, hmark, hpower⟩ := exponent_of_isExponent hexponent hstops
  have hafter : ∀ c ∈ (exponent ++ behind).head?, c.isDigit = false := by
    cases hexponent with
    | none => exact fun c hc => not_isDigit (hstops c hc)
    | power he =>
      rintro c ⟨⟩
      rcases he with rfl | rfl <;> rfl
  have hnone : fraction = [] → startsFraction (exponent ++ behind) = false := by
    intro _
    cases hexponent with
    | none => exact hpoint rfl
    | power he => rcases he with rfl | rfl <;> rfl
  have hbehind : ∀ c ∈ (fraction ++ (exponent ++ behind)).head?, c.isDigit = false := by
    cases hfraction with
    | none => exact hafter
    | point =>
      rintro c ⟨⟩
      rfl
  refine ⟨mark, power, hparts, hsome, ?_⟩
  simp only [numeral, (takeWhile_front hwhole.all hbehind).1, List.drop_left,
    fraction_of_isFraction hfraction hafter hnone, hmark]
  rw [hparts, List.append_assoc, List.drop_left, hpower, List.drop_left]

/-- Digits and fractions have no mark of an exponent in them. -/
theorem not_mem_of_parts {whole fraction : List Char} (hwhole : Digits whole)
    (hfraction : IsFraction fraction) {e : Char} (he : e = 'e' ∨ e = 'E') :
    e ∉ whole ++ (fraction ++ []) := by
  have hdigits {text : List Char} (h : Digits text) : e ∉ text := by
    intro hmem
    have hdigit := h.all e hmem
    rcases he with rfl | rfl <;> cases hdigit
  have hpoint : e ≠ '.' := by
    rcases he with rfl | rfl <;> decide
  rw [List.append_nil, List.mem_append, not_or]
  refine ⟨hdigits hwhole, ?_⟩
  cases hfraction with
  | none => exact List.not_mem_nil
  | point hplaces => exact fun hmem => (List.mem_cons.1 hmem).elim hpoint (hdigits hplaces)

/-- A numeral that is written is scanned part by part: each part ends where the next one
begins. -/
theorem number_of_spells {digits behind : List Char} (h : Numeric digits)
    (hstops : Stops .number digits behind) :
    number (digits ++ behind) = .ok ⟨.number, digits, digits, behind⟩ := by
  obtain ⟨hpart, hpoint⟩ := hstops
  have hend : behind.takeWhile Text.isNamePart = [] := by
    rw [← List.nil_append behind]
    exact (takeWhile_front (List.forall_mem_nil _) hpart).1
  have htaken := Number.ofText?_numeric h
  cases h with
  | @mk whole fraction exponent hwhole hfraction hexponent =>
    have hpoint : exponent = [] → startsFraction behind = false := by
      rintro rfl
      exact hpoint (not_mem_of_parts hwhole hfraction (.inl rfl))
        (not_mem_of_parts hwhole hfraction (.inr rfl))
    obtain ⟨mark, power, rfl, hsome, hnumeral⟩ :=
      numeral_of_parts hwhole hfraction hexponent hpart hpoint
    have hsecond : mark = [] → startsFraction behind = false := by
      intro hmark
      exact hpoint (by rw [hmark, hsome.1 hmark]; rfl)
    -- neither of the two errors of the scanner applies
    have hpoints : (!fraction.isEmpty && mark.isEmpty && startsFraction behind) = false := by
      by_cases hmark : mark = []
      · rw [hsecond hmark, Bool.and_false]
      · simp [hmark]
    have hpowers : (!mark.isEmpty && power.isEmpty) = false := by
      by_cases hmark : mark = []
      · simp [hmark]
      · simp [mt hsome.2 hmark]
    simp only [List.append_assoc] at hnumeral htaken
    rw [Option.isSome_iff_ne_none, ne_eq, ← Option.isNone_iff_eq_none] at htaken
    simp only [number, List.append_assoc, hnumeral, hpoints, hpowers, hend, Numeral.digits, htaken]
    rfl

-- ======================================================== strings

private theorem unescaped_cons {c : Char} (hc : c ≠ '\\') (rest : List Char) :
    unescaped (c :: rest) = c :: unescaped rest := by
  rw [unescaped]
  intro _ _ heq
  exact absurd heq hc

/-- The scanner resolves every escape, and to what the table says. -/
theorem escape_iff {c d : Char} : Escape c d ↔ unescapedChar c = d := by
  constructor
  · rintro (_ | _ | _ | _ | ⟨hother⟩)
    case itself =>
      simp only [List.mem_cons, List.not_mem_nil, or_false, not_or] at hother
      obtain ⟨hn, ht, hr, h0⟩ := hother
      unfold unescapedChar
      split <;> first | rfl | contradiction
    all_goals rfl
  · rintro rfl
    unfold unescapedChar
    split
    case h_5 hn ht hr h0 =>
      refine .itself ?_
      simp only [List.mem_cons, List.not_mem_nil, or_false, not_or]
      exact ⟨hn, ht, hr, h0⟩
    · exact .lineFeed
    · exact .tab
    · exact .carriageReturn
    · exact .null

/-- What is found up to the closing quote is a body, with the meaning that its escapes
give it. -/
private theorem body_of_body? {quote : Char} {text body : List Char}
    (h : body? quote text = some body) :
    Body quote body (unescaped body) := by
  fun_induction body? quote text generalizing body with
  | case1 c rest ih =>
    obtain ⟨inner, hinner, rfl⟩ := Option.map_eq_some_iff.1 h
    exact .escape (escape_iff.2 rfl) (ih hinner)
  | case2 =>
    cases h
    exact .nil
  | case3 c rest hescape hc ih =>
    obtain ⟨inner, hinner, rfl⟩ := Option.map_eq_some_iff.1 h
    have hslash : c ≠ '\\' := by
      rintro rfl
      cases rest with
      | nil => cases hinner
      | cons d others => exact hescape d others rfl rfl
    rw [unescaped_cons hslash]
    exact .plain hslash hc (ih hinner)
  | case4 => cases h

/-- A body that is written is found as far as the quote behind it, since every quote
inside it is escaped. -/
private theorem body?_of_body {quote : Char} (hquote : quote ≠ '\\') {body contents : List Char}
    (h : Body quote body contents) (behind : List Char) :
    body? quote (body ++ quote :: behind) = some body ∧ unescaped body = contents := by
  induction h with
  | nil =>
    rw [List.nil_append, body?_cons hquote, if_pos rfl]
    exact ⟨rfl, rfl⟩
  | escape means rest ih =>
    simp only [List.cons_append, body?, unescaped, ih.1, ih.2, escape_iff.1 means]
    exact ⟨rfl, trivial⟩
  | plain hslash hc rest ih =>
    rw [List.cons_append, body?_cons hslash, if_neg hc, ih.1, unescaped_cons hslash, ih.2]
    exact ⟨rfl, rfl⟩

private theorem string_spells {quote : Char} {text : List Char} {l : Lexeme}
    (hquote : quote = '"' ∨ quote = '\'') (h : string quote text = .ok l) :
    Spells l.kind l.span l.contents ∧ Stops l.kind l.span l.rest := by
  unfold string at h
  split at h
  · cases h
  · rename_i body hbody
    cases h
    exact ⟨.string hquote (body_of_body? hbody), trivial⟩

private theorem string_of_body {quote : Char} (hquote : quote ≠ '\\') {body contents : List Char}
    (h : Body quote body contents) (behind : List Char) :
    string quote (body ++ quote :: behind)
      = .ok ⟨.string, contents, quote :: (body ++ [quote]), behind⟩ := by
  obtain ⟨hbody, hcontents⟩ := body?_of_body hquote h behind
  have hdrop : (body ++ quote :: behind).drop (body.length + 1) = behind := by
    rw [← List.drop_drop, List.drop_left, List.drop_one, List.tail_cons]
  simp only [string, hbody, hcontents, hdrop, List.cons_append]

-- ======================================================== symbols

/-- In the table, symbols of two characters stand before those of one. -/
theorem symbols_split : ∃ pairs singles, symbols = pairs ++ singles
    ∧ (∀ entry ∈ pairs, entry.1.length = 2) ∧ ∀ entry ∈ singles, entry.1.length = 1 :=
  ⟨symbols.take 12, symbols.drop 12, (List.take_append_drop 12 symbols).symm, by decide, by decide⟩

/-- The table has every symbol, under its spelling. -/
theorem mem_symbols (s : Symbol) : (s.text.toList, s) ∈ symbols := by
  cases s <;> decide

/-- The table of symbols as far as it is needed here: the texts are those of the symbols,
they differ, and they have one or two characters. -/
private theorem symbols_spelled : ∀ entry ∈ symbols, entry.1 = entry.2.text.toList := by
  decide

private theorem symbols_nodup : (symbols.map Prod.fst).Nodup := by
  decide

private theorem symbols_length : ∀ entry ∈ symbols, entry.1.length = 1 ∨ entry.1.length = 2 := by
  decide

/-- The characters that a symbol of two can end with. -/
theorem symbol_tail (s : Symbol) :
    ∀ d ∈ s.text.toList.tail, d = '=' ∨ d = '>' ∨ d = '*' ∨ d = '&' ∨ d = '|' := by
  cases s <;> simp [Symbol.text]

/-- A symbol of one character is only taken where no symbol of two fits. -/
theorem symbol?_longest {c d : Char} {rest : List Char} {s : Symbol}
    (h : symbol? (c :: d :: rest) = some ([c], s)) (s' : Symbol) : s'.text.toList ≠ [c, d] := by
  intro htext
  obtain ⟨pairs, singles, hsplit, hpairs, hsingles⟩ := symbols_split
  have hmem : ([c, d], s') ∈ pairs ++ singles := by
    rw [← hsplit, ← htext]
    exact mem_symbols s'
  rw [symbol?, hsplit, List.find?_append] at h
  cases hfound : pairs.find? fun entry => entry.1.isPrefixOf (c :: d :: rest) with
  | some entry =>
    rw [hfound] at h
    cases h
    cases hpairs _ (List.mem_of_find?_eq_some hfound)
  | none =>
    rcases List.mem_append.1 hmem with hpair | hsingle
    · have hnot := List.find?_eq_none.1 hfound _ hpair
      simp at hnot
    · cases hsingles _ hsingle

/-- The symbol that is found is the longest one, because those of two characters come
first in the table. -/
private theorem symbol_spells {text spelling : List Char} {s : Symbol}
    (h : symbol? text = some (spelling, s)) (hcomment : Lexer.startsComment text = false) :
    Spells (.symbol s) spelling spelling
      ∧ Stops (.symbol s) spelling (text.drop spelling.length) := by
  have hspelling : spelling = s.text.toList := symbols_spelled _ (List.mem_of_find?_eq_some h)
  refine ⟨?_, ?_⟩
  · rw [hspelling]
    exact .symbol s
  · rintro c d rfl hd
    obtain ⟨rest, rfl⟩ : ∃ rest, text = c :: rest := by
      obtain ⟨rest, rfl⟩ := symbol?_isPrefix h
      exact ⟨rest, rfl⟩
    obtain ⟨behind, rfl⟩ := List.head?_eq_some_iff.1 hd
    refine ⟨?_, symbol?_longest h⟩
    rw [← Lexer.startsComment_append c d [] behind]
    exact hcomment

/-- A symbol is found where it stands, if it stops there. -/
theorem symbol?_of_stops {s : Symbol} {behind : List Char}
    (hstops : Stops (.symbol s) s.text.toList behind) :
    symbol? (s.text.toList ++ behind) = some (s.text.toList, s) := by
  have hmem := mem_symbols s
  have hfits : s.text.toList.isPrefixOf (s.text.toList ++ behind) = true :=
    List.isPrefixOf_iff_prefix.2 (List.prefix_append _ _)
  have hsome : (symbol? (s.text.toList ++ behind)).isSome = true :=
    List.find?_isSome.2 ⟨_, hmem, hfits⟩
  obtain ⟨⟨spelling, s'⟩, hfound⟩ := Option.isSome_iff_exists.1 hsome
  have hmem' : (spelling, s') ∈ symbols := List.mem_of_find?_eq_some hfound
  have hprefix : spelling <+: s.text.toList ++ behind := symbol?_isPrefix hfound
  -- one character found for two, or two for one, is what the table and `hstops` rule out
  have hlengths : spelling.length = s.text.toList.length := by
    rcases symbols_length _ hmem with hone | htwo
    · obtain ⟨c, hc⟩ : ∃ c, s.text.toList = [c] := List.length_eq_one_iff.1 hone
      rcases symbols_length _ hmem' with hone' | htwo'
      · exact hone'.trans hone.symm
      · obtain ⟨a, d, rfl⟩ := List.length_eq_two.1 htwo'
        rw [hc] at hprefix
        obtain ⟨rest, hrest⟩ := hprefix
        obtain ⟨rfl, rfl⟩ : a = c ∧ d :: rest = behind := by simpa using hrest
        exact absurd (symbols_spelled _ hmem').symm ((hstops a d hc rfl).2 s')
    · obtain ⟨c, d, hcd⟩ : ∃ c d, s.text.toList = [c, d] := List.length_eq_two.1 htwo
      rcases symbols_length _ hmem' with hone' | htwo'
      · obtain ⟨a, rfl⟩ := List.length_eq_one_iff.1 hone'
        rw [hcd] at hprefix hfound
        obtain ⟨rest, hrest⟩ := hprefix
        obtain ⟨rfl, -⟩ : a = c ∧ rest = d :: behind := by simpa using hrest
        exact absurd hcd (symbol?_longest hfound s)
      · exact htwo'.trans htwo.symm
  have hspelling : spelling = s.text.toList := by
    rw [List.prefix_iff_eq_take.1 hprefix, hlengths, List.take_left]
  rw [hfound, List.inj_on_of_nodup_map symbols_nodup hmem' hmem hspelling]

/-- No comment begins where a symbol stands and stops. -/
theorem startsComment_symbol {s : Symbol} {behind : List Char}
    (hstops : Stops (.symbol s) s.text.toList behind) :
    Lexer.startsComment (s.text.toList ++ behind) = false := by
  have hnone : Lexer.startsComment s.text.toList = false := by
    cases s <;> rfl
  rcases symbols_length _ (mem_symbols s) with hone | htwo
  · obtain ⟨c, hc⟩ : ∃ c, s.text.toList = [c] := List.length_eq_one_iff.1 hone
    rw [hc] at hnone ⊢
    cases behind with
    | nil => exact hnone
    | cons d rest =>
      rw [List.cons_append, List.nil_append, ← (hstops c d hc rfl).1]
      exact Lexer.startsComment_append c d [] rest
  · obtain ⟨c, d, hcd⟩ : ∃ c d, s.text.toList = [c, d] := List.length_eq_two.1 htwo
    rw [hcd] at hnone ⊢
    exact (Lexer.startsComment_append c d [] behind).trans hnone

-- ==================================================== separators

/-- Before a blank or a line end, every lexeme stops. -/
theorem stops_of_separated {kind : Token.Kind} {span contents behind : List Char}
    (h : Spells kind span contents) (hbehind : ∀ c ∈ behind.head?, c = ' ' ∨ c = '\n') :
    Stops kind span behind := by
  have hpart : ∀ c ∈ behind.head?, Text.isNamePart c = false := by
    intro c hc
    rcases hbehind c hc with rfl | rfl <;> decide
  cases h with
  | name | keyword => exact hpart
  | number =>
    refine ⟨hpart, fun _ _ => ?_⟩
    cases behind with
    | nil => rfl
    | cons c rest => rcases hbehind c rfl with rfl | rfl <;> rfl
  | string => trivial
  | symbol s =>
    intro c d hc hd
    have hslash : d ≠ '/' := by
      rintro rfl
      rcases hbehind _ hd with h | h <;> cases h
    have hnone : Lexer.startsComment s.text.toList = false := by
      cases s <;> rfl
    refine ⟨?_, fun s' hs' => ?_⟩
    · rw [hc] at hnone
      unfold Lexer.startsComment at hnone ⊢
      split <;> simp_all
    -- the second character of a symbol is never a blank or a line feed
    · have hmem : d ∈ s'.text.toList.tail := by
        rw [hs']
        exact List.mem_singleton_self d
      rcases hbehind d hd with rfl | rfl <;>
        rcases symbol_tail s' _ hmem with h | h | h | h | h <;> cases h

private theorem startsFraction_newline (c : Char) (rest tail : List Char) :
    startsFraction (c :: (rest ++ '\n' :: tail)) = startsFraction (c :: rest) := by
  by_cases hc : c = '.'
  · subst hc
    cases rest <;> rfl
  · have hnone (others : List Char) : startsFraction (c :: others) = false := by
      unfold startsFraction
      split <;> simp_all
    rw [hnone, hnone]

/-- A lexeme that stops at the end of a text stops there too if another line follows. -/
theorem stops_newline {kind : Token.Kind} {span contents behind : List Char}
    (h : Spells kind span contents) (hstops : Stops kind span behind) (tail : List Char) :
    Stops kind span (behind ++ '\n' :: tail) := by
  obtain - | ⟨c, rest⟩ := behind
  · refine stops_of_separated h ?_
    rintro c ⟨⟩
    exact .inr rfl
  cases h with
  | name | keyword | string | symbol => exact hstops
  | number =>
    refine ⟨hstops.1, fun he hE => ?_⟩
    rw [List.cons_append, startsFraction_newline]
    exact hstops.2 he hE

-- ============================================================ scan

/-- A lexeme that is scanned is spelled as one of its kind, and stops where it ends. -/
theorem spells_of_scan {c : Char} {rest : List Char} {l : Lexeme}
    (hcomment : Lexer.startsComment (c :: rest) = false) (h : scan c rest = .ok l) :
    Spells l.kind l.span l.contents ∧ Stops l.kind l.span l.rest := by
  unfold scan at h
  split at h
  · cases h
    exact word_spells ‹_›
  split at h
  · exact number_spells ‹_› h
  split at h
  · rename_i hquote
    exact string_spells (by simpa using hquote) h
  split at h
  · rename_i hsymbol
    cases h
    exact symbol_spells hsymbol hcomment
  · cases h

/-- What no lexeme begins with. -/
structure Begins (c : Char) : Prop where
  newline : c ≠ '\n'
  blank : ¬ (c = ' ' || c = '\t' || c = '\r') = true

/-- Letters, digits and quotes are no blanks, and no comment begins with one. -/
theorem begins_of_plain {c : Char}
    (h : Text.isNameHead c = true ∨ c.isDigit = true ∨ c = '"' ∨ c = '\'') :
    Begins c ∧ ∀ rest, Lexer.startsComment (c :: rest) = false := by
  have hne {d : Char} (hd : ¬ (Text.isNameHead d = true ∨ d.isDigit = true ∨ d = '"' ∨ d = '\'')) :
      c ≠ d := by
    rintro rfl
    exact hd h
  refine ⟨⟨hne (by decide), ?_⟩,
    fun rest => Lexer.startsComment_eq_false (hne (by decide)) (hne (by decide)) rest⟩
  simp [hne (d := ' ') (by decide), hne (d := '\t') (by decide), hne (d := '\r') (by decide)]

/-- No symbol begins like a word, a numeral or a string. -/
private theorem symbol_begins (s : Symbol) : ∃ c tail, s.text.toList = c :: tail ∧ Begins c
    ∧ Text.isNameHead c = false ∧ c.isDigit = false ∧ ¬ (c = '"' || c = '\'') = true := by
  cases s <;> exact ⟨_, _, rfl, ⟨by decide, by decide⟩, by decide, by decide, by decide⟩

private theorem word_scanned {word : List Char} (hname : Text.isName word = true)
    (behind : List Char) :
    ∃ c tail, word = c :: tail ∧ Begins c ∧ Lexer.startsComment (word ++ behind) = false
      ∧ scan c (tail ++ behind) = .ok (Lexeme.word (word ++ behind)) := by
  obtain - | ⟨c, tail⟩ := word
  · cases hname
  have hc : Text.isNameHead c = true := (Bool.and_eq_true_iff.1 hname).1
  obtain ⟨hbegins, hcomment⟩ := begins_of_plain (.inl hc)
  refine ⟨c, tail, rfl, hbegins, hcomment _, ?_⟩
  rw [scan, if_pos hc]
  rfl

/-- A lexeme that is spelled as one of its kind is scanned where it stops. -/
theorem scan_of_spells {kind : Token.Kind} {span contents behind : List Char}
    (h : Spells kind span contents) (hstops : Stops kind span behind) :
    ∃ c tail, span = c :: tail ∧ Begins c ∧ Lexer.startsComment (span ++ behind) = false
      ∧ scan c (tail ++ behind) = .ok ⟨kind, contents, span, behind⟩ := by
  cases h with
  | @name word hname hfree =>
    obtain ⟨c, tail, hword, hbegins, hcomment, hscan⟩ := word_scanned hname behind
    rw [word_of_spells hname hstops, hfree] at hscan
    exact ⟨c, tail, hword, hbegins, hcomment, hscan⟩
  | keyword k =>
    obtain ⟨hname, hk⟩ := keyword_text k
    obtain ⟨c, tail, hword, hbegins, hcomment, hscan⟩ := word_scanned hname behind
    rw [word_of_spells hname hstops, String.ofList_toList, hk] at hscan
    exact ⟨c, tail, hword, hbegins, hcomment, hscan⟩
  | number hnumeric =>
    have hnumber := number_of_spells hnumeric hstops
    obtain ⟨c, tail, rfl, hc⟩ := hnumeric.head
    obtain ⟨hbegins, hcomment⟩ := begins_of_plain (.inr (.inl hc))
    refine ⟨c, tail, rfl, hbegins, hcomment _, ?_⟩
    rw [scan, isNameHead_of_isDigit hc, if_neg Bool.false_ne_true, if_pos hc]
    exact hnumber
  | @string quote body contents hquoted hbody =>
    obtain ⟨hbegins, hcomment⟩ := begins_of_plain (.inr (.inr hquoted))
    refine ⟨quote, body ++ [quote], rfl, hbegins, hcomment _, ?_⟩
    rw [List.append_assoc, List.singleton_append]
    rcases hquoted with rfl | rfl
    all_goals
      rw [scan, if_neg (by decide), if_neg (by decide), if_pos (by decide)]
      exact string_of_body (by decide) hbody behind
  | symbol s =>
    have hcomment := startsComment_symbol hstops
    have hsymbol := symbol?_of_stops hstops
    obtain ⟨c, tail, htext, hbegins, hhead, hdigit, hquote⟩ := symbol_begins s
    rw [htext] at hcomment hsymbol ⊢
    refine ⟨c, tail, rfl, hbegins, hcomment, ?_⟩
    rw [List.cons_append] at hsymbol
    rw [scan, hhead, if_neg Bool.false_ne_true, hdigit, if_neg Bool.false_ne_true, if_neg hquote,
      hsymbol]
    exact congrArg (fun rest => Except.ok (Lexeme.mk _ _ _ rest)) List.drop_left

end Lexeme

end Scriptlet
