/-
Lexemes: the single words, numbers, strings and symbols that stand at the
front of a text. `scan` reads one of them and says which characters it stands
on and what is left; the two together are always the text it was given
(`scan_eq_append`), so nothing is lost and the rest is shorter.

Words and numbers are as long as they can be. A number that runs into a name,
or has a second point, is refused rather than cut in two.
-/
import Scriptlet.Number.Text
import Scriptlet.Token

namespace Scriptlet

-- ========================================================== errors

/-- Why a text cannot be cut into tokens. -/
inductive LexCause where
  | malformedNumber (text : String)
  | missingExponent (text : String)
  | unterminatedString
  | unexpected (c : Char)
  deriving DecidableEq, Repr

/-- The wording of a cause. -/
def LexCause.message : LexCause → String
  | malformedNumber text => "malformed number literal " ++ backquoted text
  | missingExponent text =>
      "malformed number literal " ++ backquoted text ++ ": missing exponent digits"
  | unterminatedString => "unterminated string literal"
  | unexpected c => "unexpected character " ++ backquoted (String.ofList (Text.escaped c))

/-- A cause with the place of the lexeme that shows it. -/
structure LexError where
  cause : LexCause
  pos : Position
  deriving DecidableEq, Repr

-- ========================================================= lexemes

/-- A lexeme at the front of a text: its kind, its contents, the characters it
stands on, and the text behind them. -/
structure Lexeme where
  kind : Token.Kind
  contents : List Char
  span : List Char
  rest : List Char

namespace Lexeme

-- =========================================================== words

/-- The name or keyword at the front of a text. -/
def word (text : List Char) : Lexeme :=
  let letters := text.takeWhile Text.isNamePart
  let kind := match Keyword.ofText? (String.ofList letters) with
    | some k => .keyword k
    | none => .name
  { kind, contents := letters, span := letters, rest := text.dropWhile Text.isNamePart }

-- ========================================================= numbers

/-- Whether a text goes on with a point and a digit. -/
def startsFraction : List Char → Bool
  | '.' :: d :: _ => d.isDigit
  | _ => false

/-- The fraction at the front of a text: a point and digits, or nothing. -/
def fraction (text : List Char) : List Char :=
  if startsFraction text then '.' :: (text.drop 1).takeWhile Char.isDigit else []

/-- The exponent mark at the front of a text, with its sign, or nothing. -/
def exponentMark : List Char → List Char
  | e :: s :: _ =>
      if e = 'e' || e = 'E' then if s = '+' || s = '-' then [e, s] else [e] else []
  | [e] => if e = 'e' || e = 'E' then [e] else []
  | [] => []

/-- A number cut into its parts, and the text behind it. -/
structure Numeral where
  whole : List Char
  fraction : List Char
  mark : List Char
  power : List Char
  rest : List Char

/-- All characters of a numeral. -/
def Numeral.digits (n : Numeral) : List Char := n.whole ++ n.fraction ++ n.mark ++ n.power

/-- The digits of the exponent that `mark` announces. -/
def exponentDigits (mark text : List Char) : List Char :=
  if mark.isEmpty then [] else text.takeWhile Char.isDigit

/-- The parts of the number at the front of a text: digits, then perhaps a
fraction, then perhaps an exponent. -/
def numeral (text : List Char) : Numeral :=
  let whole := text.takeWhile Char.isDigit
  let afterWhole := text.drop whole.length
  let frac := fraction afterWhole
  let afterFraction := afterWhole.drop frac.length
  let mark := exponentMark afterFraction
  let afterMark := afterFraction.drop mark.length
  let power := exponentDigits mark afterMark
  { whole, fraction := frac, mark, power, rest := afterMark.drop power.length }

/-- The number at the front of a text. A second fraction, an exponent without
digits and a name that follows at once are refused, and so is what spells no
number. -/
def number (text : List Char) : Except LexCause Lexeme :=
  let n := numeral text
  if !n.fraction.isEmpty && n.mark.isEmpty && startsFraction n.rest then
    .error (.malformedNumber (String.ofList (n.digits ++ ['.'])))
  else if !n.mark.isEmpty && n.power.isEmpty then
    .error (.missingExponent (String.ofList n.digits))
  else
    let tail := n.rest.takeWhile Text.isNamePart
    if !tail.isEmpty then
      .error (.malformedNumber (String.ofList (n.digits ++ tail)))
    else if (Number.ofText? (String.ofList n.digits)).isNone then
      .error (.malformedNumber (String.ofList n.digits))
    else
      .ok { kind := .number, contents := n.digits, span := n.digits, rest := n.rest }

-- ========================================================= strings

/-- What a character stands for behind a backslash. -/
def unescapedChar : Char → Char
  | 'n' => '\n'
  | 't' => '\t'
  | 'r' => '\r'
  | '0' => '\x00'
  | c => c

/-- The text before the first `quote` that no backslash precedes. -/
def body? (quote : Char) : List Char → Option (List Char)
  | '\\' :: c :: rest => (body? quote rest).map fun body => '\\' :: c :: body
  | c :: rest => if c = quote then some [] else (body? quote rest).map (c :: ·)
  | [] => none

/-- A string's contents: its body with the escapes resolved. -/
def unescaped : List Char → List Char
  | '\\' :: c :: rest => unescapedChar c :: unescaped rest
  | c :: rest => c :: unescaped rest
  | [] => []

/-- The string that `quote` opens, where `rest` is the text behind the quote. -/
def string (quote : Char) (rest : List Char) : Except LexCause Lexeme :=
  match body? quote rest with
  | none => .error .unterminatedString
  | some body =>
      .ok {
        kind := .string
        contents := unescaped body
        span := quote :: body ++ [quote]
        rest := rest.drop (body.length + 1) }

-- ========================================================= symbols

/-- The symbols with their spellings, two characters before one: the first
that fits is the longest that fits. -/
def symbols : List (List Char × Symbol) :=
  ([.plusAssign, .minusAssign, .starStar, .starAssign, .slashAssign, .fatArrow, .equalEqual,
    .bangEqual, .lessEqual, .greaterEqual, .ampersands, .pipes, .leftParen, .rightParen,
    .leftBrace, .rightBrace, .leftBracket, .rightBracket, .comma, .dot, .colon, .semicolon,
    .percent, .plus, .minus, .star, .slash, .assign, .bang, .less, .greater] : List Symbol).map
    fun s => (s.text.toList, s)

/-- The longest symbol at the front of a text. -/
def symbol? (text : List Char) : Option (List Char × Symbol) :=
  symbols.find? fun entry => entry.1.isPrefixOf text

-- ============================================================ scan

/-- The lexeme at the front of the text `c :: rest`, where `c` is neither blank
nor the start of a comment. -/
def scan (c : Char) (rest : List Char) : Except LexCause Lexeme :=
  if Text.isNameHead c then .ok (word (c :: rest))
  else if c.isDigit then number (c :: rest)
  else if c = '"' || c = '\'' then string c rest
  else
    match symbol? (c :: rest) with
    | some (spelling, s) =>
        .ok {
          kind := .symbol s
          contents := spelling
          span := spelling
          rest := (c :: rest).drop spelling.length }
    | none => .error (.unexpected c)

-- ==================================================== nothing is lost

/-- The characters of a word and the rest are the text. -/
theorem word_eq_append (text : List Char) :
    text = (word text).span ++ (word text).rest := by
  simp [word]

/-- Dropping as many elements as a beginning has leaves what stands behind it. -/
theorem eq_append_drop {α : Type} {front text : List α} (h : front <+: text) :
    text = front ++ text.drop front.length := by
  obtain ⟨rest, rfl⟩ := h
  simp

/-- The fraction of a text is a beginning of it. -/
theorem fraction_isPrefix (text : List Char) : fraction text <+: text := by
  unfold fraction
  split
  · next h =>
    unfold startsFraction at h
    split at h
    · next d rest =>
      simpa using List.takeWhile_prefix (p := Char.isDigit) (l := d :: rest)
    · cases h
  · exact List.nil_prefix

/-- The exponent mark of a text is a beginning of it. -/
theorem exponentMark_isPrefix (text : List Char) : exponentMark text <+: text := by
  match text with
  | [] => exact List.nil_prefix
  | [e] => simp only [exponentMark]; split <;> simp
  | e :: s :: rest =>
    simp only [exponentMark]
    split
    · split
      · exact ⟨rest, rfl⟩
      · exact ⟨s :: rest, rfl⟩
    · exact List.nil_prefix

/-- The body of a string, its closing quote and the rest are the text behind
the opening quote. -/
theorem body?_eq_append {quote : Char} {text body : List Char} (h : body? quote text = some body) :
    text = body ++ [quote] ++ text.drop (body.length + 1) := by
  fun_induction body? quote text generalizing body with
  | case1 c rest ih =>
    obtain ⟨inner, hinner, rfl⟩ := Option.map_eq_some_iff.1 h
    simpa using ih hinner
  | case2 => cases h; simp_all
  | case3 c rest _ hc ih =>
    obtain ⟨inner, hinner, rfl⟩ := Option.map_eq_some_iff.1 h
    simpa using ih hinner
  | case4 => cases h

/-- The exponent digits of a text are a beginning of it. -/
theorem exponentDigits_isPrefix (mark text : List Char) : exponentDigits mark text <+: text := by
  unfold exponentDigits
  split
  · exact List.nil_prefix
  · exact List.takeWhile_prefix _

/-- The parts of a numeral and the rest are the text. -/
theorem numeral_eq_append (text : List Char) :
    text = (numeral text).digits ++ (numeral text).rest := by
  simp only [numeral, Numeral.digits, List.append_assoc]
  rw [← eq_append_drop (exponentDigits_isPrefix _ _), ← eq_append_drop (exponentMark_isPrefix _),
    ← eq_append_drop (fraction_isPrefix _), ← eq_append_drop (List.takeWhile_prefix _)]

/-- A number stands on the parts of its numeral. -/
theorem number_eq_ok {text : List Char} {l : Lexeme} (h : number text = .ok l) :
    l.span = (numeral text).digits ∧ l.rest = (numeral text).rest := by
  unfold number at h
  dsimp only at h
  split at h
  · cases h
  · split at h
    · cases h
    · split at h
      · cases h
      · split at h
        · cases h
        · cases h; exact ⟨rfl, rfl⟩

/-- A symbol's spelling is a beginning of the text. -/
theorem symbol?_isPrefix {text spelling : List Char} {s : Symbol}
    (h : symbol? text = some (spelling, s)) : spelling <+: text := by
  unfold symbol? at h
  simpa using List.find?_some h

/-- The characters a lexeme stands on and the rest are the text it was read
from. -/
theorem scan_eq_append {c : Char} {rest : List Char} {l : Lexeme} (h : scan c rest = .ok l) :
    c :: rest = l.span ++ l.rest := by
  simp only [scan] at h
  split at h
  · cases h; exact word_eq_append _
  · split at h
    · obtain ⟨hspan, hrest⟩ := number_eq_ok h
      rw [hspan, hrest]
      exact numeral_eq_append _
    · split at h
      · simp only [string] at h
        split at h
        · cases h
        · next body hbody =>
          cases h
          simpa using body?_eq_append hbody
      · split at h
        · next spelling s hs =>
          cases h
          exact eq_append_drop (symbol?_isPrefix hs)
        · cases h

/-- A lexeme stands on at least one character. -/
theorem scan_span_ne_nil {c : Char} {rest : List Char} {l : Lexeme} (h : scan c rest = .ok l) :
    l.span ≠ [] := by
  simp only [scan] at h
  split at h
  · next hc =>
    cases h
    simp [word, Text.isNamePart_of_isNameHead hc]
  · split at h
    · next hc =>
      rw [(number_eq_ok h).1]
      simp [numeral, Numeral.digits, hc]
    · split at h
      · simp only [string] at h
        split at h
        · cases h
        · cases h; simp
      · split at h
        · next spelling s hs =>
          cases h
          have hmem := List.mem_of_find?_eq_some hs
          have hall : ∀ entry ∈ symbols, entry.1 ≠ [] := by decide
          exact hall _ hmem
        · cases h

/-- What is left behind a lexeme is shorter than the text. -/
theorem scan_rest_lt {c : Char} {rest : List Char} {l : Lexeme} (h : scan c rest = .ok l) :
    l.rest.length < (c :: rest).length := by
  have hspan := List.length_pos_iff.2 (scan_span_ne_nil h)
  have hlen := congrArg List.length (scan_eq_append h)
  simp only [List.length_append] at hlen
  omega

end Lexeme

end Scriptlet
