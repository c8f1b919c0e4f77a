/-
The character classes the language asks about. A name begins with a letter
or `_` and goes on with letters, numerals and `_`; blanks are trimmed from the
end of a report; plain characters stand for themselves in a quoted text.

ASCII is decided by comparison and everything above it by table, so that a
statement about the ASCII part never has to look into a table.
-/
import Scriptlet.Text.Alphabetic
import Scriptlet.Text.Numeric
import Scriptlet.Text.Unprintable
import Scriptlet.Text.Extending

namespace Scriptlet.Text

-- ============================================================ names

/-- A letter of any script. -/
def isLetter (c : Char) : Bool :=
  if c.toNat < 128 then c.isAlpha else alphabeticRanges.holds c.toNat

/-- A digit or numeral of any script. -/
def isNumeral (c : Char) : Bool :=
  if c.toNat < 128 then c.isDigit else numericRanges.holds c.toNat

/-- What a name may begin with. -/
def isNameHead (c : Char) : Bool := isLetter c || c = '_'

/-- What a name may go on with. -/
def isNamePart (c : Char) : Bool := isLetter c || isNumeral c || c = '_'

/-- Whether `s` is spelled like a name: a head, then parts. -/
def isName (s : List Char) : Bool :=
  match s with
  | [] => false
  | c :: rest => isNameHead c && rest.all isNamePart

/-- Whatever may begin a name may also continue it. -/
theorem isNamePart_of_isNameHead {c : Char} (h : isNameHead c = true) :
    isNamePart c = true := by
  simp only [isNameHead, isNamePart, Bool.or_eq_true] at h ⊢
  exact h.elim (fun h => .inl (.inl h)) .inr

-- ========================================================== blanks

/-- White space in the sense of the Unicode property `White_Space`. -/
def blankRanges : Ranges :=
  [(0x9, 0xd), (0x20, 0x20), (0x85, 0x85), (0xa0, 0xa0), (0x1680, 0x1680), (0x2000, 0x200a),
    (0x2028, 0x2029), (0x202f, 0x202f), (0x205f, 0x205f), (0x3000, 0x3000)]

/-- White space of any kind. -/
def isBlank (c : Char) : Bool := blankRanges.holds c.toNat

/-- `s` without the white space at its end. -/
def trimRight (s : List Char) : List Char := (s.reverse.dropWhile isBlank).reverse

/-- `s` without the white space at either end. -/
def trim (s : List Char) : List Char := trimRight (s.dropWhile isBlank)

-- =========================================================== plain

/-- The fillers of Hangul: letters by category that are drawn as nothing. -/
def fillerRanges : Ranges := [(0x115f, 0x1160), (0x3164, 0x3164), (0xffa0, 0xffa0)]

/-- The half-width sound marks of kana: they extend the character before them
and yet stand in a cell of their own. -/
def soundMarkRanges : Ranges := [(0xff9e, 0xff9f)]

/-- Whether a code point outside ASCII is drawn on the character before it. -/
def isAttached (n : Nat) : Bool := extendingRanges.holds n && !soundMarkRanges.holds n

/-- Whether a code point outside ASCII leaves no mark. -/
def isInvisible (n : Nat) : Bool := unprintableRanges.holds n || fillerRanges.holds n

/-- A character that a quoted text can hold as it is: it leaves a mark, or is
the ASCII space, and is not drawn on its neighbour. -/
def isPlain (c : Char) : Bool :=
  if c.toNat < 128 then 0x20 ≤ c.toNat && c.toNat < 0x7f
  else !isAttached c.toNat && !isInvisible c.toNat

end Scriptlet.Text
