/-
Quoted text. A string inside a list, a map or an error message is written
between double quotes with the escapes below, so that it can be told from a
name and so that no control character reaches the terminal. A stray character
in a source is named by a stricter rule, which leaves only ASCII as it is.
-/
import Scriptlet.Text.Classes

namespace Scriptlet.Text

/-- The escape that names a character by its number, `\u{…}` in lower-case
hexadecimal without padding. -/
def byNumber (c : Char) : List Char :=
  ['\\', 'u', '\x7b'] ++ Nat.toDigits 16 c.toNat ++ ['\x7d']

/-- How one character of a quoted text is written. -/
def quotedChar (c : Char) : List Char :=
  match c with
  | '\x00' => ['\\', '0']
  | '\t' => ['\\', 't']
  | '\r' => ['\\', 'r']
  | '\n' => ['\\', 'n']
  | '"' => ['\\', '"']
  | '\\' => ['\\', '\\']
  | c => if isPlain c then [c] else byNumber c

/-- `s` between double quotes, escaped. -/
def quoted (s : String) : String :=
  String.ofList ('"' :: s.toList.flatMap quotedChar ++ ['"'])

/-- How a character that fits nowhere in a source is named: printable ASCII
stands for itself, the rest is escaped. -/
def escaped (c : Char) : List Char :=
  match c with
  | '\t' => ['\\', 't']
  | '\r' => ['\\', 'r']
  | '\n' => ['\\', 'n']
  | '\'' => ['\\', '\'']
  | '"' => ['\\', '"']
  | '\\' => ['\\', '\\']
  | c => if 0x20 ≤ c.toNat && c.toNat ≤ 0x7e then [c] else byNumber c

end Scriptlet.Text
