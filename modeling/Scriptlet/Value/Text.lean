/-
How values are shown. Inside a list or a map, and wherever a result is echoed,
a string is quoted; printed by itself it is its plain text. Everything else looks
the same in both ways.
-/
import Scriptlet.Value
import Scriptlet.Number.Text
import Scriptlet.Text.Quoted

namespace Scriptlet

/-- A key as it stands in a map. -/
def MapKey.quoted : MapKey → String
  | string s => Text.quoted s
  | number bits => Number.text (Float.ofBits bits)
  | bool b => if b then "true" else "false"
  | nil => "nil"

/-- A key by itself. -/
def MapKey.display : MapKey → String
  | string s => s
  | key => key.quoted

mutual

/-- A value with its strings quoted. -/
def Value.quoted : Value → String
  | .nil => "nil"
  | .bool b => if b then "true" else "false"
  | .number n => Number.text n
  | .string s => Text.quoted s
  | .list items => "[" ++ String.intercalate ", " (Value.quotedItems items) ++ "]"
  | .map entries => "\x7b" ++ String.intercalate ", " (Value.quotedEntries entries) ++ "\x7d"
  | .function f => "<fn " ++ f.code.title ++ ">"
  | .native f => "<native fn " ++ f.name ++ ">"

/-- Each item of a list. -/
def Value.quotedItems : List Value → List String
  | [] => []
  | v :: rest => v.quoted :: Value.quotedItems rest

/-- Each entry of a map. -/
def Value.quotedEntries : List (MapKey × Value) → List String
  | [] => []
  | (key, v) :: rest => (key.quoted ++ ": " ++ v.quoted) :: Value.quotedEntries rest

end

/-- A value by itself. -/
def Value.display : Value → String
  | .string s => s
  | v => v.quoted

end Scriptlet
