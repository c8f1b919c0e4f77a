/-
Reports for people. A diagnostic says what went wrong and where; `render`
quotes the source around that place, two lines before it and one behind, with a
caret under the column. Where the place is not in the source, the report is its
heading alone.
-/
import Scriptlet.Position
import Scriptlet.Fault.Kind
import Scriptlet.Text.Classes
import Scriptlet.Text.Lines

namespace Scriptlet

/-- Where an error comes from. -/
inductive Diagnostic.Kind where
  | lex
  | parse
  | runtime (kind : Fault.Kind)
  | io
  deriving DecidableEq, Repr

/-- The word that begins a report. -/
def Diagnostic.Kind.text : Diagnostic.Kind → String
  | lex => "LexError"
  | parse => "ParseError"
  | runtime kind => "RuntimeError(" ++ kind.text ++ ")"
  | io => "IoError"

/-- An error ready to be shown. -/
structure Diagnostic where
  kind : Diagnostic.Kind
  message : String
  pos : Option Position
  notes : List String := []
  deriving DecidableEq, Repr

namespace Diagnostic

/-- The report with one more note. -/
def withNote (d : Diagnostic) (note : String) : Diagnostic :=
  { d with notes := d.notes ++ [note] }

/-- The heading: kind, message, place and notes. -/
def heading (d : Diagnostic) : String :=
  let place := match d.pos with
    | some pos => " (" ++ pos.text ++ ")"
    | none => ""
  d.kind.text ++ ": " ++ d.message ++ place
    ++ String.join (d.notes.map fun note => "\n  note: " ++ note)

/-- The quoted line `number`, marked if it is the one reported. -/
def quotedLine (width number : Nat) (marked : Bool) (line : List Char) : String :=
  (if marked then "> " else "  ") ++ Text.alignRight width (toString number) ++ " | "
    ++ String.ofList line ++ "\n"

/-- The line with the caret under `column`. -/
def caretLine (width column : Nat) : String :=
  "  " ++ Text.alignRight width "" ++ " | " ++ String.ofList (List.replicate (column - 1) ' ')
    ++ "^\n"

/-- The lines `first, first + 1, …` of a source, with the caret line behind the
one at `pos`. -/
def excerpt (width : Nat) (pos : Position) : Nat → List (List Char) → List String
  | _, [] => []
  | number, line :: lines =>
      let marked := decide (number = pos.line)
      let rest := excerpt width pos (number + 1) lines
      quotedLine width number marked line ::
        (if marked then caretLine width pos.column :: rest else rest)

/-- The report with the source around its place. -/
def render (d : Diagnostic) (source : String) : String :=
  match d.pos with
  | none => d.heading
  | some pos =>
      let lines := Text.lines source.toList
      if pos.line = 0 || lines.length < pos.line then d.heading
      else
        let first := max (pos.line - 2) 1
        let last := min (pos.line + 1) lines.length
        let width := (toString last).length
        let shown := (lines.drop (first - 1)).take (last + 1 - first)
        let text := d.heading ++ "\n" ++ String.join (excerpt width pos first shown)
        String.ofList (Text.trimRight text.toList)

end Diagnostic

end Scriptlet
