/-
The lines of a text. A line feed ends a line, together with one carriage return
before it; a carriage return anywhere else belongs to its line. The end of the
text also ends a line, but adds none behind a final line feed.
-/
namespace Scriptlet.Text

/-- A line without the carriage return that precedes its line feed. -/
def chopReturn (line : List Char) : List Char :=
  if line.getLast? = some '\r' then line.dropLast else line

/-- The lines of a text, in order. -/
def lines (text : List Char) : List (List Char) :=
  if text.isEmpty then []
  else
    match h : text.dropWhile (· ≠ '\n') with
    | [] => [text]
    | _ :: rest =>
        have : rest.length < text.length := by
          have hle := (List.dropWhile_suffix (l := text) fun c => decide (c ≠ '\n')).length_le
          rw [h] at hle
          exact hle
        chopReturn (text.takeWhile (· ≠ '\n')) :: lines rest
termination_by text.length

/-- `text` pushed to the right end of a column of `width` characters. -/
def alignRight (width : Nat) (text : String) : String :=
  String.ofList (List.replicate (width - text.length) ' ') ++ text

end Scriptlet.Text
