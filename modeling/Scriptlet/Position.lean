/-
Places in a source text. Lines and columns count from one, columns in
characters, and only a line feed ends a line. Every position in the library is
`Position.start` moved over some beginning of a source.
-/
namespace Scriptlet

/-- A line and a column, both counted from one. -/
structure Position where
  line : Nat
  column : Nat
  deriving DecidableEq, Repr

namespace Position

/-- Where a text begins. -/
def start : Position := ⟨1, 1⟩

instance : Inhabited Position := ⟨start⟩

/-- The position behind one character. -/
def step (pos : Position) (c : Char) : Position :=
  if c = '\n' then ⟨pos.line + 1, 1⟩ else ⟨pos.line, pos.column + 1⟩

/-- The position behind a piece of text. -/
def after (pos : Position) (text : List Char) : Position := text.foldl step pos

@[simp] theorem after_nil (pos : Position) : pos.after [] = pos := rfl

@[simp] theorem after_cons (pos : Position) (c : Char) (text : List Char) :
    pos.after (c :: text) = (pos.step c).after text := rfl

/-- Moving over two pieces in turn is moving over their concatenation. -/
theorem after_append (pos : Position) (first second : List Char) :
    pos.after (first ++ second) = (pos.after first).after second := by
  simp [after]

/-- The wording of a position inside a message. -/
def text (pos : Position) : String :=
  "line " ++ toString pos.line ++ ", column " ++ toString pos.column

end Position

end Scriptlet
