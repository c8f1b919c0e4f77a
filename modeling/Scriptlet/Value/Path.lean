/-
Paths into nested collections. A path is the keys of its steps, each with the
position that errors at that step report. Reading follows the path; storing
follows it to the last collection and rebuilds every collection on the way back,
so that the old values stay as they were.
-/
import Scriptlet.Value.Item

namespace Scriptlet

/-- A cause at a place. -/
def Fault.at {α : Type} (pos : Position) : Except Cause α → Except Fault α
  | .ok a => .ok a
  | .error cause => .error ⟨cause, pos⟩

/-- The steps from a collection to something inside it. -/
abbrev Path := List (Value × Position)

namespace Value

/-- What stands at the end of a path. -/
def load (root : Value) : Path → Except Fault Value
  | [] => .ok root
  | (key, pos) :: path => do
      let inner ← Fault.at pos (root.item key)
      inner.load path

/-- The value with another one at the end of a path. -/
def store (root : Value) (path : Path) (value : Value) : Except Fault Value :=
  match path with
  | [] => .ok value
  | [(key, pos)] => Fault.at pos (root.withItem key value)
  | (key, pos) :: path => do
      let inner ← Fault.at pos (root.item key)
      let inner ← inner.store path value
      Fault.at pos (root.withItem key inner)

end Value

end Scriptlet
