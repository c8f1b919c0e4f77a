/-
Layouts have no part in what a source means. Two layouts may mark the indentation
of a source differently, or one of them not at all. The tokens are the same but
for these marks, and the grammar leaves the marks out, so the program is the same;
and no program can see the layout of the interpreter that runs it.

Both layouts are compared with the one that measures nothing (`tokenize_flat`),
and so with each other.
-/
import Scriptlet.Proofs.Eval.Contract
import Scriptlet.Proofs.Token.Flat

namespace Scriptlet

/-- Tokens without the marks of indentation. -/
def unindented (tokens : List Token) : List Token := tokens.filter fun t => !t.kind.isIndentation

namespace Interpreter

/-- The interpreter with another layout. -/
def laidOut (i : Interpreter) (layout : Layout) : Interpreter := { i with layout }

/-- Programs do not see the layout. -/
theorem evalProgram_laidOut (i : Interpreter) (layout : Layout) (budget : Nat)
    (program : Program) :
    (i.laidOut layout).evalProgram budget program
      = (i.evalProgram budget program).mapState (·.laidOut layout) := by
  unfold evalProgram laidOut
  dsimp only
  cases program.run i.setup budget i.machine <;> rfl

/-- Every two layouts cut a source into the same tokens, but for the marks of
indentation, or refuse it for the same reason; they make the same program of it;
and interpreters that differ in nothing else come to the same result with it, and
to states that differ in nothing else. -/
theorem evalSource_laidOut (layout layout' : Layout) (source : String) :
    (tokenize layout source).map unindented = (tokenize layout' source).map unindented
      ∧ parse layout source = parse layout' source
      ∧ ∀ (i : Interpreter) (budget : Nat),
        (i.laidOut layout').evalSource budget source
          = ((i.laidOut layout).evalSource budget source).mapState (·.laidOut layout') := by
  have hparse : parse layout source = parse layout' source :=
    (parse_flat layout source).symm.trans (parse_flat layout' source)
  refine ⟨(tokenize_flat layout source).symm.trans (tokenize_flat layout' source), hparse,
    fun i budget => ?_⟩
  unfold evalSource
  rw [show (i.laidOut layout').layout = layout' from rfl,
    show (i.laidOut layout).layout = layout from rfl, ← hparse]
  cases parse layout source with
  | error failure => rfl
  | ok program => exact evalProgram_laidOut (i.laidOut layout) layout' budget program

/-- Where nothing is measured, the marks around a line further in are missing. -/
example :
    (tokenize {} "if (true) \x7b\n\tf()\n\x7d").toOption.map List.length = some 15
      ∧ (tokenize .flat "if (true) \x7b\n\tf()\n\x7d").toOption.map List.length = some 13 := by
  decide +kernel

end Interpreter

end Scriptlet
