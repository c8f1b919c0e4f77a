/-
Where faults stand. A fault stands where some node stands, of the program that
runs or of a function that it calls. No operation on values and no routine of the
host brings a position along; whoever uses one gives its faults the place of the
node at hand. So if all nodes stand at positions of some kind, all faults do.

For a source that is evaluated where there are no functions yet, all nodes are its
own, and every failure points into it (`Interpreter.evalSource_within`). Where
functions of earlier sources are left, a fault may stand in one of those.
-/
import Scriptlet.Proofs.Eval.Reach
import Scriptlet.Proofs.Source.Places

namespace Scriptlet

variable {P : Position → Prop}

private theorem Tree.Rule.standing_implies {P' : Position → Prop} (h : ∀ pos, P pos → P' pos) :
    (Tree.Rule.standing P).Implies (.standing P') where
  expr _ he := h _ he
  stmt _ hs := h _ hs
  code _ hc := ⟨h _ hc.1, fun p hp => h _ (hc.2 p hp)⟩

/-- Faults that stand at some kind of position are all that trees which stand there can
raise. -/
theorem Contract.standing_lawful {setup : Setup} {start : Heap}
    (hlent : setup.host.Lends fun f => f.code.Every (.standing P) ∧ start.Accessible f.frame) :
    (Contract.stored (.standing P) (fun fault => P fault.pos) start).Lawful setup :=
  stored_lawful_of hlent (fun _ he _ _ => he) (fun _ _ _ _ hs _ _ => hs) (fun _ he => he)
    fun _ _ _ _ _ he _ _ _ => he

namespace Interpreter

/-- An interpreter where every function stands at positions of some kind. Its host hands
out no functions but those it is given. -/
structure Standing (P : Position → Prop) (i : Interpreter) : Prop where
  stored : i.machine.Holds (.standing P)
  lent : ∀ p, i.setup.host.Lends p

/-- To have only functions that stand at good places is to hold trees that do. -/
theorem Standing.holds {i : Interpreter} (h : i.Standing P) : i.Holds (.standing P) :=
  ⟨h.stored, h.lent _⟩

/-- An evaluation of a program that stands at positions of some kind, where all
functions do, leaves such functions and fails at such a position. -/
theorem evalProgram_standing {i : Interpreter} (hi : i.Standing P) {program : Program}
    (hprogram : program.Every (.standing P)) (budget : Nat) :
    match i.evalProgram budget program with
    | .done _ j => j.Standing P
    | .failed failure j => j.Standing P ∧ P failure.pos
    | .exhausted => True := by
  have hholds := evalProgram_holds_of hi.holds (Contract.standing_lawful hi.holds.lent) hprogram
    (fun s hs _ _ => (hprogram s hs).here) budget
  cases hrun : i.evalProgram budget program with
  | exhausted => trivial
  | done v j =>
    rw [hrun] at hholds
    obtain ⟨m, -, rfl⟩ := evalProgram_eq_done.1 hrun
    exact ⟨hholds, hi.lent⟩
  | failed failure j =>
    rw [hrun] at hholds
    obtain ⟨_, m, -, -, rfl⟩ := evalProgram_eq_failed.1 hrun
    obtain ⟨hstored, fault, rfl, hfault⟩ := hholds
    exact ⟨⟨hstored, hi.lent⟩, hfault⟩

/-- The same of a source, all places of which are of that kind. -/
theorem evalSource_standing {i : Interpreter} (hi : i.Standing P) {source : String}
    (hsource : ∀ pos : Position, pos.Within source.toList → P pos) (budget : Nat) :
    match i.evalSource budget source with
    | .done _ j => j.Standing P
    | .failed failure j => j.Standing P ∧ P failure.pos
    | .exhausted => True := by
  have hparse := parse_standing i.layout source
  unfold evalSource
  cases hprogram : parse i.layout source with
  | error failure =>
    rw [hprogram] at hparse
    exact ⟨hi, hsource _ hparse.1⟩
  | ok program =>
    rw [hprogram] at hparse
    have himplies := Tree.Rule.standing_implies hsource
    exact evalProgram_standing hi (fun s hs => (Tree.every_mono himplies).ofStmt s (hparse s hs)) budget

/-- An interpreter whose environment holds no functions of a script, and whose host hands
out none but those it is given. -/
structure Unscripted (i : Interpreter) : Prop where
  stored : ∀ f, ¬ i.machine.Stores f
  lent : ∀ p, i.setup.host.Lends p

/-- Without functions every place will do. -/
theorem Unscripted.standing {i : Interpreter} (h : i.Unscripted) (P : Position → Prop) :
    i.Standing P :=
  ⟨fun f hf => absurd hf (h.stored f), h.lent⟩

/-- A fresh interpreter is one. -/
theorem start_unscripted {host : Host} (hhost : ∀ p, host.Lends p) (maxDepth : Nat)
    (layout : Layout) : (start host maxDepth layout).Unscripted := by
  refine ⟨fun f hf => ?_, hhost⟩
  have hnone : (start host maxDepth layout).Holds { code := fun _ => False } :=
    start_holds hhost maxDepth layout
  exact (hnone.stored f hf).here

/-- Every failure points into its source: where no functions are left from before, the
position of an error is there, and it is the place of an offset in the source, before
its end if the source cannot be cut into tokens. -/
theorem evalSource_within {i : Interpreter} (hi : i.Unscripted) {budget : Nat} {source : String}
    {failure : Failure} {j : Interpreter} (h : i.evalSource budget source = .failed failure j) :
    (∃ offset ≤ source.toList.length,
        failure.diagnostic.pos = some (Position.ofOffset source.toList offset))
      ∧ ∀ e, failure = .lex e → ∃ offset < source.toList.length,
        failure.diagnostic.pos = some (Position.ofOffset source.toList offset) := by
  have hstanding := evalSource_standing (hi.standing (·.Within source.toList)) (fun _ => id) budget
  rw [h] at hstanding
  obtain ⟨-, offset, hle, hpos⟩ := hstanding
  refine ⟨⟨offset, hle, congrArg some hpos⟩, ?_⟩
  rintro e rfl
  have hparse := parse_standing i.layout source
  unfold evalSource at h
  cases hprogram : parse i.layout source with
  | error refusal =>
    rw [hprogram] at h hparse
    cases h
    obtain ⟨offset, hlt, hpos⟩ := hparse.2 e rfl
    exact ⟨offset, hlt, congrArg some hpos⟩
  | ok program =>
    -- A program that runs is not refused any more.
    rw [hprogram] at h
    obtain ⟨_, _, -, hfault, -⟩ := evalProgram_eq_failed.1 h
    cases hfault

/-- A name that means nothing, on the second line of a source. -/
theorem evalSource_within_undefined :
    (start Prelude.host 200 {}).Unscripted
      ∧ ∃ failure j,
        (start Prelude.host 200 {}).evalSource 20 "let x = \"a\"\n  x + nope"
            = .failed failure j
          ∧ failure.diagnostic.pos = some ⟨2, 7⟩
          ∧ ∃ offset ≤ "let x = \"a\"\n  x + nope".toList.length, failure.diagnostic.pos
            = some (Position.ofOffset "let x = \"a\"\n  x + nope".toList offset) := by
  have hunscripted := start_unscripted Prelude.host_lends 200 {}
  have herror : ((start Prelude.host 200 {}).evalSource 20 "let x = \"a\"\n  x + nope").error?.map
      (·.diagnostic.pos) = some (some ⟨2, 7⟩) := by
    decide +kernel
  obtain ⟨failure, j, hrun⟩ := Outcome.exists_failed (by
    rw [← Option.isSome_map, herror]
    rfl)
  rw [hrun] at herror
  exact ⟨hunscripted, failure, j, hrun, Option.some.inj herror,
    (evalSource_within hunscripted hrun).1⟩

end Interpreter

end Scriptlet
