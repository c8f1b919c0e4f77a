/-
Evaluation does not look at positions. Moving the positions of a program and of
the functions in the machine moves those of the result and of a fault, and
changes nothing else: neither what is computed, nor what is written, nor whether
the budget is enough. The host's routines get values to look at, so this holds
only if they do not look at positions either (`Host.Blind`); those of the
prelude do not.

To move positions is to relabel functions, so all this is a case of what relabellings do
(`Eval.relabels`); identities are given out as before, because none is moved.
-/
import Scriptlet.Proofs.Moved.Value
import Scriptlet.Proofs.Relabelled.Eval

namespace Scriptlet

variable {α β : Type} {f : Position → Position}

/-- An outcome with its positions moved, and its result by `g`. -/
def Outcome.moved (f : Position → Position) (g : α → β) :
    Outcome Machine Fault α → Outcome Machine Fault β
  | .done a m => .done (g a) (m.moved f)
  | .failed fault m => .failed (fault.moved f) (m.moved f)
  | .exhausted => .exhausted

/-- An outcome is moved as its machine and its fault are. -/
theorem Outcome.relabelled_moving (g : α → β) (outcome : Outcome Machine Fault α) :
    outcome.relabelled (.moving f) g = outcome.moved f g := by
  cases outcome with
  | exhausted => rfl
  | done a m => exact congrArg (Outcome.done (g a)) (Machine.relabelled_moving f m)
  | failed fault m =>
    exact congrArg (Outcome.failed (fault.moved f)) (Machine.relabelled_moving f m)

/-- Two computations end in the same way, up to positions: with results that stand in a
relation, or with the same fault, or both in nothing. -/
inductive Outcome.Resembles (f : Position → Position) (results : α → β → Prop) :
    Outcome Machine Fault α → Outcome Machine Fault β → Prop where
  | done {a : α} {b : β} {m m' : Machine} (result : results a b)
      (state : m.moved f = m'.moved f) : Resembles f results (.done a m) (.done b m')
  | failed {fault fault' : Fault} {m m' : Machine} (same : fault.moved f = fault'.moved f)
      (state : m.moved f = m'.moved f) :
      Resembles f results (.failed fault m) (.failed fault' m')
  | exhausted : Resembles f results .exhausted .exhausted

/-- Outcomes that are the same once their positions are moved. -/
theorem Outcome.resembles_of_moved_eq {g : α → β} {outcome outcome' : Outcome Machine Fault α}
    (h : outcome.moved f g = outcome'.moved f g) :
    outcome.Resembles f (fun a b => g a = g b) outcome' := by
  cases outcome with
  | done a m =>
    cases outcome' with
    | done b m' =>
      injection h with hresult hstate
      exact .done hresult hstate
    | failed _ _ | exhausted => cases h
  | failed fault m =>
    cases outcome' with
    | failed fault' m' =>
      injection h with hfault hstate
      exact .failed hfault hstate
    | done _ _ | exhausted => cases h
  | exhausted =>
    cases outcome' with
    | exhausted => exact .exhausted
    | done _ _ | failed _ _ => cases h

/-- An answer of a routine with its value moved. -/
def Routine.movedAnswer (f : Position → Position) (answer : Except String Value × Transcript) :
    Except String Value × Transcript :=
  (answer.1.map (Value.moved f), answer.2)

/-- A host whose routines do not look at the positions in functions. -/
def Host.Blind (host : Host) (f : Position → Position) : Prop :=
  ∀ routine ∈ host, ∀ args transcript,
    routine.run (args.map (Value.moved f)) transcript
      = Routine.movedAnswer f (routine.run args transcript)

private theorem Host.blind_iff_impartial (host : Host) : host.Blind f ↔ host.Impartial
    (.moving f) := by
  unfold Host.Blind Host.Impartial Routine.movedAnswer Routine.relabelledAnswer
  rw [Value.relabelled_moving_eq]

/-- Running moved statements on a moved machine. -/
theorem Program.results_moved {setup : Setup} (hhost : setup.host.Blind f) (budget : Nat)
    (program : Program) (last : Value) (m : Machine) :
    results (Stmt.exec setup budget) (program.moved f) (last.moved f) (m.moved f)
      = (results (Stmt.exec setup budget) program last m).moved f (Value.moved f) := by
  have hhost := setup.host.blind_iff_impartial.1 hhost
  have hsame := (results_relabels (Eval.relabels hhost budget).stmt program last).same m
    fun _ _ _ => rfl
  rwa [Outcome.relabelled_moving, Value.relabelled_moving_eq, Machine.relabelled_moving] at hsame

/-- Running a moved program on a moved machine. -/
theorem Program.run_moved {setup : Setup} (hhost : setup.host.Blind f) (budget : Nat)
    (program : Program) (m : Machine) :
    (program.moved f).run setup budget (m.moved f)
      = (program.run setup budget m).moved f (Value.moved f) :=
  results_moved hhost budget program .nil { m with scope := Machine.root, depth := 0 }

/-- The prelude does not look at positions. -/
theorem Prelude.host_blind (f : Position → Position) : host.Blind f :=
  host.blind_iff_impartial.2 (host_impartial _)

end Scriptlet
