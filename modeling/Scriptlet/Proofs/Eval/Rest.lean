/-
Between evaluations an interpreter is at rest: its machine is in the outermost
frame and no call is open. Every evaluation puts its machine there before it
begins, and leaves it there however it ends, because each frame and each call
that is entered is left again (`Machine.level_kept`).
-/
import Scriptlet.Interpreter
import Scriptlet.Proofs.Eval.Keeps

namespace Scriptlet.Interpreter

/-- The interpreter with its machine in the outermost frame and outside all
calls. -/
def atRest (i : Interpreter) : Interpreter :=
  { i with machine := { i.machine with scope := Machine.root, depth := 0 } }

theorem atRest_eq_self {i : Interpreter} (hscope : i.machine.scope = Machine.root)
    (hdepth : i.machine.depth = 0) : i.atRest = i := by
  obtain ⟨setup, layout, heap, scope, depth, fresh, transcript⟩ := i
  obtain rfl : scope = Machine.root := hscope
  obtain rfl : depth = 0 := hdepth
  rfl

/-- The states that an interpreter comes to: what it starts as, and what
evaluations and the host make of it from there. -/
inductive Reached : Interpreter → Prop where
  | start (host : Host) (maxDepth : Nat) (layout : Layout) : Reached (start host maxDepth layout)
  | done {i j : Interpreter} {budget : Nat} {program : Program} {v : Value} (before : Reached i)
      (run : i.evalProgram budget program = .done v j) : Reached j
  | failed {i j : Interpreter} {budget : Nat} {program : Program} {f : Failure}
      (before : Reached i) (run : i.evalProgram budget program = .failed f j) : Reached j
  | define {i : Interpreter} (before : Reached i) (name : String) (value : Value) :
      Reached (i.define name value)
  | assign {i j : Interpreter} {name : String} {value : Value} (before : Reached i)
      (assigned : i.assign name value = .ok j) : Reached j
  | cleared {i : Interpreter} (before : Reached i) : Reached i.cleared

/-- An evaluation that succeeds is a run that succeeds. -/
theorem evalProgram_eq_done {i j : Interpreter} {budget : Nat} {program : Program} {v : Value} :
    i.evalProgram budget program = .done v j ↔ ∃ m,
      Program.results (Stmt.exec i.setup budget) program .nil i.atRest.machine = .done v m
        ∧ { i with machine := m } = j := by
  unfold evalProgram Program.run atRest
  cases Program.results (Stmt.exec i.setup budget) program .nil
    { i.machine with scope := Machine.root, depth := 0 } <;> simp [and_assoc]

/-- An evaluation that fails is a run that meets a fault. -/
theorem evalProgram_eq_failed {i j : Interpreter} {budget : Nat} {program : Program}
    {failure : Failure} :
    i.evalProgram budget program = .failed failure j ↔ ∃ fault m,
      Program.results (Stmt.exec i.setup budget) program .nil i.atRest.machine = .failed fault m
        ∧ .fault fault = failure ∧ { i with machine := m } = j := by
  unfold evalProgram Program.run atRest
  cases Program.results (Stmt.exec i.setup budget) program .nil
    { i.machine with scope := Machine.root, depth := 0 } <;> simp [and_assoc]

/-- An evaluation that does not fit its budget is a run that does not. -/
theorem evalProgram_eq_exhausted {i : Interpreter} {budget : Nat} {program : Program} :
    i.evalProgram budget program = .exhausted ↔
      Program.results (Stmt.exec i.setup budget) program .nil i.atRest.machine = .exhausted := by
  unfold evalProgram Program.run atRest
  cases Program.results (Stmt.exec i.setup budget) program .nil
    { i.machine with scope := Machine.root, depth := 0 } <;> simp

/-- What every run of statements keeps, an evaluation keeps from where it puts the
machine. -/
theorem evalProgram_keeps {within across : Machine → Machine → Prop}
    (hR : Run.Kept within across) (i : Interpreter) (budget : Nat) (program : Program) :
    match i.evalProgram budget program with
    | .done _ j => across i.atRest.machine j.machine
    | .failed _ j => across i.atRest.machine j.machine
    | .exhausted => True := by
  have hkeeps := Program.results_keeps hR i.setup budget program .nil i.atRest.machine
  cases hrun : i.evalProgram budget program with
  | exhausted => trivial
  | done v j =>
    obtain ⟨m, hdone, rfl⟩ := evalProgram_eq_done.1 hrun
    rw [hdone] at hkeeps
    exact hkeeps
  | failed failure j =>
    obtain ⟨fault, m, hfailed, -, rfl⟩ := evalProgram_eq_failed.1 hrun
    rw [hfailed] at hkeeps
    exact hkeeps

/-- However an evaluation ends, it leaves the interpreter at rest. -/
theorem evalProgram_level (i : Interpreter) (budget : Nat) (program : Program) :
    match i.evalProgram budget program with
    | .done _ j => j.machine.scope = Machine.root ∧ j.machine.depth = 0
    | .failed _ j => j.machine.scope = Machine.root ∧ j.machine.depth = 0
    | .exhausted => True :=
  i.evalProgram_keeps Machine.level_kept budget program

/-- An interpreter is at rest in every state that it comes to. -/
theorem Reached.atRest_eq {i : Interpreter} (h : i.Reached) : i.atRest = i := by
  have hlevel : i.machine.scope = Machine.root ∧ i.machine.depth = 0 := by
    induction h with
    | start host maxDepth layout => exact ⟨rfl, rfl⟩
    | @done i j budget program v _ run _ =>
      have hlevel := evalProgram_level i budget program
      rw [run] at hlevel
      exact hlevel
    | @failed i j budget program f _ run _ =>
      have hlevel := evalProgram_level i budget program
      rw [run] at hlevel
      exact hlevel
    | define _ name value ih => exact ih
    | @assign i j name value _ assigned ih =>
      simp only [Interpreter.assign] at assigned
      cases hheap : i.machine.heap.assign Machine.root name value with
      | error cause =>
        rw [hheap] at assigned
        cases assigned
      | ok heap =>
        rw [hheap] at assigned
        cases assigned
        exact ih
    | cleared _ ih => exact ih
  exact atRest_eq_self hlevel.1 hlevel.2

end Scriptlet.Interpreter
