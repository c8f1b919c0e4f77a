/-
Signals that nothing takes. `break` and `continue` belong in a loop, and `return`
in a function. If a program keeps to that, and so do all functions that it may
call, then no signal ever gets out of a function or to the end of the program.

# Why places are enough

A statement ends in a signal only if the signal stands in it and outside its loops
(`Stmt.exec_signal`): this is read off the statement alone, because a call takes
`return` and lets nothing else out of the function. So what a call makes of
`break` and `continue` depends on the code of the function that is called, and
that is the code of a function that is stored, or lent, or made by the program.
-/
import Scriptlet.Proofs.Eval.Reach

namespace Scriptlet

-- ================================================== well placed

/-- Functions let neither `break` nor `continue` out of their body. -/
def Tree.Rule.placed : Tree.Rule :=
  { code := fun c => ∀ signal, signal ≠ .return_ → Stmt.leaksIn signal c.body = false }

/-- A program whose signals are all where they belong: `break` and `continue` in
the body of a loop, `return` in the body of a function. -/
structure Program.WellPlaced (program : Program) : Prop where
  outside : ∀ signal, Stmt.leaksIn signal program = false
  functions : program.Every .placed

/-- Whether a statement is a loop. -/
def Stmt.isLoop : Stmt → Bool
  | .while_ .. | .for_ .. => true
  | _ => false

private theorem Stmt.leaksIn_eq_false {signal : Signal} {body : List Stmt} :
    Stmt.leaksIn signal body = false ↔ ∀ s ∈ body, s.leaks signal = false := by
  induction body with
  | nil => simp [Stmt.leaksIn]
  | cons s rest ih => simp [Stmt.leaksIn, ih]

/-- Loops let no signal out but `return`. -/
theorem Stmt.leaks_of_isLoop {s : Stmt} (hs : s.isLoop = true) (signal : Signal)
    (hsignal : signal ≠ .return_) : s.leaks signal = false := by
  cases s with
  | while_ pos condition body => simp [Stmt.leaks, hsignal]
  | for_ pos name iterable body => simp [Stmt.leaks, hsignal]
  | _ => cases hs

-- ======================================================== endings

/-- A statement that ends in a signal leaks that signal. -/
theorem Stmt.exec_signal {setup : Setup} {budget : Nat} {s : Stmt} {m m' : Machine} {flow : Flow}
    (h : Stmt.exec setup budget s m = .done flow m') {signal : Signal}
    (hflow : flow.signal? = some signal) : s.leaks signal = true := by
  have hmeets := (Eval.meets (Machine.level_kept.lawful setup) budget).stmt
    (Tree.every_any.ofStmt s) (Run.Kept.good m)
  exact (hmeets.done h).2.signal signal hflow

/-- A loop takes what `break` and `continue` are for. -/
theorem Stmt.exec_loop {setup : Setup} {budget : Nat} {s : Stmt} {m m' : Machine} {flow : Flow}
    (hs : s.isLoop = true) (h : Stmt.exec setup budget s m = .done flow m') :
    flow ≠ .break_ ∧ flow ≠ .continue_ := by
  constructor
  · rintro rfl
    have hleaks := Stmt.exec_signal h rfl
    rw [Stmt.leaks_of_isLoop hs .break_ nofun] at hleaks
    cases hleaks
  · rintro rfl
    have hleaks := Stmt.exec_signal h rfl
    rw [Stmt.leaks_of_isLoop hs .continue_ nofun] at hleaks
    cases hleaks

namespace Interpreter

/-- An evaluation of a well-placed program, in a state where all functions are well
placed, does not end in a signal that nothing took, and leaves such a state.
On whatever machine, no loop ends in `break` or `continue`, and no statement does
that does not leak them. -/
theorem evalProgram_wellPlaced {i : Interpreter} (hi : i.Holds .placed) {program : Program}
    (hprogram : program.WellPlaced) (budget : Nat) :
    (match i.evalProgram budget program with
      | .done _ j => j.machine.Holds .placed
      | .failed failure j => failure.kind ≠ .runtime .uncaughtSignal ∧ j.machine.Holds .placed
      | .exhausted => True)
      ∧ ∀ (setup : Setup) (budget : Nat) (s : Stmt) (m : Machine) (flow : Flow) (m' : Machine),
        Stmt.exec setup budget s m = .done flow m' →
          (s.isLoop = true → flow ≠ .break_ ∧ flow ≠ .continue_)
          ∧ (flow = .break_ → s.leaks .break_ = true)
          ∧ (flow = .continue_ → s.leaks .continue_ = true) := by
  refine ⟨?_, fun setup budget s m flow m' hexec => ⟨fun hs => Stmt.exec_loop hs hexec, ?_, ?_⟩⟩
  · -- neither a call nor the program itself lets a signal out
    have hescape (code : Code) (signal : Signal) (pos : Position)
        (hcode : Tree.Rule.placed.code code) (hsignal : signal ≠ .return_)
        (hleaks : Stmt.leaksIn signal code.body = true) :
        ∀ other, (⟨.uncaught signal, pos⟩ : Fault).cause ≠ .uncaught other := by
      rw [hcode signal hsignal] at hleaks
      cases hleaks
    have huncaught (s : Stmt) (hs : s ∈ program) (signal : Signal)
        (hleaks : s.leaks signal = true) :
        ∀ other, (⟨.uncaught signal, s.pos⟩ : Fault).cause ≠ .uncaught other := by
      rw [Stmt.leaksIn_eq_false.1 (hprogram.outside signal) s hs] at hleaks
      cases hleaks
    have hholds := evalProgram_holds (fun f => ∀ signal, f.cause ≠ .uncaught signal) hi
      (fun _ hplain => hplain) hescape hprogram.functions huncaught budget
    cases hrun : i.evalProgram budget program with
    | exhausted => trivial
    | done v j =>
      rw [hrun] at hholds
      exact hholds
    | failed failure j =>
      rw [hrun] at hholds
      obtain ⟨hstored, ⟨cause, pos⟩, rfl, hcause⟩ := hholds
      refine ⟨fun hkind => ?_, hstored⟩
      cases cause with
      | uncaught signal => exact hcause signal rfl
      | _ => cases hkind
  · rintro rfl
    exact Stmt.exec_signal hexec rfl
  · rintro rfl
    exact Stmt.exec_signal hexec rfl

/-- A program with a function that leaves a loop, and a loop that calls it and
goes on. -/
def interrupted : Program :=
  [.function .start ⟨some "f", [],
      [.while_ .start (.literal .start (.bool true)) [.break_ .start],
        .return_ .start (some (.literal .start (.bool true)))], .start⟩,
    .for_ .start "x" (.list .start [.literal .start .nil])
      [.if_ .start (.call .start (.name .start "f") []) [.continue_ .start] none]]

private theorem interrupted_wellPlaced : interrupted.WellPlaced := by
  refine ⟨fun signal => by cases signal <;> rfl, ?_⟩
  have hliteral (value : Literal) : (Expr.literal .start value).Every .placed :=
    .mk trivial nofun nofun
  have hcall : (Expr.call .start (.name .start "f") []).Every .placed :=
    .mk trivial (List.forall_mem_singleton.2 (.mk trivial nofun nofun)) nofun
  have hwhile : (Stmt.while_ .start (.literal .start (.bool true)) [.break_ .start]).Every
      .placed :=
    .mk trivial (List.forall_mem_singleton.2 (hliteral _))
      (List.forall_mem_singleton.2 (.mk trivial nofun nofun nofun)) nofun
  have hreturn : (Stmt.return_ .start (some (.literal .start (.bool true)))).Every .placed :=
    .mk trivial (List.forall_mem_singleton.2 (hliteral _)) nofun nofun
  have hif : (Stmt.if_ .start (.call .start (.name .start "f") []) [.continue_ .start] none).Every
      .placed :=
    .mk trivial (List.forall_mem_singleton.2 hcall)
      (List.forall_mem_singleton.2 (.mk trivial nofun nofun nofun)) nofun
  refine List.forall_mem_cons.2 ⟨.mk trivial nofun nofun ?_, List.forall_mem_singleton.2 ?_⟩
  · rintro code ⟨⟩
    refine .mk (fun signal hsignal => by cases signal <;> first | rfl | exact absurd rfl hsignal) ?_
    exact List.forall_mem_cons.2 ⟨hwhile, List.forall_mem_singleton.2 hreturn⟩
  · refine .mk trivial (List.forall_mem_singleton.2 ?_) (List.forall_mem_singleton.2 hif) nofun
    exact .mk trivial (List.forall_mem_singleton.2 (hliteral _)) nofun

/-- The theorem there. -/
theorem evalProgram_wellPlaced_interrupted :
    (start Prelude.host 200 {}).Holds .placed ∧ interrupted.WellPlaced
      ∧ ∃ v j, (start Prelude.host 200 {}).evalProgram 20 interrupted = .done v j
        ∧ j.machine.Holds .placed := by
  have hholds : (start Prelude.host 200 {}).Holds .placed := start_holds Prelude.host_lends 200 {}
  refine ⟨hholds, interrupted_wellPlaced, ?_⟩
  obtain ⟨hplaced, -⟩ := evalProgram_wellPlaced hholds interrupted_wellPlaced 20
  obtain ⟨v, j, hrun⟩ : ∃ v j, (start Prelude.host 200 {}).evalProgram 20 interrupted = .done v j :=
    Outcome.exists_done (by decide +kernel)
  rw [hrun] at hplaced
  exact ⟨v, j, hrun, hplaced⟩

end Interpreter

end Scriptlet
