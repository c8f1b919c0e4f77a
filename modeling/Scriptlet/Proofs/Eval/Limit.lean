/-
More room changes no run that fits. A run is held in by a budget and by the depth
that calls may reach. Given more of either it does what it did before, unless it
ran out of the budget, or met the fault that the limit of the depth is
(`Run.Extends`).

# The end of an evaluation

So an evaluation that ends within one budget ends the same way within every larger
one, and `Run.Ends` and `Interpreter.Ends` say how it ends without naming a budget.

# Why the limit cannot be seen

The number of open calls is the same in both runs at every moment, because a
relation between the outcomes on one machine is all that is shown of each part:
the parts of the larger run start from the machines that the parts of the smaller
one start from. The limit itself is looked at in one place only, before a call, and
there the larger one lets through whatever the smaller one does.
-/
import Scriptlet.Host.Prelude
import Scriptlet.Proofs.Eval.Likeness
import Scriptlet.Proofs.Eval.Rest

namespace Scriptlet

variable {α β : Type}

-- ==================================================== computations

/-- `y` does what `x` does, unless `x` is exhausted or meets a fault out of `except`. -/
def Run.Extends (except : Fault → Prop) (x y : Run α) : Prop :=
  ∀ m, match x m with
    | .done a m' => y m = .done a m'
    | .failed fault m' => except fault ∨ y m = .failed fault m'
    | .exhausted => True

/-- The second setup has the same host and leaves room for as many calls at least;
for more of them, reaching the limit of the first one is excepted. -/
structure Setup.Extends (except : Fault → Prop) (setup setup' : Setup) : Prop where
  host : setup'.host = setup.host
  deeper : setup.maxDepth ≤ setup'.maxDepth
  beyond : setup.maxDepth ≠ setup'.maxDepth →
    ∀ title pos, except ⟨.recursionLimit setup.maxDepth title, pos⟩

variable {except : Fault → Prop}

namespace Run

/-- The reflexive case, for the moves of the machine, which are the same in both runs. -/
theorem Extends.refl (x : Run α) : Extends except x x := by
  intro m
  cases x m with
  | done a m' => rfl
  | failed fault m' => exact .inr rfl
  | exhausted => trivial

/-- A value that the smaller run gives is the value of the larger one. -/
theorem Extends.done {x y : Run α} (h : Extends except x y) {m m' : Machine} {a : α}
    (hx : x m = .done a m') : y m = .done a m' := by
  have hm := h m
  rw [hx] at hm
  exact hm

/-- So is a fault, unless it is one of those that the larger run may avoid. -/
theorem Extends.failed {x y : Run α} (h : Extends except x y) {m m' : Machine} {fault : Fault}
    (hx : x m = .failed fault m') : except fault ∨ y m = .failed fault m' := by
  have hm := h m
  rw [hx] at hm
  exact hm

/-- Runs in a row extend each other part by part: where the first parts agree they leave
the same machine to the second. -/
theorem Extends.bind {x y : Run α} (hx : Extends except x y) {k k' : α → Run β}
    (hk : ∀ a, Extends except (k a) (k' a)) : Extends except (x >>= k) (y >>= k') := by
  intro m
  cases hxm : x m with
  | exhausted =>
    rw [bind_of_exhausted hxm]
    trivial
  | failed fault m' =>
    rw [bind_of_failed hxm]
    exact (hx.failed hxm).imp_right bind_of_failed
  | done a m' =>
    rw [bind_of_done hxm, bind_of_done (hx.done hxm)]
    exact hk a m'

/-- Doing the same to the state afterwards. -/
theorem Extends.mapState {x y : Run α} (h : Extends except x y) (m : Machine)
    (f : Machine → Machine) :
    match (x m).mapState f with
    | .done a m' => (y m).mapState f = .done a m'
    | .failed fault m' => except fault ∨ (y m).mapState f = .failed fault m'
    | .exhausted => True := by
  cases hx : x m with
  | exhausted => trivial
  | done a m' =>
    rw [h.done hx]
    rfl
  | failed fault m' =>
    refine (h.failed hx).imp_right fun hy => ?_
    rw [hy]
    rfl

private theorem inFrame_extends (parent : Nat) (bindings : Entries String Value) {x y : Run α}
    (h : Extends except x y) :
    Extends except (Run.inFrame parent bindings x) (Run.inFrame parent bindings y) := by
  intro m
  rw [inFrame_eq, inFrame_eq]
  exact h.mapState _ _

private theorem inBlock_extends (bindings : Entries String Value) {x y : Run α}
    (h : Extends except x y) :
    Extends except (Run.inBlock bindings x) (Run.inBlock bindings y) :=
  fun m => inFrame_extends m.scope bindings h m

private theorem inCall_extends {x y : Run α} (h : Extends except x y) :
    Extends except (Run.inCall x) (Run.inCall y) := by
  intro m
  rw [inCall_eq, inCall_eq]
  exact h.mapState _ _

end Run

/-- To be extended is a way of being alike, for which nothing is looked at but the outcomes. -/
def Run.extending (except : Fault → Prop) : Run.Likeness where
  Like := Extends except
  refl _ := .refl _
  bind hx hk := hx.bind hk
  inBlock bindings h := inBlock_extends bindings h

namespace Eval

open Run (Extends extending)

-- ========================================================== calls

/-- The one place where the limit is looked at. -/
theorem callClosure_extends {setup setup' : Setup} (hsetup : setup.Extends except setup')
    {exec exec' : Stmt → Run Flow} (h : ∀ s, Extends except (exec s) (exec' s)) (f : Closure)
    (args : List Value) (pos : Position) :
    Extends except (callClosure setup exec f args pos) (callClosure setup' exec' f args pos) := by
  intro m
  unfold callClosure
  by_cases harity : args.length ≠ f.code.arity
  · rw [if_pos harity, if_pos harity]
    exact .inr rfl
  rw [if_neg harity, if_neg harity]
  by_cases hdepth : setup.maxDepth ≤ m.depth
  · rw [if_pos hdepth]
    by_cases hlimit : setup.maxDepth = setup'.maxDepth
    · rw [← hlimit, if_pos hdepth]
      exact .inr rfl
    · exact .inl (hsetup.beyond hlimit _ _)
  · have hdepth' : ¬ setup'.maxDepth ≤ m.depth := fun hle =>
      hdepth (Nat.le_trans hsetup.deeper hle)
    rw [if_neg hdepth, if_neg hdepth']
    have hbody := sequence_like (L := extending except) h f.code.body
    exact (Run.inCall_extends (Run.inFrame_extends f.frame _ hbody)).bind
      (fun flow => .refl (callResult pos flow)) m

-- ====================================================== evaluation

/-- Evaluation with more room extends evaluation with less. -/
theorem parts_extend {setup setup' : Setup} (hsetup : setup.Extends except setup')
    {budget budget' : Nat} (hbudget : budget ≤ budget') :
    PartsLike (extending except) (Expr.eval setup budget) (Expr.eval setup' budget')
      (Stmt.exec setup budget) (Stmt.exec setup' budget') := by
  have hnone {α : Type} (y : Run α) : (extending except).Like Run.exhausted y := fun _ => trivial
  induction budget generalizing budget' with
  | zero =>
    refine ⟨fun e => ?_, fun s => ?_⟩
    · rw [Expr.eval_zero]
      exact hnone _
    · rw [Stmt.exec_zero]
      exact hnone _
  | succ budget ih =>
    obtain ⟨more, rfl⟩ := Nat.exists_eq_add_of_lt hbudget
    have hparts := ih (Nat.le_add_right budget more)
    refine ⟨fun e => ?_, fun s => ?_⟩
    · rw [Expr.eval_succ, Expr.eval_succ]
      exact step_expr_like hparts hsetup.host (callClosure_extends hsetup hparts.stmt) e
    · rw [Stmt.exec_succ, Stmt.exec_succ]
      exact step_stmt_like hparts (Nat.le_add_right budget more) (.inr hnone) s

end Eval

-- ============================================================ ends

section Ends

variable {m m' : Machine}

/-- How a computation ends that is given enough of the budget. -/
def Run.Ends (x : Nat → Run α) (m : Machine) (outcome : Outcome Machine Fault α) : Prop :=
  outcome ≠ .exhausted ∧ ∃ enough, ∀ budget, enough ≤ budget → x budget m = outcome

/-- More of the budget changes no run that fits. -/
def Run.Grows (x : Nat → Run α) : Prop :=
  ∀ budget budget' m, budget ≤ budget' → x budget m ≠ .exhausted → x budget' m = x budget m

namespace Run

variable {x y : Nat → Run α} {k : Nat → α → Run β} {outcome outcome' : Outcome Machine Fault α}

/-- A run has one outcome, whatever budget it is found with. -/
theorem Ends.unique (h : Ends x m outcome) (h' : Ends x m outcome') : outcome = outcome' := by
  obtain ⟨-, enough, henough⟩ := h
  obtain ⟨-, enough', henough'⟩ := h'
  rw [← henough _ (Nat.le_max_left enough enough'), henough' _ (Nat.le_max_right enough enough')]

/-- One budget that is enough shows the outcome of all larger ones. -/
theorem Grows.ends (hx : Grows x) {budget : Nat} (h : x budget m = outcome)
    (hends : outcome ≠ .exhausted) : Ends x m outcome :=
  ⟨hends, budget, fun budget' hle => (hx budget budget' m hle (h ▸ hends)).trans h⟩

theorem Grows.ends_done (hx : Grows x) {budget : Nat} {a : α} (h : x budget m = .done a m') :
    Ends x m (.done a m') :=
  hx.ends h nofun

/-- If both parts have an outcome, so has the whole; the larger of the two bounds is
enough for it. -/
theorem Ends.bind_done {a : α} {ending : Outcome Machine Fault β} (hx : Ends x m (.done a m'))
    (hk : Ends (fun budget => k budget a) m' ending) :
    Ends (fun budget => x budget >>= k budget) m ending := by
  obtain ⟨-, enough, henough⟩ := hx
  obtain ⟨hends, enough', henough'⟩ := hk
  refine ⟨hends, max enough enough', fun budget hbudget => ?_⟩
  obtain ⟨hle, hle'⟩ := Nat.max_le.1 hbudget
  exact (bind_of_done (henough budget hle)).trans (henough' budget hle')

/-- If the first part fails, the rest needs no budget. -/
theorem Ends.bind_failed {fault : Fault} (hx : Ends x m (.failed fault m')) :
    Ends (fun budget => x budget >>= k budget) m (.failed fault m') := by
  obtain ⟨-, enough, henough⟩ := hx
  exact ⟨nofun, enough, fun budget hbudget => bind_of_failed (henough budget hbudget)⟩

/-- What looks at no budget. -/
theorem ends_const {x : Run α} (h : x m ≠ .exhausted) : Ends (fun _ => x) m (x m) :=
  ⟨h, 0, fun _ _ => rfl⟩

theorem ofExcept_ne_exhausted (result : Except Fault α) (m : Machine) :
    Run.ofExcept result m ≠ .exhausted := by
  cases result <;> nofun

/-- How a step ends, the evaluator ends with one more of the budget. -/
theorem Ends.next (h : Ends x m outcome) (hy : ∀ budget, y (budget + 1) m = x budget m) :
    Ends y m outcome := by
  obtain ⟨hends, enough, henough⟩ := h
  refine ⟨hends, enough + 1, fun budget hbudget => ?_⟩
  cases budget with
  | zero => cases hbudget
  | succ budget => exact (hy budget).trans (henough budget (Nat.le_of_succ_le_succ hbudget))

/-- Changing the state afterwards. -/
theorem Ends.mapState (h : Ends x m' outcome) (f : Machine → Machine)
    (hy : ∀ budget, y budget m = (x budget m').mapState f) : Ends y m (outcome.mapState f) := by
  obtain ⟨hends, enough, henough⟩ := h
  refine ⟨Outcome.mapState_ne_exhausted f hends, enough, fun budget hbudget => ?_⟩
  rw [hy, henough budget hbudget]

end Run

variable (setup : Setup)

/-- How a statement ends that is given enough of the budget. -/
def Stmt.Ends (s : Stmt) (m : Machine) (outcome : Outcome Machine Fault Flow) : Prop :=
  Run.Ends (fun budget => Stmt.exec setup budget s) m outcome

/-- With no fault excepted, extending a run that has ended is being that run. -/
theorem Run.Extends.eq {x y : Run α} (h : Extends (fun _ => False) x y) (hx : x m ≠ .exhausted) :
    y m = x m := by
  cases hxm : x m with
  | exhausted => exact absurd hxm hx
  | done a m' => exact h.done hxm
  | failed fault m' => exact (h.failed hxm).resolve_left id

/-- More budget changes nothing where less was enough. -/
private theorem Eval.parts_grow {budget budget' : Nat} (h : budget ≤ budget') :
    PartsLike (Run.extending fun _ => False) (Expr.eval setup budget) (Expr.eval setup budget')
      (Stmt.exec setup budget) (Stmt.exec setup budget') :=
  parts_extend ⟨rfl, Nat.le_refl _, fun hne => absurd rfl hne⟩ h

/-- A larger budget gives the same outcome, for expressions, for statements and for
places. -/
theorem Expr.eval_grows (e : Expr) : Run.Grows fun budget => Expr.eval setup budget e :=
  fun _ _ _ h => ((Eval.parts_grow setup h).expr e).eq

theorem Stmt.exec_grows (s : Stmt) : Run.Grows fun budget => Stmt.exec setup budget s :=
  fun _ _ _ h => ((Eval.parts_grow setup h).stmt s).eq

theorem Eval.place_grows (target : Expr) :
    Run.Grows fun budget => place (Expr.eval setup budget) target :=
  fun _ _ _ h => Run.Extends.eq (place_like (parts_grow setup h) target)

end Ends

-- ======================================================== programs

/-- A program with more room extends the same program with less. -/
theorem Program.results_extends {setup setup' : Setup} (hsetup : setup.Extends except setup')
    {budget budget' : Nat} (hbudget : budget ≤ budget') (program : Program) (last : Value) :
    Run.Extends except (results (Stmt.exec setup budget) program last)
      (results (Stmt.exec setup' budget') program last) :=
  results_like (Eval.parts_extend hsetup hbudget).stmt program last

namespace Interpreter

/-- The interpreter with another limit of the call depth. -/
def limited (i : Interpreter) (maxDepth : Nat) : Interpreter :=
  { i with setup := { i.setup with maxDepth } }

/-- How the evaluation of a program ends: so for all budgets from some one on. -/
def Ends (i : Interpreter) (program : Program) (outcome : Outcome Interpreter Failure Value) :
    Prop :=
  outcome ≠ .exhausted ∧ ∃ enough, ∀ budget, enough ≤ budget → i.evalProgram budget program = outcome

variable {i : Interpreter} {program : Program} {outcome : Outcome Interpreter Failure Value}

/-- One budget that is enough shows how the evaluation ends. -/
theorem ends_of_evalProgram {budget : Nat} (h : i.evalProgram budget program = outcome)
    (hends : outcome ≠ .exhausted) : i.Ends program outcome := by
  refine ⟨hends, budget, fun budget' hbudget => ?_⟩
  have hsame : i.setup.Extends (fun _ => False) i.setup :=
    ⟨rfl, Nat.le_refl _, fun hne => absurd rfl hne⟩
  have hextends := Program.results_extends hsame hbudget program .nil
  cases outcome with
  | exhausted => exact absurd rfl hends
  | done v j =>
    obtain ⟨m, hrun, rfl⟩ := evalProgram_eq_done.1 h
    exact evalProgram_eq_done.2 ⟨m, hextends.done hrun, rfl⟩
  | failed failure j =>
    obtain ⟨fault, m, hrun, rfl, rfl⟩ := evalProgram_eq_failed.1 h
    exact evalProgram_eq_failed.2 ⟨fault, m, (hextends.failed hrun).resolve_left id, rfl, rfl⟩

/-- A higher limit of the call depth changes no evaluation that fits under a lower
one. If the evaluation of a program ends with the lower limit, and not because it
reached that limit, then it ends with the higher one: with the same value or the same
failure, and in the same state, the limit apart. -/
theorem ends_limited (i : Interpreter) {limit limit' : Nat} (hlimit : limit ≤ limit')
    (hends : (i.limited limit).Ends program outcome)
    (hfits : ∀ failure j, outcome = .failed failure j →
      failure.kind ≠ .runtime .recursionLimit) :
    (i.limited limit').Ends program (outcome.mapState (·.limited limit')) := by
  obtain ⟨hends, enough, henough⟩ := hends
  have hdeeper : (i.limited limit).setup.Extends (fun f => f.cause.kind = .recursionLimit)
      (i.limited limit').setup :=
    ⟨rfl, hlimit, fun _ _ _ => rfl⟩
  have hextends := Program.results_extends hdeeper (Nat.le_refl enough) program .nil
  have hroomier : (i.limited limit').evalProgram enough program
      = outcome.mapState (·.limited limit') := by
    cases outcome with
    | exhausted => exact absurd rfl hends
    | done v j =>
      obtain ⟨m, hrun, rfl⟩ := evalProgram_eq_done.1 (henough enough (Nat.le_refl enough))
      exact evalProgram_eq_done.2 ⟨m, hextends.done hrun, rfl⟩
    | failed failure j =>
      obtain ⟨fault, m, hrun, rfl, rfl⟩ :=
        evalProgram_eq_failed.1 (henough enough (Nat.le_refl enough))
      have hfailed := (hextends.failed hrun).resolve_left fun hkind =>
        hfits (.fault fault) _ rfl (congrArg Diagnostic.Kind.runtime hkind)
      exact evalProgram_eq_failed.2 ⟨fault, m, hfailed, rfl, rfl⟩
  exact ends_of_evalProgram hroomier (Outcome.mapState_ne_exhausted _ hends)

/-- A program with a function that calls itself once. -/
def descent : Program :=
  [.function .start ⟨some "down", [⟨"more", .start⟩],
      [.if_ .start (.name .start "more")
        [.return_ .start
          (some (.call .start (.name .start "down") [.literal .start (.bool false)]))] none], .start⟩,
    .expr .start (.call .start (.name .start "down") [.literal .start (.bool true)])]

/-- The theorem at a recursion two calls deep, under the limits 2 and 200. -/
theorem ends_limited_descent :
    2 ≤ 200 ∧ ∃ v j, ((start Prelude.host 7 {}).limited 2).Ends descent (.done v j)
      ∧ ((start Prelude.host 7 {}).limited 200).Ends descent (.done v (j.limited 200)) := by
  have hlimit : 2 ≤ 200 := by decide
  obtain ⟨v, j, hrun⟩ : ∃ v j,
      ((start Prelude.host 7 {}).limited 2).evalProgram 20 descent = .done v j :=
    Outcome.exists_done (by decide +kernel)
  have hends := ends_of_evalProgram hrun fun heq => nomatch heq
  have hfits : ∀ (failure : Failure) (j' : Interpreter),
      (.done v j : Outcome Interpreter Failure Value) = .failed failure j' →
        failure.kind ≠ .runtime .recursionLimit :=
    fun _ _ heq => nomatch heq
  exact ⟨hlimit, v, j, hends, ends_limited (start Prelude.host 7 {}) hlimit hends hfits⟩

end Interpreter

end Scriptlet
