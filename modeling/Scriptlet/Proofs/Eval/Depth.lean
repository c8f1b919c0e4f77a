/-
The depth counts open calls. Entering a call and leaving it are the only moves that change
the depth, so it is at every moment how many bodies of functions the machine is inside of.

# Watching an evaluation

What holds at every moment cannot be read off the ends of evaluations. So an evaluation is
watched (`Expr.watched`, `Stmt.watched`): it is given how many bodies it runs inside of,
hands its number on to its parts and one more to the bodies of the functions that it calls,
and stops with an alarm where an expression or a statement begins on a machine that has
counted otherwise, or beyond the limit. Since nothing stops an alarm, an evaluation that
ends as it does unwatched, whatever the alarm, was never stopped by one.

# Why it goes through

Two evaluations agree inside so many bodies if they do the same on each machine of that
depth and leave it at that depth (`Run.AgreesAt`). Putting computations in a row keeps
this, so evaluations agree if those of their parts do (`Run.Likeness`); and a call passes
from one depth to the next.
-/
import Scriptlet.Proofs.Eval.Likeness
import Scriptlet.Proofs.Eval.Rest

namespace Scriptlet

variable {α β : Type}

-- ========================================================= watching

mutual

/-- Evaluates an expression inside of so many bodies of functions, and raises the alarm if
the machine has not counted them or may not be inside of so many. -/
def Expr.watched (setup : Setup) (alarm : Fault) : Nat → Nat → Expr → Run Value
  | 0, _, _, _ => .exhausted
  | budget + 1, active, e, m =>
    if m.depth = active ∧ active ≤ setup.maxDepth then
      e.step setup (Expr.watched setup alarm budget active)
        (Stmt.watched setup alarm budget (active + 1)) m
    else .failed alarm m

/-- Executes a statement inside of so many bodies of functions, and raises the alarm if the
machine has not counted them or may not be inside of so many. -/
def Stmt.watched (setup : Setup) (alarm : Fault) : Nat → Nat → Stmt → Run Flow
  | 0, _, _, _ => .exhausted
  | budget + 1, active, s, m =>
    if m.depth = active ∧ active ≤ setup.maxDepth then
      s.step (Expr.watched setup alarm budget active) (Stmt.watched setup alarm budget active)
        budget m
    else .failed alarm m

end

/-- Runs a program in the outermost frame, outside of all functions, watching it. -/
def Program.watched (setup : Setup) (alarm : Fault) (budget : Nat) (program : Program) :
    Run Value := fun m =>
  results (Stmt.watched setup alarm budget 0) program .nil
    { m with scope := Machine.root, depth := 0 }

-- ======================================================== agreement

/-- On machines of the given depth, `y` does what `x` does, and leaves them at that depth. -/
def Run.AgreesAt (depth : Nat) (x y : Run α) : Prop :=
  ∀ m, m.depth = depth → y m = x m ∧ (x m).AtDepth depth

namespace Run

variable {depth : Nat}

/-- The first part gives its level back, so the second starts at the depth that both are
compared at. -/
theorem AgreesAt.bind {x y : Run α} (hx : AgreesAt depth x y) {k l : α → Run β}
    (hk : ∀ a, AgreesAt depth (k a) (l a)) : AgreesAt depth (x >>= k) (y >>= l) := by
  intro m hm
  obtain ⟨hsame, hdepth⟩ := hx m hm
  cases hxm : x m with
  | exhausted =>
    rw [hxm] at hsame
    rw [bind_of_exhausted hxm, bind_of_exhausted hsame]
    exact ⟨rfl, trivial⟩
  | failed fault m' =>
    rw [hxm] at hsame hdepth
    rw [bind_of_failed hxm, bind_of_failed hsame]
    exact ⟨rfl, hdepth⟩
  | done a m' =>
    rw [hxm] at hsame hdepth
    rw [bind_of_done hxm, bind_of_done hsame]
    exact hk a m' hdepth

/-- Doing the same to the state afterwards. -/
theorem AgreesAt.mapState {x y : Run α} (h : AgreesAt depth x y) {m : Machine}
    (hm : m.depth = depth) (f : Machine → Machine) {depth' : Nat}
    (hf : ∀ m' : Machine, m'.depth = depth → (f m').depth = depth') :
    (y m).mapState f = (x m).mapState f ∧ ((x m).mapState f).AtDepth depth' := by
  obtain ⟨hsame, hdepth⟩ := h m hm
  refine ⟨congrArg (Outcome.mapState f) hsame, ?_⟩
  cases hxm : x m with
  | exhausted => trivial
  | failed fault m' =>
    rw [hxm] at hdepth
    exact hf m' hdepth
  | done a m' =>
    rw [hxm] at hdepth
    exact hf m' hdepth

private theorem inFrame_agrees (parent : Nat) (bindings : Entries String Value) {x y : Run α}
    (h : AgreesAt depth x y) :
    AgreesAt depth (Run.inFrame parent bindings x) (Run.inFrame parent bindings y) := by
  intro m hm
  rw [inFrame_eq, inFrame_eq]
  exact h.mapState (m := m.entered parent bindings) hm _ fun _ hm' => hm'

private theorem inBlock_agrees (bindings : Entries String Value) {x y : Run α}
    (h : AgreesAt depth x y) :
    AgreesAt depth (Run.inBlock bindings x) (Run.inBlock bindings y) :=
  fun m => inFrame_agrees m.scope bindings h m

/-- Inside of a call the machine has counted one more. -/
theorem inCall_agrees {x y : Run α} (h : AgreesAt (depth + 1) x y) :
    AgreesAt depth (Run.inCall x) (Run.inCall y) := by
  intro m hm
  rw [inCall_eq, inCall_eq]
  refine h.mapState (m := m.called) (congrArg (· + 1) hm) _ fun m' hm' => ?_
  show m'.depth - 1 = depth
  rw [hm']
  rfl

/-- To agree at a depth is a way of being alike. -/
def agreeing (depth : Nat) : Run.Likeness where
  Like := AgreesAt depth
  refl h := fun m hm => ⟨rfl, hm ▸ h m⟩
  bind hx hk := hx.bind hk
  inBlock bindings h := inBlock_agrees bindings h

end Run

namespace Eval

open Run (AgreesAt agreeing)

-- =========================================================== calls

/-- A call that is let through is one that may be counted. -/
theorem callClosure_agrees {setup : Setup} {depth : Nat} {body body' : Stmt → Run Flow}
    (h : depth < setup.maxDepth → ∀ s, AgreesAt (depth + 1) (body s) (body' s)) (f : Closure)
    (args : List Value) (pos : Position) :
    AgreesAt depth (callClosure setup body f args pos) (callClosure setup body' f args pos) := by
  have hrefused (cause : Cause) :
      AgreesAt depth (Run.fault cause pos : Run Value) (Run.fault cause pos) :=
    (agreeing depth).refl (.fault cause pos)
  intro m hm
  unfold callClosure
  by_cases harity : args.length ≠ f.code.arity
  · rw [if_pos harity, if_pos harity]
    exact hrefused _ m hm
  rw [if_neg harity, if_neg harity]
  by_cases hdepth : setup.maxDepth ≤ m.depth
  · rw [if_pos hdepth, if_pos hdepth]
    exact hrefused _ m hm
  rw [if_neg hdepth, if_neg hdepth]
  have hbody := sequence_like (L := agreeing (depth + 1)) (h (hm ▸ Nat.lt_of_not_le hdepth))
    f.code.body
  exact (Run.inCall_agrees (Run.inFrame_agrees f.frame _ hbody)).bind
    (fun flow => (agreeing depth).refl (callResult_isLevel pos flow)) m hm

-- ====================================================== evaluation

/-- Watching an evaluation changes nothing, inside of as many bodies as the machine has
counted, if it may have counted so many. -/
theorem watched_agrees (setup : Setup) (alarm : Fault) (budget : Nat) {active : Nat}
    (hactive : active ≤ setup.maxDepth) :
    (∀ e, AgreesAt active (Expr.eval setup budget e) (Expr.watched setup alarm budget active e))
      ∧ ∀ s, AgreesAt active (Stmt.exec setup budget s)
        (Stmt.watched setup alarm budget active s) := by
  induction budget generalizing active with
  | zero =>
    refine ⟨fun e m _ => ?_, fun s m _ => ?_⟩
    · rw [Expr.watched, Expr.eval]
      exact ⟨rfl, trivial⟩
    · rw [Stmt.watched, Stmt.exec]
      exact ⟨rfl, trivial⟩
  | succ budget ih =>
    have hparts : PartsLike (agreeing active) (Expr.eval setup budget)
        (Expr.watched setup alarm budget active) (Stmt.exec setup budget)
        (Stmt.watched setup alarm budget active) := ⟨(ih hactive).1, (ih hactive).2⟩
    refine ⟨fun e m hm => ?_, fun s m hm => ?_⟩
    · rw [Expr.watched, Expr.eval, if_pos ⟨hm, hactive⟩]
      exact step_expr_like hparts rfl (callClosure_agrees fun hlt => (ih hlt).2) e m hm
    · rw [Stmt.watched, Stmt.exec, if_pos ⟨hm, hactive⟩]
      exact step_stmt_like hparts (Nat.le_refl budget) (.inl rfl) s m hm

-- ================================================= scope and depth

section Level

variable (setup : Setup) (budget : Nat)

/-- Every statement ends in the frame and at the depth that it began in. -/
theorem exec_level (s : Stmt) : Run.Keeps Machine.Level (Stmt.exec setup budget s) := by
  intro m
  have hC := Machine.level_kept.lawful setup
  have hmeets := (Eval.meets hC budget).stmt (Tree.every_any.ofStmt s) (Run.Kept.good m)
  exact (hmeets.mono (through_widen hC s) fun _ _ h => h).keeps

private theorem list_level (items : List Expr) :
    Run.Keeps Machine.Level (list (Expr.eval setup budget) items) := by
  intro m
  have hC := Machine.level_kept.lawful setup
  exact (list_meets hC (Eval.meets hC budget) (fun e _ => Tree.every_any.ofExpr e)
    (Run.Kept.good m)).keeps

private theorem block_level (bindings : Entries String Value) (body : List Stmt) :
    Run.Keeps Machine.Level (block (Stmt.exec setup budget) bindings body) := by
  intro m
  have hC := Machine.level_kept.lawful setup
  exact (block_meets hC (Eval.meets hC budget) (fun s _ => Tree.every_any.ofStmt s)
    (Run.Kept.good m) fun binding _ => Run.Kept.holds _ binding.2).keeps

/-- A call that is refused at the limit keeps the level as well. -/
private theorem call_level (callee : Value) (args : List Value) (pos : Position) :
    Run.Keeps Machine.Level (call setup (Stmt.exec setup budget) callee args pos) := by
  intro m
  have hC := Machine.level_kept.lawful setup
  have hcall :
      (Contract.free Machine.Level Machine.Level).tree.expr (.call pos (.name pos "") []) :=
    trivial
  exact (call_meets hC (Eval.meets hC budget) hcall (Run.Kept.good m) (Run.Kept.holds _ callee)
    fun v _ => Run.Kept.holds _ v).keeps

end Level

/-- A call with as many arguments as it should have is refused by the limit, whatever the
body would do, if and only if as many calls are open as may be. -/
theorem callClosure_refused_iff {setup : Setup} {f : Closure} {args : List Value}
    (hargs : args.length = f.code.arity) (pos : Position) {m : Machine}
    (hm : m.depth ≤ setup.maxDepth) :
    (∀ exec, callClosure setup exec f args pos m
        = .failed ⟨.recursionLimit setup.maxDepth f.code.title, pos⟩ m)
      ↔ m.depth = setup.maxDepth := by
  have hcall (exec : Stmt → Run Flow) : callClosure setup exec f args pos m
      = if setup.maxDepth ≤ m.depth then
          .failed ⟨.recursionLimit setup.maxDepth f.code.title, pos⟩ m
        else (Run.inCall (Run.inFrame f.frame (parameters f.code args)
          (sequence exec f.code.body)) >>= callResult pos) m := by
    unfold callClosure
    rw [if_neg (not_not_intro hargs)]
    rfl
  constructor
  · intro hrefused
    refine Nat.le_antisymm hm (Nat.le_of_not_lt fun hlt => ?_)
    -- no body that ends in nothing fails
    have hbody := hrefused fun _ => Run.exhausted
    rw [hcall fun _ => Run.exhausted, if_neg (Nat.not_le_of_lt hlt)] at hbody
    cases hstatements : f.code.body with
    | nil =>
      rw [hstatements] at hbody
      cases hbody
    | cons s rest =>
      rw [hstatements] at hbody
      cases hbody
  · intro hfull exec
    rw [hcall, if_pos (Nat.le_of_eq hfull.symm)]

/-- Scope and depth are kept, and the depth counts calls. Expressions, statements, blocks and
calls end in the frame and at the depth that they began in, whether they succeed or fail.
Programs, and all that is run on a machine that has not counted too many calls, do the same
when they are watched: whatever begins to run runs inside of as many bodies of functions as
the machine has counted, which are no more than the limit. So when a function is called with
as many arguments as it should have, the call itself is refused by the limit, without its
body, if and only if as many bodies as the limit are active. -/
theorem scope_and_depth (setup : Setup) (budget : Nat) :
    ((∀ e, Run.Keeps Machine.Level (Expr.eval setup budget e))
        ∧ (∀ s, Run.Keeps Machine.Level (Stmt.exec setup budget s))
        ∧ (∀ bindings body, Run.Keeps Machine.Level (block (Stmt.exec setup budget) bindings body))
        ∧ ∀ callee args pos,
          Run.Keeps Machine.Level (call setup (Stmt.exec setup budget) callee args pos))
      ∧ (∀ alarm program, Program.watched setup alarm budget program = program.run setup budget)
      ∧ (∀ alarm m, m.depth ≤ setup.maxDepth →
        (∀ e, Expr.watched setup alarm budget m.depth e m = Expr.eval setup budget e m)
          ∧ ∀ s, Stmt.watched setup alarm budget m.depth s m = Stmt.exec setup budget s m)
      ∧ ∀ pos callee args f vs m m₁ m₂, m.depth ≤ setup.maxDepth →
        Expr.eval setup budget callee m = .done (.function f) m₁ →
        list (Expr.eval setup budget) args m₁ = .done vs m₂ → vs.length = f.code.arity →
          Expr.eval setup (budget + 1) (.call pos callee args) m
              = callClosure setup (Stmt.exec setup budget) f vs pos m₂
            ∧ ((∀ exec, callClosure setup exec f vs pos m₂
                = .failed ⟨.recursionLimit setup.maxDepth f.code.title, pos⟩ m₂)
              ↔ m.depth = setup.maxDepth) := by
  refine ⟨⟨Expr.eval_keeps Machine.level_kept setup budget, exec_level setup budget,
    block_level setup budget, call_level setup budget⟩, fun alarm program => ?_,
    fun alarm m hm => ?_, ?_⟩
  · funext m
    have hwatched := (watched_agrees setup alarm budget (Nat.zero_le setup.maxDepth)).2
    exact (Program.results_like (L := agreeing 0) hwatched program .nil
      { m with scope := Machine.root, depth := 0 } rfl).1
  · have hagrees := watched_agrees setup alarm budget hm
    exact ⟨fun e => (hagrees.1 e m rfl).1, fun s => (hagrees.2 s m rfl).1⟩
  · intro pos callee args f vs m m₁ m₂ hm hcallee hargs hlength
    have hfirst := Expr.eval_keeps Machine.level_kept setup budget callee m
    have hsecond := list_level setup budget args m₁
    rw [hcallee] at hfirst
    rw [hargs] at hsecond
    -- callee and arguments leave the depth where the call found it
    have hdepth : m₂.depth = m.depth := hsecond.2.trans hfirst.2
    refine ⟨?_, ?_⟩
    · rw [Expr.eval]
      exact (Run.bind_of_done hcallee).trans (Run.bind_of_done hargs)
    · rw [← hdepth] at hm ⊢
      exact callClosure_refused_iff hlength pos hm

/-- A function that calls itself. -/
def descending : Closure :=
  ⟨0, ⟨some "f", [], [.return_ .start (some (.call .start (.name .start "f") []))], .start⟩, 0⟩

/-- A machine that has counted so many calls, with that function. -/
def counted (depth : Nat) (calls : List Frame) : Machine where
  heap := ⟨⟨none, [("f", .function descending)]⟩ :: calls⟩
  scope := 0
  depth := depth
  fresh := 1
  transcript := {}

/-- With a limit of one, a call inside of one body is refused, and a call outside of all
bodies is not: there it is the call in the body that is. -/
theorem scope_and_depth_descending :
    callClosure ⟨[], 1⟩ (Stmt.exec ⟨[], 1⟩ 5) descending [] .start (counted 1 [])
        = .failed ⟨.recursionLimit 1 "f", .start⟩ (counted 1 [])
      ∧ (¬ ∀ exec, callClosure ⟨[], 1⟩ exec descending [] .start (counted 0 [])
        = .failed ⟨.recursionLimit 1 "f", .start⟩ (counted 0 []))
      ∧ Program.watched ⟨[], 1⟩ ⟨.undefined "alarm", .start⟩ 6
          [.expr .start (.call .start (.name .start "f") [])] (counted 0 [])
        = .failed ⟨.recursionLimit 1 "f", .start⟩ (counted 0 [⟨some 0, []⟩]) := by
  obtain ⟨-, hwatched, -, hcalls⟩ := scope_and_depth ⟨[], 1⟩ 6
  have hname (depth : Nat) : Expr.eval ⟨[], 1⟩ 6 (.name .start "f") (counted depth [])
      = .done (.function descending) (counted depth []) := by
    cbv
  have hrefused (depth : Nat) (hdepth : depth ≤ 1) :=
    (hcalls .start _ [] descending [] _ _ _ hdepth (hname depth) rfl rfl).2
  refine ⟨(hrefused 1 (Nat.le_refl 1)).2 rfl _, fun hall => ?_, ?_⟩
  · exact absurd ((hrefused 0 (Nat.zero_le 1)).1 hall) Nat.zero_ne_one
  · rw [hwatched]
    cbv

end Eval

end Scriptlet
