/-
Programs without `while` end. Nothing else in the language can go on for ever: a
`for` loop runs over items that are fixed when it begins, and calls can only be
nested so deep.

# The measure

The body of a function is no part of the call, so the size of the tree alone does
not decrease. What decreases is the pair of the calls that may still be opened and
the tree: a call opens one of them and may go on with any tree, and everything else
goes on with a part. So there are two inductions. The outer one is on the calls that
may still be opened (`Eval.settle`); the inner one is over the tree, with what the
outer one says of deeper calls as a hypothesis (`Eval.expr_settles`,
`Eval.stmt_settles`).

# What has to be known of the machine

A call may go on with the code of any function that a run can come to, and all of it
must be free of `while`. And the number of open calls must be the same again after
each part, or the measure would not be that of the next part. Both are contracts
(`Contract.Lawful`) that evaluation meets already; the lemmas below only take from
them what they need of the machine between two parts.
-/
import Scriptlet.Proofs.Eval.Limit
import Scriptlet.Proofs.Eval.Reach

namespace Scriptlet

open Contract Run

variable {α β : Type} {C : Contract} {setup : Setup} {m : Machine}

-- ========================================================= halting

/-- `x` has an end on every machine. -/
def Run.Halts (x : Run α) : Prop := ∀ m, x m ≠ .exhausted

namespace Run

theorem Halts.pure (a : α) : Halts (Pure.pure a) := fun _ => nofun

theorem Halts.fault (cause : Cause) (pos : Position) : Halts (Run.fault cause pos : Run α) :=
  fun _ => nofun

/-- A result that is there already needs no budget. -/
theorem Halts.ofExcept (result : Except Fault α) : Halts (Run.ofExcept result) := by
  intro m
  cases result <;> nofun

/-- The rest is asked to halt at whatever value the first part gives, on whatever machine:
what halts by itself needs no budget and no condition. -/
theorem Halts.bind {x : Run α} {k : α → Run β} (hx : Halts x) (hk : ∀ a, Halts (k a)) :
    Halts (x >>= k) := by
  intro m
  cases hfirst : x m with
  | exhausted => exact absurd hfirst (hx m)
  | done a m' =>
    rw [bind_of_done hfirst]
    exact hk a m'
  | failed fault m' =>
    rw [bind_of_failed hfirst]
    nofun

private theorem get_halts (pos : Position) (name : String) : Halts (Run.get pos name) :=
  fun m => Halts.ofExcept _ m

private theorem define_halts (name : String) (value : Value) : Halts (Run.define name value) :=
  fun _ => nofun

private theorem assign_halts (pos : Position) (name : String) (value : Value) :
    Halts (Run.assign pos name value) := by
  intro m
  unfold Run.assign
  dsimp only
  split <;> nofun

private theorem closure_halts (code : Code) : Halts (Run.closure code) := fun _ => nofun

/-- A routine of the host is one step of the run. That it answers is part of what a host
is. -/
private theorem native_halts (host : Host) (f : Native) (args : List Value) (pos : Position) :
    Halts (Run.native host f args pos) := by
  intro m
  unfold Run.native
  dsimp only
  split <;> nofun

end Run

private theorem Eval.load_halts (p : Place) : Halts (load p) :=
  (get_halts p.pos p.name).bind fun _ => .ofExcept _

private theorem Eval.store_halts (p : Place) (value : Value) : Halts (store p value) := by
  refine (get_halts p.pos p.name).bind fun root => ?_
  exact (Halts.ofExcept _).bind fun root => assign_halts p.pos p.name root

-- ======================================================== settling

/-- From some budget on `x` has an end, always the same. -/
def Run.Settles (x : Nat → Run α) (m : Machine) : Prop := ∃ outcome, Ends x m outcome

namespace Run

/-- A computation that looks at no budget. -/
theorem Halts.settles {x : Run α} (h : Halts x) : Settles (fun _ => x) m := ⟨x m, ends_const (h m)⟩

/-- What goes on after the first computation has to settle where the first one ends,
and with the result it gives. -/
theorem Settles.bind_done {x : Nat → Run α} {k : Nat → α → Run β} (hx : Settles x m)
    (hk : ∀ a m', Ends x m (.done a m') → Settles (fun budget => k budget a) m') :
    Settles (fun budget => x budget >>= k budget) m := by
  obtain ⟨outcome, hends⟩ := hx
  cases outcome with
  | exhausted => exact absurd rfl hends.1
  | failed fault m' => exact ⟨_, hends.bind_failed⟩
  | done a m' =>
    obtain ⟨outcome', hends'⟩ := hk a m' hends
    exact ⟨outcome', hends.bind_done hends'⟩

/-- What a contract says of the first computation is known of where it ends. -/
theorem Settles.bind {R : Machine → Machine → Prop} {Q : Nat → α → Prop} {x : Nat → Run α}
    {k : Nat → α → Run β} (hx : Settles x m) (hmeets : ∀ budget, Meets C R m (x budget) Q)
    (hk : ∀ a m', C.Step R m m' → Q m'.heap.size a → Settles (fun budget => k budget a) m') :
    Settles (fun budget => x budget >>= k budget) m := by
  refine hx.bind_done fun a m' hends => ?_
  obtain ⟨-, enough, henough⟩ := hends
  obtain ⟨hstep, ha⟩ := (hmeets enough).done (henough enough (Nat.le_refl enough))
  exact hk a m' hstep ha

/-- Only the first part needs a budget. -/
private theorem Settles.bind_halts {x : Nat → Run α} {k : α → Run β} (hx : Settles x m)
    (hk : ∀ a, Halts (k a)) : Settles (fun budget => x budget >>= k) m :=
  hx.bind_done fun a _ _ => (hk a).settles

/-- What an operation on values gives does not depend on the budget, so only the rest has
to settle. -/
private theorem Settles.ofExcept_bind {result : Except Fault α} {k : Nat → α → Run β}
    (hk : ∀ a, Settles (fun budget => k budget a) m) :
    Settles (fun budget => Run.ofExcept result >>= k budget) m := by
  cases result with
  | ok a => exact hk a
  | error fault => exact ⟨.failed fault m, nofun, 0, fun _ _ => rfl⟩

/-- What a step settles, the evaluator settles with one more of the budget. -/
theorem Settles.next {x y : Nat → Run α} (h : Settles x m)
    (hy : ∀ budget, y (budget + 1) m = x budget m) : Settles y m :=
  h.imp fun _ hends => hends.next hy

/-- Changing the state afterwards. -/
theorem Settles.mapState {x y : Nat → Run α} {m' : Machine} (h : Settles x m')
    (f : Machine → Machine) (hy : ∀ budget, y budget m = (x budget m').mapState f) :
    Settles y m := by
  obtain ⟨outcome, hends⟩ := h
  exact ⟨outcome.mapState f, hends.mapState f hy⟩

private theorem inFrame_settles {parent : Nat} {bindings : Entries String Value} {x : Nat → Run α}
    (h : Settles x (m.entered parent bindings)) :
    Settles (fun budget => Run.inFrame parent bindings (x budget)) m :=
  h.mapState _ fun budget => inFrame_eq parent bindings (x budget) m

private theorem inCall_settles {x : Nat → Run α} (h : Settles x m.called) :
    Settles (fun budget => Run.inCall (x budget)) m :=
  h.mapState _ fun budget => inCall_eq (x budget) m

end Run

-- ======================================================== contract

/-- Whether a statement is a `while` loop. -/
def Stmt.isWhile : Stmt → Bool
  | .while_ .. => true
  | _ => false

/-- No statement is a `while` loop. -/
def Tree.Rule.whileFree : Tree.Rule := { stmt := fun s => s.isWhile = false }

/-- The contract of runs on machines that hold no `while` loop. -/
abbrev Contract.whileFree (start : Heap) : Contract :=
  .stored .whileFree (fun _ => True) start

namespace Eval

/-- An expression without `while` that settles, as a value and as a place, once so many
calls are open. -/
structure ExprSettles (setup : Setup) (start : Heap) (depth : Nat) (e : Expr) : Prop where
  every : e.Every .whileFree
  value : ∀ {m}, (Contract.whileFree start).Good m → m.depth = depth →
    Settles (fun budget => Expr.eval setup budget e) m
  place : ∀ {m}, (Contract.whileFree start).Good m → m.depth = depth →
    Settles (fun budget => place (Expr.eval setup budget) e) m

/-- A statement without `while` that settles once so many calls are open. -/
structure StmtSettles (setup : Setup) (start : Heap) (depth : Nat) (s : Stmt) : Prop where
  every : s.Every .whileFree
  flow : ∀ {m}, (Contract.whileFree start).Good m → m.depth = depth →
    Settles (fun budget => Stmt.exec setup budget s) m

section Parts

variable {start : Heap} {depth : Nat}

variable (hC : (Contract.whileFree start).Lawful setup)
  (hm : (Contract.whileFree start).Good m) (hdepth : m.depth = depth)

include hC hm hdepth

-- ======================================================= sequences

/-- Each item settles on its own machine, which the earlier ones have left as good as it
was. -/
private theorem list_settles {items : List Expr}
    (hitems : ∀ e ∈ items, ExprSettles setup start depth e) :
    Settles (fun budget => list (Expr.eval setup budget) items) m := by
  induction items generalizing m with
  | nil => exact (Halts.pure []).settles
  | cons e rest ih =>
    obtain ⟨he, hrest⟩ := List.forall_mem_cons.1 hitems
    refine (he.value hm hdepth).bind (fun budget => (meets hC budget).expr he.every hm)
      fun v m₁ h₁ _ => ?_
    exact (ih h₁.good (h₁.moved.2.trans hdepth) hrest).bind_halts fun vs => .pure (v :: vs)

private theorem entries_settles {items : List (Expr × Expr)}
    (hitems : ∀ entry ∈ items, ExprSettles setup start depth entry.1
      ∧ ExprSettles setup start depth entry.2) (done : Entries MapKey Value) :
    Settles (fun budget => entries (Expr.eval setup budget) items done) m := by
  induction items generalizing m done with
  | nil => exact (Halts.pure done).settles
  | cons entry rest ih =>
    obtain ⟨⟨hkey, hvalue⟩, hrest⟩ := List.forall_mem_cons.1 hitems
    refine (hkey.value hm hdepth).bind (fun budget => (meets hC budget).expr hkey.every hm)
      fun keyValue m₁ h₁ _ => ?_
    have hdepth₁ : m₁.depth = depth := h₁.moved.2.trans hdepth
    refine Settles.ofExcept_bind fun key => ?_
    refine (hvalue.value h₁.good hdepth₁).bind
      (fun budget => (meets hC budget).expr hvalue.every h₁.good) fun value m₂ h₂ _ => ?_
    exact ih h₂.good (h₂.moved.2.trans hdepth₁) hrest (Entries.put key value done)

/-- Statements in a row. A statement that does not go on ends the row, and then there is
nothing left to settle. -/
private theorem sequence_settles {body : List Stmt}
    (hbody : ∀ s ∈ body, StmtSettles setup start depth s) :
    Settles (fun budget => sequence (Stmt.exec setup budget) body) m := by
  induction body generalizing m with
  | nil => exact (Halts.pure (Flow.normal .nil)).settles
  | cons s rest ih =>
    obtain ⟨hs, hrest⟩ := List.forall_mem_cons.1 hbody
    refine (hs.flow hm hdepth).bind (fun budget => (meets hC budget).stmt hs.every hm)
      fun flow m₁ h₁ _ => ?_
    cases flow with
    | normal v => exact ih h₁.good ((through_widen hC s h₁.moved).2.trans hdepth) hrest
    | return_ v => exact (Halts.pure (Flow.return_ v)).settles
    | break_ => exact (Halts.pure Flow.break_).settles
    | continue_ => exact (Halts.pure Flow.continue_).settles

private theorem block_settles {body : List Stmt}
    (hbody : ∀ s ∈ body, StmtSettles setup start depth s)
    {bindings : Entries String Value}
    (hbindings : ∀ binding ∈ bindings, (Contract.whileFree start).Holds m.heap.size binding.2) :
    Settles (fun budget => block (Stmt.exec setup budget) bindings body) m :=
  inFrame_settles (sequence_settles hC (hC.good_entered hm hm.scope hbindings) hdepth hbody)

omit hC in
private theorem condition_settles {e : Expr} (he : ExprSettles setup start depth e)
    (demand : Demand) : Settles (fun budget => condition (Expr.eval setup budget) demand e) m :=
  (he.value hm hdepth).bind_halts fun _ => .ofExcept _

-- =========================================================== loops

/-- A `for` loop makes as many rounds as there are items, whatever its body does. -/
theorem repeatFor_settles {body : Nat → Value → Run Flow} {leaks : Signal → Bool}
    (hmeets : ∀ (budget : Nat) {m : Machine} {v : Value}, (Contract.whileFree start).Good m →
      (Contract.whileFree start).Holds m.heap.size v →
        Meets (Contract.whileFree start) Machine.Level m (body budget v)
          ((Contract.whileFree start).Ending leaks))
    (hbody : ∀ {m v}, (Contract.whileFree start).Good m → m.depth = depth →
      (Contract.whileFree start).Holds m.heap.size v →
        Settles (fun budget => body budget v) m)
    {items : List Value} (hitems : ∀ v ∈ items, (Contract.whileFree start).Holds m.heap.size v) :
    Settles (fun budget => repeatFor (body budget) items) m := by
  induction items generalizing m with
  | nil => exact (Halts.pure (Flow.normal .nil)).settles
  | cons item rest ih =>
    obtain ⟨hitem, hrest⟩ := List.forall_mem_cons.1 hitems
    refine (hbody hm hdepth hitem).bind (fun budget => hmeets budget hm hitem)
      fun flow m₁ h₁ _ => ?_
    have hlater := ih h₁.good (h₁.moved.2.trans hdepth)
      fun v hv => hC.holds_mono h₁.grown (hrest v hv)
    cases flow with
    | normal v => exact hlater
    | continue_ => exact hlater
    | break_ => exact (Halts.pure (Flow.normal .nil)).settles
    | return_ v => exact (Halts.pure (Flow.return_ v)).settles

-- =========================================================== calls

omit hC hm hdepth in
/-- What a finished body comes to is computed from its flow alone. -/
private theorem callResult_halts (pos : Position) (flow : Flow) : Halts (callResult pos flow) := by
  cases flow with
  | return_ v => exact .pure v
  | normal v => exact .pure Value.nil
  | break_ => exact .fault _ pos
  | continue_ => exact .fault _ pos

/-- A call settles if statements do one call deeper, where one call less may still be
opened. -/
theorem callClosure_settles
    (hdeeper : depth < setup.maxDepth →
      ∀ s, s.Every .whileFree → StmtSettles setup start (depth + 1) s)
    {f : Closure} (hf : (Contract.whileFree start).Admits m.heap.size f) {args : List Value}
    (hargs : ∀ v ∈ args, (Contract.whileFree start).Holds m.heap.size v) (pos : Position) :
    Settles (fun budget => callClosure setup (Stmt.exec setup budget) f args pos) m := by
  -- both refusals come before the body, whatever the budget is
  by_cases harity : args.length ≠ f.code.arity
  · have hrefused (budget : Nat) : callClosure setup (Stmt.exec setup budget) f args pos m
        = .failed ⟨.arity f.code.title (.exact f.code.arity) args.length, pos⟩ m := by
      unfold callClosure
      rw [if_pos harity]
      rfl
    exact ⟨.failed _ m, nofun, 0, fun budget _ => hrefused budget⟩
  by_cases hlimit : setup.maxDepth ≤ m.depth
  · have hrefused (budget : Nat) : callClosure setup (Stmt.exec setup budget) f args pos m
        = .failed ⟨.recursionLimit setup.maxDepth f.code.title, pos⟩ m := by
      unfold callClosure
      rw [if_neg harity, if_pos hlimit]
      rfl
    exact ⟨.failed _ m, nofun, 0, fun budget _ => hrefused budget⟩
  -- the body runs one level deeper, where `hdeeper` answers for it
  have hroom : m.depth < setup.maxDepth := Nat.lt_of_not_le hlimit
  have hcalled : (Contract.whileFree start).Good m.called :=
    ⟨hC.call hm.machine hroom, hm.scope, hm.frames⟩
  have hbody : Settles (fun budget => sequence (Stmt.exec setup budget) f.code.body)
      (m.called.entered f.frame (parameters f.code args)) :=
    sequence_settles hC
      (hC.good_entered hcalled hf.frame (parameters_forall f.code hargs))
      (congrArg Nat.succ hdepth) fun s hs => hdeeper (hdepth ▸ hroom) s (hf.code.body s hs)
  obtain ⟨outcome, hends, enough, henough⟩ :=
    (inCall_settles (inFrame_settles hbody)).bind_halts (callResult_halts pos)
  have hentered (budget : Nat) : callClosure setup (Stmt.exec setup budget) f args pos m
      = (Run.inCall (Run.inFrame f.frame (parameters f.code args)
          (sequence (Stmt.exec setup budget) f.code.body)) >>= callResult pos) m := by
    unfold callClosure
    rw [if_neg harity, if_neg hlimit]
    rfl
  exact ⟨outcome, hends, enough, fun budget hbudget =>
    (hentered budget).trans (henough budget hbudget)⟩

/-- Only a call of a function needs more than what has settled already. -/
private theorem call_settles
    (hdeeper : depth < setup.maxDepth →
      ∀ s, s.Every .whileFree → StmtSettles setup start (depth + 1) s)
    {v : Value} (hv : (Contract.whileFree start).Holds m.heap.size v) {args : List Value}
    (hargs : ∀ v ∈ args, (Contract.whileFree start).Holds m.heap.size v) (pos : Position) :
    Settles (fun budget => call setup (Stmt.exec setup budget) v args pos) m := by
  cases v with
  | native n => exact (native_halts setup.host n args pos).settles
  | function f =>
    exact callClosure_settles hC hm hdepth hdeeper (Value.every_function.1 hv) hargs pos
  | _ => exact (Halts.fault _ pos).settles

-- ========================================================== places

private theorem place_settles {e : Expr} (he : e.Every .whileFree)
    (hparts : ∀ p ∈ e.parts, ExprSettles setup start depth p) :
    Settles (fun budget => place (Expr.eval setup budget) e) m := by
  cases e with
  | name pos ident => exact (Halts.pure (Place.mk ident pos [])).settles
  | index pos collection key =>
    obtain ⟨hcollection, hkey⟩ := List.forall_mem_cons.1 hparts
    have hkey := hkey key List.mem_cons_self
    refine (hcollection.place hm hdepth).bind
      (fun budget => place_meets hC (meets hC budget) hcollection.every
        (fun _ _ _ => trivial) hm) fun p m₁ h₁ _ => ?_
    exact (hkey.value h₁.good (h₁.moved.2.trans hdepth)).bind_halts fun k => .pure _
  | _ => exact (Halts.fault _ _).settles

private theorem assigned_settles (pos : Position) {p : Place}
    (hp : PlacePlain (Contract.whileFree start) p)
    (op : Option BinaryOp) {value : Expr} (hvalue : ExprSettles setup start depth value) :
    Settles (fun budget => assigned (Expr.eval setup budget) pos p op value) m := by
  cases op with
  | none => exact hvalue.value hm hdepth
  | some op =>
    refine (load_halts p).settles.bind (fun _ => load_meets hC hm hp) fun old m₁ h₁ _ => ?_
    exact (hvalue.value h₁.good (h₁.moved.2.trans hdepth)).bind_halts fun right => .ofExcept _

-- =========================================================== steps

/-- One layer of an expression settles if its parts do and if every statement does one
level deeper. The second is for calls only: the body of a function is not part of the tree
that calls it. -/
private theorem step_expr_settles
    (hdeeper : depth < setup.maxDepth →
      ∀ s, s.Every .whileFree → StmtSettles setup start (depth + 1) s)
    {e : Expr} (he : e.Every .whileFree)
    (hparts : ∀ p ∈ e.parts, ExprSettles setup start depth p) :
    Settles (fun budget => e.step setup (Expr.eval setup budget) (Stmt.exec setup budget)) m := by
  cases e with
  | literal pos value => exact (Halts.pure value.value).settles
  | list pos items =>
    exact (list_settles hC hm hdepth hparts).bind_halts fun vs => .pure (Value.list vs)
  | map pos entries =>
    have hentries : ∀ entry ∈ entries, ExprSettles setup start depth entry.1
        ∧ ExprSettles setup start depth entry.2 := Expr.forall_entry hparts
    exact (entries_settles hC hm hdepth hentries []).bind_halts fun all => .pure (Value.map all)
  | name pos ident => exact (get_halts pos ident).settles
  | unary pos op operand =>
    exact ((hparts operand List.mem_cons_self).value hm hdepth).bind_halts fun v => .ofExcept _
  | binary pos op left right =>
    obtain ⟨hleft, hright⟩ := List.forall_mem_cons.1 hparts
    refine (hleft.value hm hdepth).bind (fun budget => (meets hC budget).expr hleft.every hm)
      fun l m₁ h₁ _ => ?_
    exact ((hright right List.mem_cons_self).value h₁.good
      (h₁.moved.2.trans hdepth)).bind_halts fun r => .ofExcept _
  | logical pos op left right =>
    obtain ⟨hleft, hright⟩ := List.forall_mem_cons.1 hparts
    refine (condition_settles hm hdepth hleft _).bind
      (fun budget => condition_meets hC (meets hC budget) hleft.every _ hm) fun l m₁ h₁ _ => ?_
    -- the right operand counts only where the left one does not decide
    by_cases hdecides : op.decides l = true
    · simp only [if_pos hdecides]
      exact (Halts.pure (Value.bool l)).settles
    · simp only [if_neg hdecides]
      exact (condition_settles h₁.good (h₁.moved.2.trans hdepth)
        (hright right List.mem_cons_self) _).bind_halts fun r => .pure (Value.bool r)
  | call pos callee args =>
    obtain ⟨hcallee, hargs⟩ := List.forall_mem_cons.1 hparts
    refine (hcallee.value hm hdepth).bind (fun budget => (meets hC budget).expr hcallee.every hm)
      fun v m₁ h₁ hv => ?_
    have hdepth₁ : m₁.depth = depth := h₁.moved.2.trans hdepth
    refine (list_settles hC h₁.good hdepth₁ hargs).bind
      (fun budget => list_meets hC (meets hC budget) (fun e hin => (hargs e hin).every) h₁.good)
      fun vs m₂ h₂ hvs => ?_
    -- a body is no part of the expression: the only case that needs `hdeeper`
    exact call_settles hC h₂.good (h₂.moved.2.trans hdepth₁) hdeeper (hC.holds_mono h₂.grown hv)
      hvs pos
  | index pos collection key =>
    obtain ⟨hcollection, hkey⟩ := List.forall_mem_cons.1 hparts
    refine (hcollection.value hm hdepth).bind
      (fun budget => (meets hC budget).expr hcollection.every hm) fun c m₁ h₁ _ => ?_
    exact ((hkey key List.mem_cons_self).value h₁.good
      (h₁.moved.2.trans hdepth)).bind_halts fun k => .ofExcept _
  | function pos code => exact (closure_halts code).settles

/-- One layer of a statement. A `while` loop is ruled out by the tree's rule, so the
rounds of the remaining loops are those of their items. -/
private theorem step_stmt_settles {s : Stmt} (hs : s.Every .whileFree)
    (hexprs : ∀ e ∈ s.exprs, ExprSettles setup start depth e)
    (hparts : ∀ p ∈ s.parts, StmtSettles setup start depth p) :
    Settles (fun budget =>
      s.step (Expr.eval setup budget) (Stmt.exec setup budget) budget) m := by
  have hnormal : Halts (Pure.pure (Flow.normal .nil)) := .pure _
  cases s with
  | let_ pos name value =>
    refine ((hexprs value List.mem_cons_self).value hm hdepth).bind_halts fun v => ?_
    exact (define_halts name v).bind fun _ => hnormal
  | assign pos target op value =>
    obtain ⟨htarget, hvalue⟩ := List.forall_mem_cons.1 hexprs
    have hvalue := hvalue value List.mem_cons_self
    refine (htarget.place hm hdepth).bind
      (fun budget => place_meets hC (meets hC budget) htarget.every (fun _ _ _ => trivial) hm)
      fun p m₁ h₁ hp => ?_
    refine (assigned_settles hC h₁.good (h₁.moved.2.trans hdepth) pos hp op hvalue).bind_halts
      fun v => ?_
    exact (store_halts p v).bind fun _ => hnormal
  | expr pos value =>
    exact ((hexprs value List.mem_cons_self).value hm hdepth).bind_halts fun v =>
      .pure (Flow.normal v)
  | if_ pos condition yes no =>
    have hcondition := hexprs condition List.mem_cons_self
    refine (condition_settles hm hdepth hcondition _).bind
      (fun budget => condition_meets hC (meets hC budget) hcondition.every _ hm)
      fun holds m₁ h₁ _ => ?_
    have hdepth₁ : m₁.depth = depth := h₁.moved.2.trans hdepth
    cases holds with
    | true =>
      exact block_settles hC h₁.good hdepth₁
        (fun s hin => hparts s (List.mem_append_left _ hin)) (List.forall_mem_nil _)
    | false =>
      cases no with
      | none => exact hnormal.settles
      | some no =>
        exact block_settles hC h₁.good hdepth₁
          (fun s hin => hparts s (List.mem_append_right _ hin)) (List.forall_mem_nil _)
  | while_ pos condition body => cases hs.here
  | for_ pos name iterable body =>
    have hiterable := hexprs iterable List.mem_cons_self
    refine (hiterable.value hm hdepth).bind
      (fun budget => (meets hC budget).expr hiterable.every hm) fun c m₁ h₁ hc => ?_
    have hdepth₁ : m₁.depth = depth := h₁.moved.2.trans hdepth
    refine (Halts.ofExcept _).settles.bind
      (fun _ => Meets.at (Q := fun frames items => ∀ v ∈ items,
        (Contract.whileFree start).Holds frames v) hC h₁.good (hC.plain hiterable.every.here)
        (Value.items_answers hc)) fun items m₂ h₂ hitems => ?_
    -- the items are those found once before the first round, so the rounds are finitely many
    have hbinding {frames : Nat} {v : Value} (hv : (Contract.whileFree start).Holds frames v) :
        ∀ binding ∈ [(name, v)], (Contract.whileFree start).Holds frames binding.2 :=
      List.forall_mem_cons.2 ⟨hv, List.forall_mem_nil _⟩
    have hround (budget : Nat) {m : Machine} {v : Value} (hm : (Contract.whileFree start).Good m)
        (hv : (Contract.whileFree start).Holds m.heap.size v) :
        Meets (Contract.whileFree start) Machine.Level m
          (block (Stmt.exec setup budget) [(name, v)] body)
          ((Contract.whileFree start).Ending (Stmt.leaksIn · body)) :=
      block_meets hC (meets hC budget) (fun s hin => (hparts s hin).every) hm (hbinding hv)
    refine repeatFor_settles hC h₂.good (h₂.moved.2.trans hdepth₁) hround
      (fun hm hdepth hv => ?_) hitems
    exact block_settles hC hm hdepth hparts (hbinding hv)
  | function pos code =>
    refine ((closure_halts code).bind fun v => ?_).settles
    exact (define_halts _ v).bind fun _ => hnormal
  | return_ pos value =>
    cases value with
    | none => exact (Halts.pure (Flow.return_ .nil)).settles
    | some value =>
      exact ((hexprs value List.mem_cons_self).value hm hdepth).bind_halts fun v =>
        .pure (Flow.return_ v)
  | break_ pos => exact (Halts.pure Flow.break_).settles
  | continue_ pos => exact (Halts.pure Flow.continue_).settles
  | block pos body => exact block_settles hC hm hdepth hparts (List.forall_mem_nil _)

end Parts

-- ====================================================== evaluation

section Trees

variable {start : Heap} {depth : Nat}

variable (hC : (Contract.whileFree start).Lawful setup)
  (hdeeper : depth < setup.maxDepth →
    ∀ s, s.Every .whileFree → StmtSettles setup start (depth + 1) s)

include hC hdeeper

/-- Expressions by recursion on the tree; the bodies of the functions called come from
`hdeeper`. -/
private theorem expr_settles {e : Expr} (he : e.Every .whileFree) :
    ExprSettles setup start depth e := by
  refine he.induct fun e he hparts => ?_
  refine ⟨he, fun hm hdepth => ?_, fun hm hdepth => place_settles hC hm hdepth he hparts⟩
  exact (step_expr_settles hC hm hdepth hdeeper he hparts).next fun budget => by rw [Expr.eval]

/-- Statements by recursion on the tree, given their expressions. -/
private theorem stmt_settles {s : Stmt} (hs : s.Every .whileFree) :
    StmtSettles setup start depth s := by
  refine hs.induct fun s hs hparts => ⟨hs, fun hm hdepth => ?_⟩
  have hexprs : ∀ e ∈ s.exprs, ExprSettles setup start depth e :=
    fun e he => expr_settles hC hdeeper (hs.exprs e he)
  exact (step_stmt_settles hC hm hdepth hs hexprs hparts).next fun budget => by rw [Stmt.exec]

end Trees

/-- Every statement without `while` settles, however many calls are open. -/
theorem settle {start : Heap} (hC : (Contract.whileFree start).Lawful setup) (depth : Nat)
    (s : Stmt) (hs : s.Every .whileFree) : StmtSettles setup start depth s :=
  stmt_settles hC (fun _ => settle hC (depth + 1)) hs
termination_by setup.maxDepth - depth

end Eval

-- ======================================================== programs

/-- The statements of a program settle one after the other, at level zero. -/
private theorem Program.results_settles {start : Heap}
    (hC : (Contract.whileFree start).Lawful setup)
    (hm : (Contract.whileFree start).Good m) {program : Program}
    (hprogram : program.Every .whileFree) (last : Value) :
    Settles (fun budget => results (Stmt.exec setup budget) program last) m := by
  induction program generalizing m last with
  | nil => exact (Halts.pure last).settles
  | cons s rest ih =>
    obtain ⟨hs, hrest⟩ := List.forall_mem_cons.1 hprogram
    refine ((Eval.settle hC m.depth s hs).flow hm rfl).bind
      (fun budget => (Eval.meets hC budget).stmt hs hm) fun flow m₁ h₁ _ => ?_
    cases flow with
    | normal v => exact ih h₁.good hrest _
    | _ => exact (Halts.fault _ _).settles

namespace Interpreter

/-- A program without `while`, in a state where no function has one, ends: with a value
or with a failure, and whatever the limit of the call depth is. -/
theorem evalProgram_ends {i : Interpreter} (hi : i.Holds .whileFree) {program : Program}
    (hprogram : program.Every .whileFree) : ∃ outcome, i.Ends program outcome := by
  have hC : (Contract.whileFree i.machine.heap).Lawful i.setup :=
    Contract.stored_lawful hi.lent (fun _ _ => trivial) fun _ _ _ _ _ _ => trivial
  have hgood : (Contract.whileFree i.machine.heap).Good i.atRest.machine :=
    Contract.stored_good (m := i.atRest.machine) hi.stored rfl
  obtain ⟨outcome, hends, enough, henough⟩ := Program.results_settles hC hgood hprogram .nil
  have hrun := henough enough (Nat.le_refl enough)
  cases outcome with
  | exhausted => exact absurd rfl hends
  | done v m => exact ⟨_, ends_of_evalProgram (evalProgram_eq_done.2 ⟨m, hrun, rfl⟩) nofun⟩
  | failed fault m =>
    exact ⟨_, ends_of_evalProgram (evalProgram_eq_failed.2 ⟨fault, m, hrun, rfl, rfl⟩) nofun⟩

/-- A program with a function that calls what it finds in a list, called with
itself. -/
def knot : Program :=
  [.function .start ⟨some "knot", [⟨"f", .start⟩],
      [.for_ .start "g" (.list .start [.name .start "f"])
        [.expr .start (.call .start (.name .start "g") [.name .start "g"])]], .start⟩,
    .expr .start (.call .start (.name .start "knot") [.name .start "knot"])]

/-- The theorem at a program whose functions call each other without an end: the depth
limit ends it. -/
theorem evalProgram_ends_knot :
    (start Prelude.host 200 {}).Holds .whileFree ∧ knot.Every .whileFree
      ∧ ∃ outcome, (start Prelude.host 200 {}).Ends knot outcome := by
  have hholds : (start Prelude.host 200 {}).Holds .whileFree :=
    start_holds Prelude.host_lends 200 {}
  have hname (ident : String) : (Expr.name .start ident).Every .whileFree :=
    .mk trivial nofun nofun
  have hcall (ident : String) :
      (Expr.call .start (.name .start ident) [.name .start ident]).Every .whileFree :=
    .mk trivial (List.forall_mem_cons.2 ⟨hname ident, List.forall_mem_singleton.2 (hname ident)⟩)
      nofun
  have hexpr (ident : String) :
      (Stmt.expr .start (.call .start (.name .start ident) [.name .start ident])).Every
        .whileFree :=
    .mk rfl (List.forall_mem_singleton.2 (hcall ident)) nofun nofun
  have hknot : knot.Every .whileFree := by
    refine List.forall_mem_cons.2 ⟨.mk rfl nofun nofun ?_,
      List.forall_mem_singleton.2 (hexpr "knot")⟩
    rintro code ⟨⟩
    refine .mk trivial (List.forall_mem_singleton.2 (.mk rfl ?_ ?_ nofun))
    · exact List.forall_mem_singleton.2
        (.mk trivial (List.forall_mem_singleton.2 (hname "f")) nofun)
    · exact List.forall_mem_singleton.2 (hexpr "g")
  exact ⟨hholds, hknot, evalProgram_ends hholds hknot⟩

end Interpreter

end Scriptlet
