/-
Evaluation of the same tree from different parts. What an expression or a statement does is
put together from what its parts do, and in a few ways only: one after the other, in a frame
of its own, in rounds, or in a call. So two evaluations that do like things with each part do
like things with the whole, whatever being alike means, if it goes through these ways of
putting computations together (`Run.Likeness`).

# What is left open

A step that has no parts is in both evaluations the same, and all that is known of it is that
it leaves the depth of calls alone; of such a step a likeness has to show that it is like
itself. Two things are looked at in one place only, and there the evaluations may differ: the
rounds that a loop is given, and the limit of the depth. So the loop may have more rounds on
one side if to be exhausted is like everything, and the call of a function is a hypothesis.
-/
import Scriptlet.Proofs.Eval.Contract

namespace Scriptlet

variable {α β : Type}

-- ========================================================== level

/-- The machine is left at the given depth. -/
def Outcome.AtDepth {ε : Type} (depth : Nat) : Outcome Machine ε α → Prop
  | .done _ m | .failed _ m => m.depth = depth
  | .exhausted => True

/-- However the computation ends, as many calls are open as before. -/
def Run.IsLevel (x : Run α) : Prop := ∀ m, (x m).AtDepth m.depth

namespace Run

/-- What only gives a value leaves the depth as it was. -/
theorem IsLevel.pure (a : α) : IsLevel (Pure.pure a) := fun _ => rfl

theorem IsLevel.fault (cause : Cause) (pos : Position) : IsLevel (Run.fault cause pos : Run α) :=
  fun _ => rfl

theorem IsLevel.exhausted : IsLevel (Run.exhausted : Run α) := fun _ => trivial

/-- A result computed outside the machine is given or raised at the depth it is
asked for. -/
theorem IsLevel.ofExcept (result : Except Fault α) : IsLevel (Run.ofExcept result) := by
  intro m
  cases result <;> exact rfl

theorem IsLevel.at (pos : Position) (result : Except Cause α) : IsLevel (Run.at pos result) :=
  .ofExcept _

/-- Levels add up: a run that gives the level back, followed by one that does, gives it
back. -/
theorem IsLevel.bind {x : Run α} {k : α → Run β} (hx : IsLevel x) (hk : ∀ a, IsLevel (k a)) :
    IsLevel (x >>= k) := by
  intro m
  have hfirst := hx m
  cases hxm : x m with
  | exhausted =>
    rw [bind_of_exhausted hxm]
    trivial
  | failed fault m' =>
    rw [hxm] at hfirst
    rw [bind_of_failed hxm]
    exact hfirst
  | done a m' =>
    rw [hxm] at hfirst
    rw [bind_of_done hxm]
    have hdepth : m'.depth = m.depth := hfirst
    exact hdepth ▸ hk a m'

private theorem get_isLevel (pos : Position) (name : String) : IsLevel (Run.get pos name) :=
  fun m => IsLevel.at pos (m.heap.get m.scope name) m

private theorem define_isLevel (name : String) (value : Value) : IsLevel (Run.define name value) :=
  fun _ => rfl

/-- Assigning a name writes a frame, found or not, and never the depth. -/
private theorem assign_isLevel (pos : Position) (name : String) (value : Value) :
    IsLevel (Run.assign pos name value) := by
  intro m
  simp only [Run.assign]
  cases m.heap.find? m.scope name with
  | none => exact rfl
  | some found => exact rfl

private theorem closure_isLevel (code : Code) : IsLevel (Run.closure code) := fun _ => rfl

/-- A routine of the host may write and answer; the level is not in its reach. -/
private theorem native_isLevel (host : Host) (f : Native) (args : List Value) (pos : Position) :
    IsLevel (Run.native host f args pos) := by
  intro m
  simp only [Run.native]
  obtain ⟨answer, t⟩ := f.call host args m.transcript
  cases answer with
  | error cause => exact rfl
  | ok v => exact rfl

end Run

/-- What a body's ending means at the call is decided without the machine. -/
theorem Eval.callResult_isLevel (pos : Position) (flow : Flow) :
    Run.IsLevel (callResult pos flow) := by
  cases flow with
  | return_ v => exact .pure _
  | normal v => exact .pure _
  | break_ => exact .fault _ _
  | continue_ => exact .fault _ _

private theorem Eval.load_isLevel (p : Place) : Run.IsLevel (load p) :=
  (Run.get_isLevel p.pos p.name).bind fun _ => .ofExcept _

/-- Storing through a place ends in one assignment of its name. -/
private theorem Eval.store_isLevel (p : Place) (value : Value) : Run.IsLevel (store p value) := by
  refine (Run.get_isLevel p.pos p.name).bind fun root => ?_
  exact (Run.IsLevel.ofExcept _).bind fun root => Run.assign_isLevel p.pos p.name root

-- ======================================================= likeness

/-- What it may mean that two computations are alike. -/
structure Run.Likeness where
  Like : {α : Type} → Run α → Run α → Prop
  refl : ∀ {α : Type} {x : Run α}, Run.IsLevel x → Like x x
  bind : ∀ {α β : Type} {x y : Run α} {k l : α → Run β},
    Like x y → (∀ a, Like (k a) (l a)) → Like (x >>= k) (y >>= l)
  inBlock : ∀ {α : Type} {x y : Run α} (bindings : Entries String Value),
    Like x y → Like (Run.inBlock bindings x) (Run.inBlock bindings y)

namespace Eval

variable {L : Run.Likeness} {eval eval' : Expr → Run Value} {exec exec' : Stmt → Run Flow}

-- ====================================================== sequences

/-- What the evaluators of the parts have to offer. -/
structure PartsLike (L : Run.Likeness) (eval eval' : Expr → Run Value)
    (exec exec' : Stmt → Run Flow) : Prop where
  expr : ∀ e, L.Like (eval e) (eval' e)
  stmt : ∀ s, L.Like (exec s) (exec' s)

/-- Statements in a row are alike if each of them is. The runs part only where one has
ended and the other may still go on, and there the likeness itself decides. -/
theorem sequence_like (h : ∀ s, L.Like (exec s) (exec' s)) (body : List Stmt) :
    L.Like (sequence exec body) (sequence exec' body) := by
  induction body with
  | nil => exact L.refl (.pure _)
  | cons s rest ih =>
    refine L.bind (h s) fun flow => ?_
    cases flow with
    | normal v => exact ih
    | _ => exact L.refl (.pure _)

section Parts

variable (h : PartsLike L eval eval' exec exec')

include h

private theorem list_like (items : List Expr) : L.Like (list eval items) (list eval' items) := by
  induction items with
  | nil => exact L.refl (.pure _)
  | cons e rest ih =>
    refine L.bind (h.expr e) fun v => ?_
    exact L.bind ih fun vs => L.refl (.pure _)

/-- The entries of a map: key, then value, then the entries that follow. -/
private theorem entries_like (items : List (Expr × Expr)) (done : Entries MapKey Value) :
    L.Like (entries eval items done) (entries eval' items done) := by
  induction items generalizing done with
  | nil => exact L.refl (.pure _)
  | cons entry rest ih =>
    refine L.bind (h.expr entry.1) fun keyValue => ?_
    refine L.bind (L.refl (.at _ _)) fun key => ?_
    exact L.bind (h.expr entry.2) fun value => ih _

private theorem block_like (bindings : Entries String Value) (body : List Stmt) :
    L.Like (block exec bindings body) (block exec' bindings body) :=
  L.inBlock bindings (sequence_like h.stmt body)

/-- A condition is its expression and a test of the value, which no machine is asked
for. -/
private theorem condition_like (demand : Demand) (e : Expr) :
    L.Like (condition eval demand e) (condition eval' demand e) :=
  L.bind (h.expr e) fun _ => L.refl (.at _ _)

-- ========================================================== loops

omit h in
/-- Two loops with the same number of rounds, or with more on the right. In the
second case the left one may run out where the right one goes on, which the likeness
must allow. -/
private theorem repeatWhile_like {test test' : Run Bool} {body body' : Run Flow}
    (htest : L.Like test test') (hbody : L.Like body body') {rounds rounds' : Nat}
    (hrounds : rounds ≤ rounds')
    (hmore : rounds = rounds' ∨ ∀ y : Run Flow, L.Like Run.exhausted y) :
    L.Like (repeatWhile test body rounds) (repeatWhile test' body' rounds') := by
  induction rounds generalizing rounds' with
  | zero =>
    rcases hmore with rfl | hmore
    · exact L.refl .exhausted
    · exact hmore _
  | succ rounds ih =>
    obtain ⟨more, rfl⟩ := Nat.exists_eq_add_of_lt hrounds
    have hrest := ih (Nat.le_add_right rounds more) (hmore.imp_left Nat.succ.inj)
    refine L.bind htest fun holds => ?_
    cases holds with
    | false => exact L.refl (.pure _)
    | true =>
      refine L.bind hbody fun flow => ?_
      cases flow with
      | normal v => exact hrest
      | continue_ => exact hrest
      | break_ => exact L.refl (.pure _)
      | return_ v => exact L.refl (.pure _)

omit h in
/-- A loop over items has no bound of its own, so both runs go through the same rounds. -/
private theorem repeatFor_like {body body' : Value → Run Flow}
    (hbody : ∀ v, L.Like (body v) (body' v))
    (items : List Value) : L.Like (repeatFor body items) (repeatFor body' items) := by
  induction items with
  | nil => exact L.refl (.pure _)
  | cons item rest ih =>
    refine L.bind (hbody item) fun flow => ?_
    cases flow with
    | normal v => exact ih
    | continue_ => exact ih
    | break_ => exact L.refl (.pure _)
    | return_ v => exact L.refl (.pure _)

-- ========================================================= places

/-- Resolving a target evaluates its keys and nothing else. -/
theorem place_like : ∀ e : Expr, L.Like (place eval e) (place eval' e)
  | .index pos collection key => by
    refine L.bind (place_like collection) fun p => ?_
    exact L.bind (h.expr key) fun k => L.refl (.pure _)
  | .name .. => L.refl (.pure _)
  | .literal .. | .list .. | .map .. | .unary .. | .binary .. | .logical .. | .call ..
  | .function .. => L.refl (.fault _ _)

/-- The right side of an assignment, where a compound one reads the place first, which
evaluates nothing. -/
private theorem assigned_like (pos : Position) (p : Place) (op : Option BinaryOp) (value : Expr) :
    L.Like (assigned eval pos p op value) (assigned eval' pos p op value) := by
  cases op with
  | none => exact h.expr value
  | some op =>
    refine L.bind (L.refl (load_isLevel p)) fun old => ?_
    exact L.bind (h.expr value) fun right => L.refl (.at _ _)

-- ========================================================== steps

omit h in
/-- Whatever is no function is called alike. -/
theorem call_like {setup setup' : Setup} {body body' : Stmt → Run Flow}
    (hhost : setup'.host = setup.host)
    (hclosure : ∀ f args pos,
      L.Like (callClosure setup body f args pos) (callClosure setup' body' f args pos))
    (callee : Value) (args : List Value) (pos : Position) :
    L.Like (call setup body callee args pos) (call setup' body' callee args pos) := by
  cases callee with
  | native f =>
    unfold call
    rw [hhost]
    exact L.refl (Run.native_isLevel _ f args pos)
  | function f => exact hclosure f args pos
  | _ => exact L.refl (.fault _ _)

/-- One layer of an expression is alike in both runs if what stands in it is and if calls
of functions are. Calls are left to the caller because that is where the two setups may
differ. -/
theorem step_expr_like {setup setup' : Setup} {body body' : Stmt → Run Flow}
    (hhost : setup'.host = setup.host)
    (hclosure : ∀ f args pos,
      L.Like (callClosure setup body f args pos) (callClosure setup' body' f args pos))
    (e : Expr) : L.Like (e.step setup eval body) (e.step setup' eval' body') := by
  cases e with
  | literal pos value => exact L.refl (.pure _)
  | list pos items => exact L.bind (list_like h items) fun vs => L.refl (.pure _)
  | map pos entries => exact L.bind (entries_like h entries []) fun done => L.refl (.pure _)
  | name pos name => exact L.refl (Run.get_isLevel pos name)
  | unary pos op operand => exact L.bind (h.expr operand) fun v => L.refl (.at _ _)
  | binary pos op left right =>
    refine L.bind (h.expr left) fun l => ?_
    exact L.bind (h.expr right) fun r => L.refl (.at _ _)
  | logical pos op left right =>
    refine L.bind (condition_like h _ left) fun l => ?_
    split
    · exact L.refl (.pure _)
    · exact L.bind (condition_like h _ right) fun r => L.refl (.pure _)
  | call pos callee args =>
    refine L.bind (h.expr callee) fun v => ?_
    exact L.bind (list_like h args) fun vs => call_like hhost hclosure v vs pos
  | index pos collection key =>
    refine L.bind (h.expr collection) fun c => ?_
    exact L.bind (h.expr key) fun k => L.refl (.at _ _)
  | function pos code => exact L.refl (Run.closure_isLevel code)

/-- One layer of a statement, with the rounds of its loops as in `repeatWhile_like`. -/
theorem step_stmt_like {rounds rounds' : Nat} (hrounds : rounds ≤ rounds')
    (hmore : rounds = rounds' ∨ ∀ y : Run Flow, L.Like Run.exhausted y) (s : Stmt) :
    L.Like (s.step eval exec rounds) (s.step eval' exec' rounds') := by
  have hnormal : L.Like (pure (Flow.normal .nil)) (pure (.normal .nil)) := L.refl (.pure _)
  cases s with
  | let_ pos name value =>
    refine L.bind (h.expr value) fun v => ?_
    exact L.bind (L.refl (Run.define_isLevel name v)) fun _ => hnormal
  | assign pos target op value =>
    refine L.bind (place_like h target) fun p => ?_
    refine L.bind (assigned_like h pos p op value) fun v => ?_
    exact L.bind (L.refl (store_isLevel p v)) fun _ => hnormal
  | expr pos value => exact L.bind (h.expr value) fun v => L.refl (.pure _)
  | if_ pos condition yes no =>
    refine L.bind (condition_like h _ condition) fun holds => ?_
    cases holds with
    | true => exact block_like h [] yes
    | false =>
      cases no with
      | none => exact hnormal
      | some no => exact block_like h [] no
  | while_ pos condition body =>
    exact repeatWhile_like (condition_like h _ condition) (block_like h [] body) hrounds hmore
  | for_ pos name iterable body =>
    refine L.bind (h.expr iterable) fun c => ?_
    refine L.bind (L.refl (.at _ _)) fun items => ?_
    exact repeatFor_like (fun item => block_like h [(name, item)] body) items
  | function pos code =>
    refine L.bind (L.refl (Run.closure_isLevel code)) fun f => ?_
    exact L.bind (L.refl (Run.define_isLevel _ f)) fun _ => hnormal
  | return_ pos value =>
    cases value with
    | none => exact L.refl (.pure _)
    | some value => exact L.bind (h.expr value) fun v => L.refl (.pure _)
  | block pos body => exact block_like h [] body
  | break_ pos => exact L.refl (.pure _)
  | continue_ pos => exact L.refl (.pure _)

end Parts

end Eval

-- ======================================================= programs

/-- A program is its statements in a row, so it is alike as soon as they are. -/
theorem Program.results_like {L : Run.Likeness} {exec exec' : Stmt → Run Flow}
    (h : ∀ s, L.Like (exec s) (exec' s)) (program : Program) (last : Value) :
    L.Like (results exec program last) (results exec' program last) := by
  induction program generalizing last with
  | nil => exact L.refl (.pure _)
  | cons s rest ih =>
    refine L.bind (h s) fun flow => ?_
    cases flow with
    | normal v => exact ih _
    | _ => exact L.refl (.fault _ _)

end Scriptlet
