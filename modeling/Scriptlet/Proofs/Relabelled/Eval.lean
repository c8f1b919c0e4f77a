/-
Evaluation respects relabellings. On a machine whose functions have other identities, and
code with other positions, a program with other positions does what it did before, with its
result, its fault and the machine relabelled, and nothing else changed: neither what is
computed, nor what is written, nor whether the budget is enough.

# Identities still to be given out

A relabelling moves the identities of functions to come by its gap. It therefore has to
agree with the gap on all identities that are given out during a run, and on those only
(`Outcome.Given`). So it may do one thing with the functions that a run finds and another
with those that it makes; and what a run does not get to does not count.

# One lemma for each former

`Run.Relabels` relates a computation to what becomes of it. Each combinator of the machine
and of evaluation respects it, so the lemma of a form of expression or statement is read
off its definition, and an induction on the budget ties them together. The host's routines
get values to look at, so all this holds only if they look at neither identities nor
positions (`Host.Impartial`); those of the prelude do not.
-/
import Scriptlet.Eval
import Scriptlet.Host.Prelude
import Scriptlet.Proofs.Eval.Contract
import Scriptlet.Proofs.Relabelled.Value

namespace Scriptlet

variable {α β γ δ : Type} {R : Relabelling} {g : α → β} {g' : γ → δ}

-- ==================================================== computations

/-- The identity has been given out by the end; without an end, all have been. -/
def Outcome.Given (i : Nat) : Outcome Machine Fault α → Prop
  | .done _ m | .failed _ m => i < m.fresh
  | .exhausted => True

/-- An outcome with its machine relabelled, its fault moved, and its result by `g`. -/
def Outcome.relabelled (R : Relabelling) (g : α → β) :
    Outcome Machine Fault α → Outcome Machine Fault β
  | .done a m => .done (g a) (m.relabelled R)
  | .failed fault m => .failed (fault.moved R.pos) (m.relabelled R)
  | .exhausted => .exhausted

/-- A change of the machine that leaves the counter alone gives out no number. -/
private theorem Outcome.given_mapState (f : Machine → Machine) (hf : ∀ m, (f m).fresh = m.fresh)
    {outcome : Outcome Machine Fault α} {i : Nat} :
    (outcome.mapState f).Given i ↔ outcome.Given i := by
  cases outcome with
  | exhausted => rfl
  | done a m => exact Iff.of_eq (congrArg (i < ·) (hf m))
  | failed fault m => exact Iff.of_eq (congrArg (i < ·) (hf m))

/-- A change of the machine that commutes with relabelling commutes with it inside an
outcome. -/
private theorem Outcome.mapState_relabelled (f f' : Machine → Machine)
    (hf : ∀ m, f' (m.relabelled R) = (f m).relabelled R) (outcome : Outcome Machine Fault α) :
    (outcome.relabelled R g).mapState f' = (outcome.mapState f).relabelled R g := by
  cases outcome with
  | exhausted => rfl
  | done a m => exact congrArg (Outcome.done (g a)) (hf m)
  | failed fault m => exact congrArg (Outcome.failed (fault.moved R.pos)) (hf m)

private theorem Machine.entered_relabelled (m : Machine) (parent : Nat)
    (bindings : Entries String Value) :
    (m.relabelled R).entered parent (bindings.mapValues (Value.relabelled R))
      = (m.entered parent bindings).relabelled R := by
  simp only [Machine.entered, Machine.relabelled, Heap.relabelled_size, Heap.alloc_relabelled]

/-- No identity is taken back, and if those that `x` gives out are the ones that the gap
makes of them, `y` does on the relabelled machine what `x` does, relabelled. -/
structure Run.Relabels (R : Relabelling) (g : α → β) (x : Run α) (y : Run β) : Prop where
  onward : ∀ m i, i < m.fresh → (x m).Given i
  same : ∀ m, (∀ i, m.fresh ≤ i → (x m).Given i → R.id i = i + R.gap) →
    y (m.relabelled R) = (x m).relabelled R g

/-- How a statement ends, relabelled. -/
def Flow.relabelled (R : Relabelling) : Flow → Flow
  | .normal v => .normal (v.relabelled R)
  | .return_ v => .return_ (v.relabelled R)
  | .break_ => .break_
  | .continue_ => .continue_

namespace Run

/-- A value that is given back is relabelled, and the machine with it. -/
theorem Relabels.pure (a : α) : Relabels R g (Pure.pure a) (Pure.pure (g a)) :=
  ⟨fun _ _ hi => hi, fun _ _ => rfl⟩

theorem Relabels.exhausted : Relabels R g Run.exhausted Run.exhausted :=
  ⟨fun _ _ _ => trivial, fun _ _ => rfl⟩

/-- A fault keeps its cause and moves its place. -/
theorem Relabels.fault (cause : Cause) (pos : Position) :
    Relabels R g (Run.fault cause pos) (Run.fault cause (R.pos pos)) :=
  ⟨fun _ _ hi => hi, fun _ _ => rfl⟩

/-- Two computations in a row. The second one starts from the machine that the first has
left, and the identities given out in it are among those of the whole. -/
theorem Relabels.bind {x : Run α} {y : Run β} (hx : Relabels R g x y) {k : α → Run γ}
    {k' : β → Run δ} (hk : ∀ a, Relabels R g' (k a) (k' (g a))) :
    Relabels R g' (x >>= k) (y >>= k') := by
  refine ⟨fun m i hi => ?_, fun m hgap => ?_⟩
  · have hgiven := hx.onward m i hi
    cases hxm : x m with
    | exhausted =>
      rw [bind_of_exhausted hxm]
      trivial
    | failed fault m' =>
      rw [bind_of_failed hxm]
      rwa [hxm] at hgiven
    | done a m' =>
      rw [bind_of_done hxm]
      rw [hxm] at hgiven
      exact (hk a).onward m' i hgiven
  · have hsame := hx.same m
    have honward := hx.onward m
    cases hxm : x m with
    | exhausted =>
      rw [hxm] at hsame
      rw [bind_of_exhausted hxm] at hgap ⊢
      exact bind_of_exhausted (hsame hgap)
    | failed fault m' =>
      rw [hxm] at hsame
      rw [bind_of_failed hxm] at hgap ⊢
      exact bind_of_failed (hsame hgap)
    | done a m' =>
      rw [hxm] at hsame honward
      rw [bind_of_done hxm] at hgap ⊢
      -- a number given out after the first run is also given out after `m`
      have hle : m.fresh ≤ m'.fresh :=
        Nat.le_of_not_lt fun hlt => Nat.lt_irrefl _ (honward m'.fresh hlt)
      rw [bind_of_done (hsame fun i hi hgiven => hgap i hi ((hk a).onward m' i hgiven))]
      exact (hk a).same m' fun i hi hgiven => hgap i (Nat.le_trans hle hi) hgiven

/-- The answer of an operation on values, once the operation respects the relabelling. -/
theorem Relabels.ofExcept {result : Except Fault α} {result' : Except Fault β}
    (h : result' = Fault.movedResult R.pos g result) :
    Relabels R g (Run.ofExcept result) (Run.ofExcept result') := by
  subst h
  cases result with
  | ok a => exact .pure a
  | error fault => exact .fault fault.cause fault.pos

/-- A result that does not hold functions, taken over at a place. -/
theorem Relabels.at (pos : Position) {result : Except Cause α} {result' : Except Cause β}
    (h : result' = result.map g) :
    Relabels R g (Run.at pos result) (Run.at (R.pos pos) result') :=
  .ofExcept (by rw [h, Fault.at_moved])

-- ========================================================== scopes

private theorem get_relabels (pos : Position) (name : String) :
    Relabels R (Value.relabelled R) (Run.get pos name) (Run.get (R.pos pos) name) := by
  have hat (m : Machine) := Relabels.at (R := R) pos (Heap.get_relabelled R m.heap m.scope name)
  exact ⟨fun m => (hat m).onward m, fun m => (hat m).same m⟩

private theorem define_relabels (name : String) (value : Value) :
    Relabels R id (Run.define name value) (Run.define name (value.relabelled R)) := by
  refine ⟨fun _ _ hi => hi, fun m _ => ?_⟩
  exact congrArg (fun heap => Outcome.done () { m with heap, fresh := m.fresh + R.gap })
    (Heap.define_relabelled R m.heap m.scope name value)

/-- Which frame is written to depends on names alone. -/
private theorem assign_relabels (pos : Position) (name : String) (value : Value) :
    Relabels R id (Run.assign pos name value)
      (Run.assign (R.pos pos) name (value.relabelled R)) := by
  refine ⟨fun m i hi => ?_, fun m _ => ?_⟩
  · simp only [Run.assign]
    cases m.heap.find? m.scope name <;> exact hi
  · simp only [Run.assign, Machine.relabelled, Heap.find?_relabelled]
    cases m.heap.find? m.scope name with
    | none => rfl
    | some found =>
      exact congrArg (fun heap => Outcome.done () { m with heap, fresh := m.fresh + R.gap })
        (Heap.define_relabelled R m.heap found.1 name value)

/-- The frame is entered with relabelled bindings and left for the same one. -/
private theorem inFrame_relabels (parent : Nat) (bindings : Entries String Value) {x : Run α}
    {y : Run β} (h : Relabels R g x y) :
    Relabels R g (Run.inFrame parent bindings x)
      (Run.inFrame parent (bindings.mapValues (Value.relabelled R)) y) := by
  have hgiven (m : Machine) {i : Nat} {outcome : Outcome Machine Fault α} :
      (outcome.mapState fun m' => { m' with scope := m.scope }).Given i ↔ outcome.Given i := by
    apply Outcome.given_mapState
    exact fun _ => rfl
  refine ⟨fun m i hi => ?_, fun m hgap => ?_⟩
  · rw [inFrame_eq]
    exact (hgiven m).2 (h.onward (m.entered parent bindings) i hi)
  · rw [inFrame_eq] at hgap
    have hsame := h.same (m.entered parent bindings) fun i hi hend =>
      hgap i hi ((hgiven m).2 hend)
    rw [inFrame_eq, inFrame_eq, Machine.entered_relabelled, hsame]
    exact Outcome.mapState_relabelled _ (fun m' => { m' with scope := m.scope }) (fun _ => rfl) _

private theorem inBlock_relabels (bindings : Entries String Value) {x : Run α} {y : Run β}
    (h : Relabels R g x y) :
    Relabels R g (Run.inBlock bindings x)
      (Run.inBlock (bindings.mapValues (Value.relabelled R)) y) := by
  have hframe (m : Machine) := inFrame_relabels m.scope bindings h
  exact ⟨fun m => (hframe m).onward m, fun m => (hframe m).same m⟩

private theorem inCall_relabels {x : Run α} {y : Run β} (h : Relabels R g x y) :
    Relabels R g (Run.inCall x) (Run.inCall y) := by
  have hgiven {i : Nat} {outcome : Outcome Machine Fault α} :
      (outcome.mapState fun m' => { m' with depth := m'.depth - 1 }).Given i ↔ outcome.Given i := by
    apply Outcome.given_mapState
    exact fun _ => rfl
  refine ⟨fun m i hi => ?_, fun m hgap => ?_⟩
  · rw [inCall_eq]
    exact hgiven.2 (h.onward m.called i hi)
  · rw [inCall_eq] at hgap
    have hsame := h.same m.called fun i hi hend => hgap i hi (hgiven.2 hend)
    rw [inCall_eq, inCall_eq]
    exact (congrArg _ hsame).trans
      (Outcome.mapState_relabelled _ (fun m' => { m' with depth := m'.depth - 1 }) (fun _ => rfl) _)

/-- The one move that gives out an identity. -/
theorem closure_relabels (code : Code) :
    Relabels R (Value.relabelled R) (Run.closure code) (Run.closure (code.moved R.pos)) := by
  refine ⟨fun m i hi => Nat.lt_succ_of_lt hi, fun m hgap => ?_⟩
  have hid : R.id m.fresh = m.fresh + R.gap := hgap m.fresh (Nat.le_refl _) (Nat.lt_succ_self _)
  simp only [Run.closure, Machine.relabelled, Outcome.relabelled, Value.relabelled,
    Closure.relabelled, hid, Nat.add_right_comm]

end Run

-- ======================================================== the host

/-- An answer of a routine with its value relabelled. -/
def Routine.relabelledAnswer (R : Relabelling) (answer : Except String Value × Transcript) :
    Except String Value × Transcript :=
  (answer.1.map (Value.relabelled R), answer.2)

/-- A host whose routines look neither at the identities of functions nor at the positions in
them. -/
def Host.Impartial (host : Host) (R : Relabelling) : Prop :=
  ∀ routine ∈ host, ∀ args transcript,
    routine.run (args.map (Value.relabelled R)) transcript
      = Routine.relabelledAnswer R (routine.run args transcript)

/-- An impartial host answers relabelled arguments with the relabelled answer, and writes
the same. -/
theorem Host.Impartial.run {host : Host} (h : host.Impartial R) (row : Nat) (args : List Value)
    (transcript : Transcript) :
    host.run row (args.map (Value.relabelled R)) transcript
      = Routine.relabelledAnswer R (host.run row args transcript) := by
  unfold Host.run
  cases hrow : host[row]? with
  | none => rfl
  | some routine => exact h routine (List.mem_of_getElem? hrow) args transcript

/-- Whether the number of arguments is right does not depend on what they are. -/
private theorem Native.call_relabelled {host : Host} (h : host.Impartial R) (native : Native)
    (args : List Value) (transcript : Transcript) :
    native.call host (args.map (Value.relabelled R)) transcript
      = ((native.call host args transcript).1.map (Value.relabelled R),
          (native.call host args transcript).2) := by
  unfold Native.call
  rw [List.length_map]
  split
  · rw [h.run]
    unfold Routine.relabelledAnswer
    obtain ⟨answer, written⟩ := host.run native.id args transcript
    cases answer <;> rfl
  · rfl

private theorem Run.native_relabels {host : Host} (h : host.Impartial R) (native : Native)
    (args : List Value) (pos : Position) :
    Run.Relabels R (Value.relabelled R) (Run.native host native args pos)
      (Run.native host native (args.map (Value.relabelled R)) (R.pos pos)) := by
  refine ⟨fun m i hi => ?_, fun m _ => ?_⟩
  · simp only [Run.native]
    obtain ⟨answer, written⟩ := native.call host args m.transcript
    cases answer <;> exact hi
  · simp only [Run.native, Machine.relabelled, Native.call_relabelled h]
    obtain ⟨answer, written⟩ := native.call host args m.transcript
    cases answer <;> rfl

-- ======================================================= sequences

namespace Eval

open Run (Relabels)

section Parts

variable {eval eval' : Expr → Run Value} {exec exec' : Stmt → Run Flow}

/-- What the evaluators of the parts have to offer. -/
structure PartsRelabel (R : Relabelling) (eval eval' : Expr → Run Value)
    (exec exec' : Stmt → Run Flow) : Prop where
  expr : ∀ e, Relabels R (Value.relabelled R) (eval e) (eval' (e.moved R.pos))
  stmt : ∀ s, Relabels R (Flow.relabelled R) (exec s) (exec' (s.moved R.pos))

private theorem list_relabels (h : PartsRelabel R eval eval' exec exec') (items : List Expr) :
    Relabels R (List.map (Value.relabelled R)) (list eval items)
      (list eval' (Expr.movedItems R.pos items)) := by
  induction items with
  | nil => exact .pure []
  | cons e rest ih =>
    refine (h.expr e).bind fun v => ?_
    refine ih.bind fun vs => ?_
    exact .pure (v :: vs)

private theorem entries_relabels (h : PartsRelabel R eval eval' exec exec')
    (items : List (Expr × Expr)) (done : Entries MapKey Value) :
    Relabels R (Entries.mapValues (Value.relabelled R)) (entries eval items done)
      (entries eval' (Expr.movedEntries R.pos items) (done.mapValues (Value.relabelled R))) := by
  induction items generalizing done with
  | nil => exact .pure done
  | cons entry rest ih =>
    obtain ⟨keyExpr, valueExpr⟩ := entry
    refine (h.expr keyExpr).bind fun keyValue => ?_
    rw [Expr.moved_pos, MapKey.ofValue_relabelled]
    refine (Relabels.at (g := id) keyExpr.pos (by rw [Except.map_id, id])).bind fun key => ?_
    refine (h.expr valueExpr).bind fun value => ?_
    have hrest := ih (Entries.put key value done)
    rwa [← Entries.put_mapValues] at hrest

private theorem sequence_relabels (h : PartsRelabel R eval eval' exec exec') (body : List Stmt) :
    Relabels R (Flow.relabelled R) (sequence exec body)
      (sequence exec' (Stmt.movedBody R.pos body)) := by
  induction body with
  | nil => exact .pure (Flow.normal .nil)
  | cons s rest ih =>
    refine (h.stmt s).bind fun flow => ?_
    cases flow with
    | normal v => exact ih
    | return_ v => exact .pure (Flow.return_ v)
    | break_ => exact .pure Flow.break_
    | continue_ => exact .pure Flow.continue_

private theorem block_relabels (h : PartsRelabel R eval eval' exec exec')
    (bindings : Entries String Value) (body : List Stmt) :
    Relabels R (Flow.relabelled R) (block exec bindings body)
      (block exec' (bindings.mapValues (Value.relabelled R)) (Stmt.movedBody R.pos body)) :=
  Run.inBlock_relabels bindings (sequence_relabels h body)

private theorem condition_relabels (h : PartsRelabel R eval eval' exec exec') (demand : Demand)
    (e : Expr) :
    Relabels R id (condition eval demand e) (condition eval' demand (e.moved R.pos)) := by
  refine (h.expr e).bind fun v => ?_
  rw [Expr.moved_pos, Value.truth_relabelled]
  exact .at e.pos (by rw [Except.map_id, id])

-- =========================================================== loops

/-- The truth of a test has nothing in it to relabel, so both loops make the same
rounds. -/
private theorem repeatWhile_relabels {test test' : Run Bool} {body body' : Run Flow}
    (htest : Relabels R id test test') (hbody : Relabels R (Flow.relabelled R) body body')
    (rounds : Nat) :
    Relabels R (Flow.relabelled R) (repeatWhile test body rounds)
      (repeatWhile test' body' rounds) := by
  induction rounds with
  | zero => exact .exhausted
  | succ rounds ih =>
    refine htest.bind fun holds => ?_
    cases holds with
    | false => exact .pure (Flow.normal .nil)
    | true =>
      refine hbody.bind fun flow => ?_
      cases flow with
      | normal v => exact ih
      | continue_ => exact ih
      | break_ => exact .pure (Flow.normal .nil)
      | return_ v => exact .pure (Flow.return_ v)

/-- The items are fixed before the first round, so the rounds match one by one. -/
private theorem repeatFor_relabels {body body' : Value → Run Flow}
    (hbody : ∀ v, Relabels R (Flow.relabelled R) (body v) (body' (v.relabelled R)))
    (items : List Value) :
    Relabels R (Flow.relabelled R) (repeatFor body items)
      (repeatFor body' (items.map (Value.relabelled R))) := by
  induction items with
  | nil => exact .pure (Flow.normal .nil)
  | cons item rest ih =>
    refine (hbody item).bind fun flow => ?_
    cases flow with
    | normal v => exact ih
    | continue_ => exact ih
    | break_ => exact .pure (Flow.normal .nil)
    | return_ v => exact .pure (Flow.return_ v)

-- =========================================================== calls

/-- The parameters are bound in the order of the relabelled arguments. -/
private theorem parameters_relabelled (code : Code) (args : List Value) :
    parameters (code.moved R.pos) (args.map (Value.relabelled R))
      = (parameters code args).mapValues (Value.relabelled R) := by
  have hfold (pairs : List (Param × Value)) (bound : Entries String Value) :
      (pairs.map fun pair => (pair.1.moved R.pos, pair.2.relabelled R)).foldl
          (fun bound pair => Entries.put pair.1.name pair.2 bound)
          (bound.mapValues (Value.relabelled R))
        = (pairs.foldl (fun bound pair => Entries.put pair.1.name pair.2 bound) bound).mapValues
          (Value.relabelled R) := by
    induction pairs generalizing bound with
    | nil => rfl
    | cons pair rest ih =>
      rw [List.map_cons, List.foldl_cons, List.foldl_cons, ← ih, ← Entries.put_mapValues]
      rfl
  rw [parameters, parameters, Code.moved_params, List.zip_map]
  exact hfold (code.params.zip args) []

/-- A signal that leaves a body is reported at the call, whose position is moved. -/
private theorem callResult_relabels (pos : Position) (flow : Flow) :
    Relabels R (Value.relabelled R) (callResult pos flow)
      (callResult (R.pos pos) (flow.relabelled R)) := by
  cases flow with
  | return_ v => exact .pure v
  | normal v => exact .pure Value.nil
  | break_ => exact .fault _ pos
  | continue_ => exact .fault _ pos

variable {setup : Setup}

/-- The code of a relabelled function is the moved code, so its body runs as the moved
body does. -/
private theorem callClosure_relabels (h : PartsRelabel R eval eval' exec exec') (c : Closure)
    (args : List Value) (pos : Position) :
    Relabels R (Value.relabelled R) (callClosure setup exec c args pos)
      (callClosure setup exec' (c.relabelled R) (args.map (Value.relabelled R)) (R.pos pos)) := by
  have hbody := Run.inCall_relabels (Run.inFrame_relabels c.frame (parameters c.code args)
    (sequence_relabels h c.code.body))
  have hcall := hbody.bind (callResult_relabels pos)
  have hrefused (cause : Cause) := Relabels.fault (R := R) (g := Value.relabelled R) cause pos
  refine ⟨fun m => ?_, fun m => ?_⟩
  · unfold callClosure
    split
    · exact (hrefused _).onward m
    split
    · exact (hrefused _).onward m
    · exact hcall.onward m
  · have hdepth : (m.relabelled R).depth = m.depth := rfl
    simp only [callClosure, Closure.relabelled, List.length_map, Code.moved_arity, Code.moved_title,
      hdepth]
    split
    · exact (hrefused _).same m
    split
    · exact (hrefused _).same m
    · rw [Code.moved_body, parameters_relabelled]
      exact hcall.same m

/-- A call of anything: a closure, a native function of the host, or a value that is
none. -/
private theorem call_relabels (h : PartsRelabel R eval eval' exec exec')
    (hhost : setup.host.Impartial R) (callee : Value) (args : List Value) (pos : Position) :
    Relabels R (Value.relabelled R) (call setup exec callee args pos)
      (call setup exec' (callee.relabelled R) (args.map (Value.relabelled R)) (R.pos pos)) := by
  cases callee with
  | native n => exact Run.native_relabels hhost n args pos
  | function c => exact callClosure_relabels h c args pos
  | _ => exact .fault _ pos

-- ========================================================== places

def Place.relabelled (R : Relabelling) (p : Place) : Place :=
  { p with pos := R.pos p.pos, path := p.path.relabelled R }

/-- Keys are relabelled as values and keep their own, moved positions. -/
theorem place_relabels (h : PartsRelabel R eval eval' exec exec') :
    ∀ e : Expr, Relabels R (Place.relabelled R) (place eval e) (place eval' (e.moved R.pos))
  | .name pos name => .pure (Place.mk name pos [])
  | .index pos collection key => by
    refine (place_relabels h collection).bind fun p => ?_
    refine (h.expr key).bind fun k => ?_
    have hpath : Path.relabelled R (p.path ++ [(k, pos)])
        = Path.relabelled R p.path ++ [(k.relabelled R, R.pos pos)] := by
      simp [Path.relabelled]
    simp only [Place.relabelled, ← hpath]
    exact .pure (Place.mk p.name p.pos (p.path ++ [(k, pos)]))
  | .literal pos _ => .fault _ pos
  | .list pos _ => .fault _ pos
  | .map pos _ => .fault _ pos
  | .unary pos _ _ => .fault _ pos
  | .binary pos _ _ _ => .fault _ pos
  | .logical pos _ _ _ => .fault _ pos
  | .call pos _ _ => .fault _ pos
  | .function pos _ => .fault _ pos

/-- Reading and writing a place are the operations on values, with the root looked up by
name. -/
theorem load_relabels (p : Place) :
    Relabels R (Value.relabelled R) (load p) (load (p.relabelled R)) := by
  refine (Run.get_relabels p.pos p.name).bind fun root => ?_
  exact .ofExcept (Value.load_relabelled R root p.path)

theorem store_relabels (p : Place) (value : Value) :
    Relabels R id (store p value) (store (p.relabelled R) (value.relabelled R)) := by
  refine (Run.get_relabels p.pos p.name).bind fun root => ?_
  refine (Relabels.ofExcept (Value.store_relabelled R root p.path value)).bind fun root => ?_
  exact Run.assign_relabels p.pos p.name root

/-- The right side of an assignment, read through the relabelled place where the
assignment is a compound one. -/
private theorem assigned_relabels (h : PartsRelabel R eval eval' exec exec') (pos : Position)
    (p : Place) (op : Option BinaryOp) (value : Expr) :
    Relabels R (Value.relabelled R) (assigned eval pos p op value)
      (assigned eval' (R.pos pos) (p.relabelled R) op (value.moved R.pos)) := by
  cases op with
  | none => exact h.expr value
  | some op =>
    refine (load_relabels p).bind fun old => ?_
    refine (h.expr value).bind fun right => ?_
    exact .at pos (BinaryOp.apply_relabelled R op old right)

-- =========================================================== steps

/-- One layer of an expression: its moved form does the same with what stands in it. -/
private theorem step_expr_relabels (h : PartsRelabel R eval eval' exec exec')
    (hhost : setup.host.Impartial R) (e : Expr) :
    Relabels R (Value.relabelled R) (e.step setup eval exec)
      ((e.moved R.pos).step setup eval' exec') := by
  cases e with
  | literal pos value =>
    have hvalue := Relabels.pure (R := R) (g := Value.relabelled R) value.value
    rwa [Literal.value_relabelled] at hvalue
  | list pos items =>
    refine (list_relabels h items).bind fun vs => ?_
    have hlist := Relabels.pure (R := R) (g := Value.relabelled R) (.list vs)
    rwa [Value.relabelled, Value.relabelledItems_eq_map] at hlist
  | map pos entries =>
    refine (entries_relabels h entries []).bind fun done => ?_
    have hmap := Relabels.pure (R := R) (g := Value.relabelled R) (.map done)
    rwa [Value.relabelled, Value.relabelledEntries_eq_mapValues] at hmap
  | name pos name => exact Run.get_relabels pos name
  | unary pos op operand =>
    refine (h.expr operand).bind fun v => ?_
    exact .at pos (UnaryOp.apply_relabelled R op v)
  | binary pos op left right =>
    refine (h.expr left).bind fun l => ?_
    refine (h.expr right).bind fun r => ?_
    exact .at pos (BinaryOp.apply_relabelled R op l r)
  | logical pos op left right =>
    refine (condition_relabels h _ left).bind fun l => ?_
    show Relabels R _ (if op.decides l then _ else _) (if op.decides l then _ else _)
    split
    · exact .pure (Value.bool l)
    · refine (condition_relabels h _ right).bind fun r => ?_
      exact .pure (Value.bool r)
  | call pos callee args =>
    refine (h.expr callee).bind fun v => ?_
    refine (list_relabels h args).bind fun vs => ?_
    exact call_relabels h hhost v vs pos
  | index pos collection key =>
    refine (h.expr collection).bind fun c => ?_
    refine (h.expr key).bind fun k => ?_
    exact .at pos (Value.item_relabelled R c k)
  | function pos code => exact Run.closure_relabels code

/-- One layer of a statement, in the same way. -/
private theorem step_stmt_relabels (h : PartsRelabel R eval eval' exec exec') (rounds : Nat)
    (s : Stmt) : Relabels R (Flow.relabelled R) (s.step eval exec rounds)
      ((s.moved R.pos).step eval' exec' rounds) := by
  cases s with
  | let_ pos name value =>
    refine (h.expr value).bind fun v => ?_
    refine (Run.define_relabels name v).bind fun _ => ?_
    exact .pure (Flow.normal .nil)
  | assign pos target op value =>
    refine (place_relabels h target).bind fun p => ?_
    refine (assigned_relabels h pos p op value).bind fun v => ?_
    refine (store_relabels p v).bind fun _ => ?_
    exact .pure (Flow.normal .nil)
  | expr pos value =>
    refine (h.expr value).bind fun v => ?_
    exact .pure (Flow.normal v)
  | if_ pos condition yes no =>
    cases no with
    | none =>
      refine (condition_relabels h _ condition).bind fun holds => ?_
      cases holds with
      | true => exact block_relabels h [] yes
      | false => exact .pure (Flow.normal .nil)
    | some no =>
      refine (condition_relabels h _ condition).bind fun holds => ?_
      cases holds with
      | true => exact block_relabels h [] yes
      | false => exact block_relabels h [] no
  | while_ pos condition body =>
    exact repeatWhile_relabels (condition_relabels h _ condition) (block_relabels h [] body) rounds
  | for_ pos name iterable body =>
    refine (h.expr iterable).bind fun c => ?_
    -- the position of the tree reaches the run here, as that of the fault
    rw [Expr.moved_pos]
    refine (Relabels.at iterable.pos (Value.items_relabelled R c)).bind fun items => ?_
    exact repeatFor_relabels (fun item => block_relabels h [(name, item)] body) items
  | function pos code =>
    refine (Run.closure_relabels code).bind fun v => ?_
    rw [Code.moved_name]
    refine (Run.define_relabels _ v).bind fun _ => ?_
    exact .pure (Flow.normal .nil)
  | return_ pos value =>
    cases value with
    | none => exact .pure (Flow.return_ .nil)
    | some value =>
      refine (h.expr value).bind fun v => ?_
      exact .pure (Flow.return_ v)
  | break_ pos => exact .pure Flow.break_
  | continue_ pos => exact .pure Flow.continue_
  | block pos body => exact block_relabels h [] body

end Parts

-- ====================================================== evaluation

/-- Evaluation respects relabellings. -/
theorem relabels {setup : Setup} (hhost : setup.host.Impartial R) (budget : Nat) :
    PartsRelabel R (Expr.eval setup budget) (Expr.eval setup budget) (Stmt.exec setup budget)
      (Stmt.exec setup budget) := by
  induction budget with
  | zero =>
    refine ⟨fun e => ?_, fun s => ?_⟩
    · rw [Expr.eval_zero, Expr.eval_zero]
      exact .exhausted
    · rw [Stmt.exec_zero, Stmt.exec_zero]
      exact .exhausted
  | succ budget ih =>
    refine ⟨fun e => ?_, fun s => ?_⟩
    · rw [Expr.eval_succ, Expr.eval_succ]
      exact step_expr_relabels ih hhost e
    · rw [Stmt.exec_succ, Stmt.exec_succ]
      exact step_stmt_relabels ih budget s

end Eval

-- ======================================================== programs

namespace Program

open Run (Relabels)

/-- Whether a statement sets the result of the program is seen from its form. -/
private theorem isResult_moved (s : Stmt) : isResult (s.moved R.pos) = isResult s := by
  cases s with
  | if_ pos condition yes no => cases no <;> rfl
  | return_ pos value => cases value <;> rfl
  | _ => rfl

/-- Which statements give the result of a program does not depend on where they stand. -/
theorem results_relabels {exec : Stmt → Run Flow}
    (h : ∀ s, Relabels R (Flow.relabelled R) (exec s) (exec (s.moved R.pos))) (program : Program)
    (last : Value) :
    Relabels R (Value.relabelled R) (results exec program last)
      (results exec (program.moved R.pos) (last.relabelled R)) := by
  induction program generalizing last with
  | nil => exact .pure last
  | cons s rest ih =>
    refine (h s).bind fun flow => ?_
    rw [Stmt.moved_pos, isResult_moved]
    cases flow with
    | normal v =>
      have hrest := ih (if isResult s then v else last)
      rwa [apply_ite (Value.relabelled R)] at hrest
    | return_ v => exact .fault _ s.pos
    | break_ => exact .fault _ s.pos
    | continue_ => exact .fault _ s.pos

/-- Running a program respects relabellings. -/
theorem run_relabels {setup : Setup} (hhost : setup.host.Impartial R) (budget : Nat)
    (program : Program) :
    Relabels R (Value.relabelled R) (program.run setup budget)
      ((program.moved R.pos).run setup budget) := by
  have hresults := results_relabels (Eval.relabels hhost budget).stmt program .nil
  exact ⟨fun m => hresults.onward { m with scope := Machine.root, depth := 0 },
    fun m => hresults.same { m with scope := Machine.root, depth := 0 }⟩

end Program

-- ===================================================== the prelude

namespace Prelude

private theorem first_relabelled (args : List Value) :
    first (args.map (Value.relabelled R)) = (first args).relabelled R := by
  cases args <;> rfl

private theorem second_relabelled (args : List Value) :
    second (args.map (Value.relabelled R)) = (second args).relabelled R := by
  cases args with
  | nil => rfl
  | cons v rest => exact first_relabelled rest

/-- What is printed shows neither identities nor positions. -/
private theorem line_relabelled (args : List Value) :
    line (args.map (Value.relabelled R)) = line args := by
  simp [line, Function.comp_def]

private theorem len_relabelled (v : Value) : len (v.relabelled R) = (len v).map
    (Value.relabelled R) := by
  cases v <;> simp [len, Value.relabelled, Entries.mapValues, expected, Except.map, Value.type]

private theorem push_relabelled (v item : Value) :
    push (v.relabelled R) (item.relabelled R) = (push v item).map (Value.relabelled R) := by
  cases v <;> simp [push, Value.relabelled, expected, Except.map, Value.type]

private theorem keys_relabelled (v : Value) :
    keys (v.relabelled R) = (keys v).map (Value.relabelled R) := by
  cases v <;>
    simp [keys, Value.relabelled, expected, Except.map, Value.type, Entries.keys_mapValues]

private theorem values_relabelled (v : Value) :
    values (v.relabelled R) = (values v).map (Value.relabelled R) := by
  cases v <;> simp [values, Value.relabelled, expected, Except.map, Value.type, Entries.values,
    Entries.mapValues]

/-- Whether a list contains a value is a question of equality, and identities are
relabelled one to one. -/
private theorem contains_relabelled (v needle : Value) :
    contains (v.relabelled R) (needle.relabelled R)
      = (contains v needle).map (Value.relabelled R) := by
  cases v with
  | list items =>
    simp [contains, Value.relabelled, Except.map, Function.comp_def, Value.eq_relabelled]
  | map entries =>
    simp only [contains, Value.relabelled, Value.relabelledEntries_eq_mapValues,
      MapKey.ofValue_relabelled]
    cases MapKey.ofValue needle with
    | error cause => rfl
    | ok key => simp [Except.map, Value.relabelled, Entries.has, Entries.get?_mapValues]
  | string text => cases needle <;> rfl
  | _ => rfl

private theorem bound_relabelled (v : Value) : bound (v.relabelled R) = bound v := by
  cases v <;> rfl

/-- The arguments of `range` are numbers or refused by their type, and both are seen
through a relabelling. -/
private theorem range_args_relabelled (args : List Value) :
    range (args.map (Value.relabelled R)) = range args := by
  rcases args with _ | ⟨a, _ | ⟨b, _ | ⟨c, _ | ⟨d, rest⟩⟩⟩⟩
  · rfl
  · simp only [range, List.map_cons, List.map_nil, bound_relabelled]
  · simp only [range, List.map_cons, List.map_nil, bound_relabelled]
  · simp only [range, List.map_cons, List.map_nil, bound_relabelled]
  · simp [range]

/-- A range holds numbers, and those are not relabelled. -/
theorem terms_relabelled (start stop step : Int) :
    Except.map (Value.relabelled R) (if step = 0 then .error "`range` step must be non-zero"
      else .ok (.list ((progression start stop step).map fun i => .number (Float.ofInt i))))
    = if step = 0 then .error "`range` step must be non-zero"
      else .ok (.list ((progression start stop step).map fun i => .number (Float.ofInt i))) := by
  split
  · rfl
  · simp [Except.map, Value.relabelled]

private theorem range_relabelled (args : List Value) :
    range (args.map (Value.relabelled R)) = (range args).map (Value.relabelled R) := by
  rw [range_args_relabelled]
  rcases args with _ | ⟨a, _ | ⟨b, _ | ⟨c, _ | ⟨d, rest⟩⟩⟩⟩
  · rfl
  · simp only [range]
    cases bound a with
    | error message => rfl
    | ok stop => exact (terms_relabelled 0 stop 1).symm
  · simp only [range]
    cases bound a with
    | error message => rfl
    | ok start =>
      cases bound b with
      | error message => rfl
      | ok stop => exact (terms_relabelled start stop 1).symm
  · simp only [range]
    cases bound a with
    | error message => rfl
    | ok start =>
      cases bound b with
      | error message => rfl
      | ok stop =>
        cases bound c with
        | error message => rfl
        | ok step => exact (terms_relabelled start stop step).symm
  · rfl

/-- The prelude looks neither at identities nor at positions. -/
theorem host_impartial (R : Relabelling) : host.Impartial R := by
  have hquiet {name : String} {arity : Arity} {run : List Value → Except String Value}
      (h : ∀ args, run (args.map (Value.relabelled R)) = (run args).map (Value.relabelled R))
      (args : List Value) (transcript : Transcript) :
      (Routine.quiet name arity run).run (args.map (Value.relabelled R)) transcript
        = Routine.relabelledAnswer R ((Routine.quiet name arity run).run args transcript) :=
    congrArg (·, transcript) (h args)
  have hprinting (ending : String) (args : List Value) (transcript : Transcript) :
      printing ending (args.map (Value.relabelled R)) transcript
        = Routine.relabelledAnswer R (printing ending args transcript) := by
    rw [printing, line_relabelled]
    rfl
  intro routine hmem
  simp only [host, List.mem_cons, List.not_mem_nil, or_false] at hmem
  rcases hmem with rfl | rfl | rfl | rfl | rfl | rfl | rfl | rfl | rfl | rfl
  · exact hprinting ""
  · exact hprinting "\n"
  · exact hquiet fun args => by rw [first_relabelled, len_relabelled]
  · exact hquiet fun args => by rw [first_relabelled, Value.display_relabelled]; rfl
  · exact hquiet fun args => by rw [first_relabelled, Value.relabelled_type]; rfl
  · exact hquiet range_relabelled
  · exact hquiet fun args => by rw [first_relabelled, second_relabelled, push_relabelled]
  · exact hquiet fun args => by rw [first_relabelled, keys_relabelled]
  · exact hquiet fun args => by rw [first_relabelled, values_relabelled]
  · exact hquiet fun args => by rw [first_relabelled, second_relabelled, contains_relabelled]

end Prelude

end Scriptlet
