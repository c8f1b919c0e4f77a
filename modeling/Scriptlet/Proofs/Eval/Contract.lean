/-
Contracts of evaluation. A contract says what trees may look like, which frames
count, what holds of the machine between any two moves, how a machine may differ
before and after an expression or a statement, and what a fault may be. A
contract is lawful if the few moves that change the machine respect it: binding a
name, entering and leaving a frame or a call, making a function, writing. Then
evaluation respects it as a whole (`Eval.meets`).

# What every lawful contract gives

Beyond the contract itself, a run shows three things. The functions among its
values have code that meets the tree's rule and stand in frames that count. The
heap only grows. And a statement ends in a signal only if it leaks that signal
(`Stmt.leaks`).

# Inside and outside of a frame

Expressions leave the names of the current frame alone; a statement may add one.
A contract therefore has two relations: `within` for expressions and for
statements that declare nothing, `across` for statements in a row. Leaving a
frame turns the second into the first.
-/
import Scriptlet.Eval
import Scriptlet.Proofs.Grammar.Written
import Scriptlet.Proofs.Heap.Nearest
import Scriptlet.Proofs.Tree.Rule
import Scriptlet.Proofs.Value.Functions

namespace Scriptlet

variable {α β : Type}

-- =========================================================== moves

namespace Machine

/-- The machine with a name bound in a frame. -/
def defined (m : Machine) (frame : Nat) (name : String) (value : Value) : Machine :=
  { m with heap := m.heap.define frame name value }

/-- The machine in a new frame. -/
def entered (m : Machine) (parent : Nat) (bindings : Entries String Value) : Machine :=
  { m with heap := m.heap.alloc (some parent) bindings, scope := m.heap.size }

/-- The machine one call deeper. -/
def called (m : Machine) : Machine := { m with depth := m.depth + 1 }

end Machine

/-- An outcome with its state changed. -/
def Outcome.mapState {σ τ ε : Type} (f : σ → τ) : Outcome σ ε α → Outcome τ ε α
  | .done a s => .done a (f s)
  | .failed e s => .failed e (f s)
  | .exhausted => .exhausted

theorem Outcome.mapState_ne_exhausted {σ τ ε : Type} (f : σ → τ) {outcome : Outcome σ ε α}
    (h : outcome ≠ .exhausted) : outcome.mapState f ≠ .exhausted := by
  cases outcome with
  | exhausted => exact absurd rfl h
  | done a s => nofun
  | failed e s => nofun

/-- The value of a computation that gave one. -/
def Outcome.value? {σ ε : Type} : Outcome σ ε α → Option α
  | .done a _ => some a
  | .failed _ _ | .exhausted => none

/-- The error of a computation that failed. -/
def Outcome.error? {σ ε : Type} : Outcome σ ε α → Option ε
  | .failed e _ => some e
  | .done _ _ | .exhausted => none

/-- What a decidable test on an outcome gives back: where a value can be read off, the run
is done. -/
theorem Outcome.exists_done {σ ε : Type} {outcome : Outcome σ ε α}
    (h : outcome.value?.isSome = true) : ∃ a s, outcome = .done a s := by
  cases outcome with
  | done a s => exact ⟨a, s, rfl⟩
  | failed e s => cases h
  | exhausted => cases h

/-- Where an error can be read off, the run failed with it. -/
theorem Outcome.eq_failed {σ ε : Type} {outcome : Outcome σ ε α} {e : ε}
    (h : outcome.error? = some e) : ∃ s, outcome = .failed e s := by
  cases outcome with
  | failed e' s => exact ⟨s, congrArg (Outcome.failed · s) (Option.some.inj h)⟩
  | done a s => cases h
  | exhausted => cases h

theorem Outcome.exists_failed {σ ε : Type} {outcome : Outcome σ ε α}
    (h : outcome.error?.isSome = true) : ∃ e s, outcome = .failed e s := by
  obtain ⟨e, he⟩ := Option.isSome_iff_exists.1 h
  exact ⟨e, eq_failed he⟩

/-- A run in a frame of its own is a run in the new frame, and then the way back. -/
theorem Run.inFrame_eq (parent : Nat) (bindings : Entries String Value) (x : Run α) (m : Machine) :
    Run.inFrame parent bindings x m
      = (x (m.entered parent bindings)).mapState fun m' => { m' with scope := m.scope } := by
  unfold Run.inFrame
  dsimp only
  rw [Machine.entered]
  cases x { m with heap := m.heap.alloc (some parent) bindings, scope := m.heap.size } <;> rfl

/-- A call is its body run one level deeper; the level goes down again however the body
ends. -/
theorem Run.inCall_eq (x : Run α) (m : Machine) :
    Run.inCall x m = (x m.called).mapState fun m' => { m' with depth := m'.depth - 1 } := by
  unfold Run.inCall
  dsimp only
  rw [Machine.called]
  cases x { m with depth := m.depth + 1 } <;> rfl

/-- The three ways a run goes on after its first part. A first part that is done hands its
value and its machine to the rest. -/
theorem Run.bind_of_done {x : Run α} {k : α → Run β} {a : α} {m m' : Machine}
    (h : x m = .done a m') : (x >>= k) m = k a m' := by
  show Run.bind x k m = k a m'
  unfold Run.bind
  rw [h]

/-- A first part that fails ends the whole, and the rest is not run. -/
theorem Run.bind_of_failed {x : Run α} {k : α → Run β} {fault : Fault} {m m' : Machine}
    (h : x m = .failed fault m') : (x >>= k) m = .failed fault m' := by
  show Run.bind x k m = .failed fault m'
  unfold Run.bind
  rw [h]

theorem Run.bind_of_exhausted {x : Run α} {k : α → Run β} {m : Machine}
    (h : x m = .exhausted) : (x >>= k) m = .exhausted := by
  show Run.bind x k m = .exhausted
  unfold Run.bind
  rw [h]

/-- Of two computations in a row that succeed, each does. -/
theorem Run.done_of_bind {x : Run α} {k : α → Run β} {b : β} {m m' : Machine}
    (h : (x >>= k) m = .done b m') : ∃ a m₁, x m = .done a m₁ ∧ k a m₁ = .done b m' := by
  cases hx : x m with
  | exhausted =>
    rw [bind_of_exhausted hx] at h
    cases h
  | failed fault m₁ =>
    rw [bind_of_failed hx] at h
    cases h
  | done a m₁ =>
    rw [bind_of_done hx] at h
    exact ⟨a, m₁, rfl, h⟩

section Evaluation

variable (setup : Setup) (budget : Nat)

theorem Expr.eval_zero (e : Expr) : Expr.eval setup 0 e = Run.exhausted := by
  funext m
  rw [Expr.eval]
  rfl

/-- One unit of the budget pays for one layer of the tree; what stands in it is evaluated
with what is left. -/
theorem Expr.eval_succ (e : Expr) :
    Expr.eval setup (budget + 1) e
      = e.step setup (Expr.eval setup budget) (Stmt.exec setup budget) := by
  funext m
  rw [Expr.eval]

theorem Stmt.exec_zero (s : Stmt) : Stmt.exec setup 0 s = Run.exhausted := by
  funext m
  rw [Stmt.exec]
  rfl

/-- As for expressions. The rounds of a loop are bounded by the budget that is left. -/
theorem Stmt.exec_succ (s : Stmt) :
    Stmt.exec setup (budget + 1) s
      = s.step (Expr.eval setup budget) (Stmt.exec setup budget) budget := by
  funext m
  rw [Stmt.exec]

end Evaluation

-- ======================================================= contracts

/-- The name that a statement binds in the current frame. -/
def Stmt.declares? : Stmt → Option String
  | .let_ _ name _ => some name
  | .function _ code => some (code.name.getD "")
  | _ => none

/-- The signal that a statement ends in. -/
def Flow.signal? : Flow → Option Signal
  | .normal _ => none
  | .return_ _ => some .return_
  | .break_ => some .break_
  | .continue_ => some .continue_

/-- The value that a statement ends with. -/
def Flow.value : Flow → Value
  | .normal v | .return_ v => v
  | .break_ | .continue_ => .nil

/-- What is asked of evaluation. -/
structure Contract where
  /-- What holds of the nodes of trees that run. -/
  tree : Tree.Rule := .any
  /-- The frames that count once so many have been made. -/
  live : Nat → Nat → Prop := fun _ _ => True
  /-- What holds of the machine between any two moves. -/
  machine : Machine → Prop := fun _ => True
  /-- How the machine may change while an expression is evaluated. -/
  within : Machine → Machine → Prop
  /-- How the machine may change while statements are executed. -/
  across : Machine → Machine → Prop
  /-- What holds of faults. -/
  fault : Fault → Prop := fun _ => True

namespace Contract

variable (C : Contract)

/-- The functions that may stand among values once so many frames have been
made. -/
structure Admits (frames : Nat) (f : Closure) : Prop where
  code : f.code.Every C.tree
  frame : C.live frames f.frame

/-- The values that may be computed. -/
def Holds (frames : Nat) (v : Value) : Prop := v.Every (C.Admits frames)

instance (frames : Nat) : Value.Inherited (C.Holds frames) :=
  inferInstanceAs (Value.Inherited (Value.Every (C.Admits frames)))

/-- What holds of a frame that counts. -/
structure Sound (frames : Nat) (f : Frame) : Prop where
  parent : ∀ parent ∈ f.parent, C.live frames parent
  bindings : ∀ binding ∈ f.bindings, C.Holds frames binding.2

/-- The machines that evaluation starts from and comes to. -/
structure Good (m : Machine) : Prop where
  machine : C.machine m
  scope : C.live m.heap.size m.scope
  frames : ∀ i f, C.live m.heap.size i → m.heap[i]? = some f → C.Sound m.heap.size f

/-- From one good machine to another. -/
structure Step (R : Machine → Machine → Prop) (m m' : Machine) : Prop where
  good : C.Good m'
  grown : m.heap.size ≤ m'.heap.size
  moved : R m m'

/-- The places where any plain cause may arise. -/
def PlainAt (pos : Position) : Prop := ∀ cause : Cause, cause.isPlain = true → C.fault ⟨cause, pos⟩

/-- How statements may end that leak the given signals. -/
structure Ending (leaks : Signal → Bool) (frames : Nat) (flow : Flow) : Prop where
  value : C.Holds frames flow.value
  signal : ∀ signal ∈ flow.signal?, leaks signal = true

/-- How the machine may change while a statement is executed. -/
def through (s : Stmt) : Machine → Machine → Prop :=
  match s.declares? with
  | some _ => C.across
  | none => C.within

/-- The moves of the machine respect the contract. -/
structure Lawful (setup : Setup) : Prop where
  refl : ∀ m, C.within m m
  trans : ∀ {m m' m''}, C.within m m' → C.within m' m'' → C.within m m''
  widen : ∀ {m m'}, C.within m m' → C.across m m'
  trans' : ∀ {m m' m''}, C.across m m' → C.across m' m'' → C.across m m''
  live_mono : ∀ {frames frames' i}, frames ≤ frames' → C.live frames i → C.live frames' i
  live_old : ∀ {frames frames' i}, i < frames → frames ≤ frames' → C.live frames' i →
    C.live frames i
  live_new : ∀ {m}, C.machine m → C.live (m.heap.size + 1) m.heap.size
  define : ∀ {m} name value, C.machine m →
    C.machine (m.defined m.scope name value) ∧ C.across m (m.defined m.scope name value)
  assign : ∀ {m name owner old} value, C.machine m →
    m.heap.find? m.scope name = some (owner, old) →
      C.machine (m.defined owner name value) ∧ C.within m (m.defined owner name value)
  enter : ∀ {m parent} bindings, C.machine m → C.live m.heap.size parent →
    C.machine (m.entered parent bindings)
  leave : ∀ {m parent bindings m'}, C.machine m → C.across (m.entered parent bindings) m' →
    C.machine m' → C.machine { m' with scope := m.scope } ∧ C.within m { m' with scope := m.scope }
  call : ∀ {m}, C.machine m → m.depth < setup.maxDepth → C.machine m.called
  return_ : ∀ {m m'}, C.machine m → C.within m.called m' → C.machine m' →
    C.machine { m' with depth := m'.depth - 1 } ∧ C.within m { m' with depth := m'.depth - 1 }
  make : ∀ {m}, C.machine m →
    C.machine { m with fresh := m.fresh + 1 } ∧ C.within m { m with fresh := m.fresh + 1 }
  write : ∀ {m} transcript, C.machine m →
    C.machine { m with transcript } ∧ C.within m { m with transcript }
  host : ∀ frames, setup.host.Lends (C.Admits frames)
  plain : ∀ {e}, C.tree.expr e → C.PlainAt e.pos
  compound : ∀ {pos target op value}, C.tree.stmt (.assign pos target op value) → C.PlainAt pos
  target : ∀ {pos target op value e}, C.tree.stmt (.assign pos target op value) →
    target.IsPlace = false → C.tree.expr e → C.fault ⟨.invalidTarget, e.pos⟩
  escape : ∀ {pos callee args frames f signal}, C.tree.expr (.call pos callee args) →
    C.Admits frames f → signal ≠ .return_ → Stmt.leaksIn signal f.code.body = true →
      C.fault ⟨.uncaught signal, pos⟩

end Contract

open Contract

variable {C : Contract} {setup : Setup}

-- ==================================================== good machines

namespace Contract

/-- A value stays good while the heap grows: the frames its functions point at are never
taken away. -/
theorem Lawful.holds_mono (hC : C.Lawful setup) {frames frames' : Nat} (hle : frames ≤ frames')
    {v : Value} (h : C.Holds frames v) : C.Holds frames' v :=
  h.mono fun _ hf => ⟨hf.code, hC.live_mono hle hf.frame⟩

private theorem Lawful.sound_mono (hC : C.Lawful setup) {frames frames' : Nat}
    (hle : frames ≤ frames') {f : Frame} (h : C.Sound frames f) : C.Sound frames' f :=
  ⟨fun parent hparent => hC.live_mono hle (h.parent parent hparent),
    fun binding hbinding => hC.holds_mono hle (h.bindings binding hbinding)⟩

/-- What a name means in a frame that counts is a value that may be computed,
from a frame that counts. -/
theorem Good.find? {m : Machine} (hm : C.Good m) {frame owner : Nat} {name : String} {v : Value}
    (hlive : C.live m.heap.size frame) (h : m.heap.find? frame name = some (owner, v)) :
    C.live m.heap.size owner ∧ C.Holds m.heap.size v := by
  replace h := Heap.nearest_of_find? h
  induction h with
  | here bound =>
    obtain ⟨f, hframe, hfound⟩ := Heap.binding?_eq_some.1 bound
    exact ⟨hlive, (hm.frames _ f hlive hframe).bindings _ (Entries.mem_of_get? hfound)⟩
  | outward _ around _ ih =>
    obtain ⟨f, hframe, hparent⟩ := Option.bind_eq_some_iff.1 around
    exact ih ((hm.frames _ f hlive hframe).parent _ hparent)

/-- Binding a value that may be computed keeps the frames sound. -/
theorem Good.defined {m : Machine} (hm : C.Good m) {frame : Nat} {name : String} {value : Value}
    (hvalue : C.Holds m.heap.size value) (hmachine : C.machine (m.defined frame name value)) :
    C.Good (m.defined frame name value) := by
  have hsize : (m.defined frame name value).heap.size = m.heap.size := Heap.size_define _ _ _ _
  refine ⟨hmachine, ?_, ?_⟩
  · rw [hsize]
    exact hm.scope
  · intro i f hlive hf
    rw [hsize] at hlive ⊢
    rw [Machine.defined, Heap.getElem?_define] at hf
    split at hf
    · obtain ⟨old, hold, rfl⟩ := Option.map_eq_some_iff.1 hf
      have hsound := hm.frames i old hlive hold
      exact ⟨hsound.parent, Entries.forall_put hvalue hsound.bindings⟩
    · exact hm.frames i f hlive hf

/-- A new frame whose bindings may be computed is sound. -/
theorem Lawful.good_entered (hC : C.Lawful setup) {m : Machine} (hm : C.Good m) {parent : Nat}
    (hparent : C.live m.heap.size parent) {bindings : Entries String Value}
    (hbindings : ∀ binding ∈ bindings, C.Holds m.heap.size binding.2) :
    C.Good (m.entered parent bindings) := by
  have hsize : (m.entered parent bindings).heap.size = m.heap.size + 1 := Heap.size_alloc _ _ _
  have hle : m.heap.size ≤ m.heap.size + 1 := Nat.le_succ _
  refine ⟨hC.enter bindings hm.machine hparent, ?_, ?_⟩
  · rw [hsize]
    exact hC.live_new hm.machine
  · intro i f hlive hf
    rw [hsize] at hlive ⊢
    rw [Machine.entered, Heap.getElem?_alloc] at hf
    split at hf
    · cases hf
      refine ⟨fun p hp => ?_, fun b hb => hC.holds_mono hle (hbindings b hb)⟩
      cases hp
      exact hC.live_mono hle hparent
    · have hi : i < m.heap.size := (Array.getElem?_eq_some_iff.1 hf).1
      exact hC.sound_mono hle (hm.frames i f (hC.live_old hi hle hlive) hf)

end Contract

-- ==================================================== computations

/-- However `x` ends on a machine, it gets to a good machine by `R`, with a
result that `Q` holds of or with a fault that may be. -/
def Run.Meets (C : Contract) (R : Machine → Machine → Prop) (m : Machine) (x : Run α)
    (Q : Nat → α → Prop) : Prop :=
  match x m with
  | .done a m' => C.Step R m m' ∧ Q m'.heap.size a
  | .failed fault m' => C.Step R m m' ∧ C.fault fault
  | .exhausted => True

namespace Run

variable {R R' : Machine → Machine → Prop} {Q : Nat → α → Prop} {Q' : Nat → β → Prop} {m : Machine}

/-- What a contract promises of a run that is done. -/
theorem Meets.done {x : Run α} (h : Meets C R m x Q) {a : α} {m' : Machine}
    (hx : x m = .done a m') : C.Step R m m' ∧ Q m'.heap.size a := by
  rw [Meets, hx] at h
  exact h

/-- What a contract promises of a run that fails: the machine it leaves behind is as good
as if the run had gone on. -/
theorem Meets.failed {x : Run α} (h : Meets C R m x Q) {fault : Fault} {m' : Machine}
    (hx : x m = .failed fault m') : C.Step R m m' ∧ C.fault fault := by
  rw [Meets, hx] at h
  exact h

/-- A contract may be met in a stronger sense than is asked for. This is how what an
expression meets, which binds no name, counts for a statement. -/
theorem Meets.mono {x : Run α} {P : Nat → α → Prop} (h : Meets C R m x P)
    (hR : ∀ {m m'}, R m m' → R' m m') (hQ : ∀ n a, P n a → Q n a) : Meets C R' m x Q := by
  unfold Meets at h ⊢
  cases hx : x m with
  | exhausted => trivial
  | done a m' =>
    rw [hx] at h
    exact ⟨⟨h.1.good, h.1.grown, hR h.1.moved⟩, hQ _ a h.2⟩
  | failed fault m' =>
    rw [hx] at h
    exact ⟨⟨h.1.good, h.1.grown, hR h.1.moved⟩, h.2⟩

theorem Meets.pure (hm : C.Good m) (hR : R m m) {a : α} (ha : Q m.heap.size a) :
    Meets C R m (Pure.pure a) Q :=
  ⟨⟨hm, Nat.le_refl _, hR⟩, ha⟩

theorem Meets.fault (hm : C.Good m) (hR : R m m) {cause : Cause} {pos : Position}
    (hfault : C.fault ⟨cause, pos⟩) : Meets C R m (Run.fault cause pos) Q :=
  ⟨⟨hm, Nat.le_refl _, hR⟩, hfault⟩

/-- Two runs in a row. The rest may start from what the first part has established of the
machine it leaves. -/
theorem Meets.bind {x : Run α} {k : α → Run β} (hx : Meets C R m x Q)
    (htrans : ∀ {m m' m''}, R m m' → R m' m'' → R m m'')
    (hk : ∀ a m', C.Step R m m' → Q m'.heap.size a → Meets C R m' (k a) Q') :
    Meets C R m (x >>= k) Q' := by
  unfold Meets
  cases hxm : x m with
  | exhausted =>
    rw [bind_of_exhausted hxm]
    trivial
  | failed fault m' =>
    rw [bind_of_failed hxm]
    exact hx.failed hxm
  | done a m' =>
    obtain ⟨hfirst, ha⟩ := hx.done hxm
    have hsecond := hk a m' hfirst ha
    have hchain {m'' : Machine} (h : C.Step R m' m'') : C.Step R m m'' :=
      ⟨h.good, Nat.le_trans hfirst.grown h.grown, htrans hfirst.moved h.moved⟩
    rw [bind_of_done hxm]
    cases hkm : k a m' with
    | exhausted => trivial
    | done b m'' => exact ⟨hchain (hsecond.done hkm).1, (hsecond.done hkm).2⟩
    | failed fault m'' => exact ⟨hchain (hsecond.failed hkm).1, (hsecond.failed hkm).2⟩

variable (hC : C.Lawful setup)

include hC

/-- An answer of an operation on values changes nothing, so only its value or its fault is
to be judged. -/
theorem Meets.ofExcept (hm : C.Good m) {result : Except Fault α}
    (h : AnswersAt C.PlainAt (Q m.heap.size) result) :
    Meets C C.within m (Run.ofExcept result) Q := by
  cases result with
  | ok a => exact ⟨⟨hm, Nat.le_refl _, hC.refl m⟩, h⟩
  | error fault => exact ⟨⟨hm, Nat.le_refl _, hC.refl m⟩, h.2 _ h.1⟩

theorem Meets.at (hm : C.Good m) {pos : Position} (hpos : C.PlainAt pos)
    {result : Except Cause α} (h : Answers (Q m.heap.size) result) :
    Meets C C.within m (Run.at pos result) Q :=
  .ofExcept hC hm (h.at hpos)

-- ========================================================== scopes

/-- Reading a name gives a value that some frame already holds. -/
theorem get_meets (hm : C.Good m) {pos : Position} (hpos : C.PlainAt pos) (name : String) :
    Meets C C.within m (Run.get pos name) C.Holds := by
  refine Meets.at hC hm hpos ?_
  unfold Heap.get
  cases hfound : m.heap.find? m.scope name with
  | none => rfl
  | some found => exact (hm.find? hm.scope hfound).2

/-- Binding a name changes the current frame, hence `across` and not `within`. -/
theorem define_meets (hm : C.Good m) (name : String) {value : Value}
    (hvalue : C.Holds m.heap.size value) :
    Meets C C.across m (Run.define name value) fun _ _ => True := by
  obtain ⟨hmachine, hmoved⟩ := hC.define name value hm.machine
  exact ⟨⟨hm.defined hvalue hmachine, Nat.le_of_eq (Heap.size_define _ _ _ _).symm, hmoved⟩, trivial⟩

/-- Writing to a name changes no frame's names, so it may happen inside an expression. -/
theorem assign_meets (hm : C.Good m) {pos : Position} (hpos : C.PlainAt pos) (name : String)
    {value : Value} (hvalue : C.Holds m.heap.size value) :
    Meets C C.within m (Run.assign pos name value) fun _ _ => True := by
  unfold Meets Run.assign
  dsimp only
  cases hfound : m.heap.find? m.scope name with
  | none => exact ⟨⟨hm, Nat.le_refl _, hC.refl m⟩, hpos _ rfl⟩
  | some found =>
    obtain ⟨hmachine, hmoved⟩ := hC.assign value hm.machine hfound
    exact ⟨⟨hm.defined hvalue hmachine, Nat.le_of_eq (Heap.size_define _ _ _ _).symm, hmoved⟩,
      trivial⟩

/-- What statements do in a frame of their own is no more than an expression may
do. -/
theorem inFrame_meets (hm : C.Good m) {parent : Nat} {bindings : Entries String Value}
    {x : Run α} (h : Meets C C.across (m.entered parent bindings) x Q) :
    Meets C C.within m (Run.inFrame parent bindings x) Q := by
  have hleft {m' : Machine} (h : C.Step C.across (m.entered parent bindings) m') :
      C.Step C.within m { m' with scope := m.scope } := by
    have hgrown : m.heap.size ≤ m'.heap.size := by
      have hgrown := h.grown
      rw [show (m.entered parent bindings).heap.size = m.heap.size + 1 from
        Heap.size_alloc _ _ _] at hgrown
      omega
    obtain ⟨hmachine, hmoved⟩ := hC.leave hm.machine h.moved h.good.machine
    exact ⟨⟨hmachine, hC.live_mono hgrown hm.scope, h.good.frames⟩, hgrown, hmoved⟩
  unfold Meets
  rw [inFrame_eq]
  cases hx : x (m.entered parent bindings) with
  | exhausted => trivial
  | done a m' => exact ⟨hleft (h.done hx).1, (h.done hx).2⟩
  | failed fault m' => exact ⟨hleft (h.failed hx).1, (h.failed hx).2⟩

/-- A call is good if its body is: the level is restored, and nothing else of the machine
is touched. -/
theorem inCall_meets (hm : C.Good m) {x : Run α} (h : Meets C C.within m.called x Q) :
    Meets C C.within m (Run.inCall x) Q := by
  have hleft {m' : Machine} (h : C.Step C.within m.called m') :
      C.Step C.within m { m' with depth := m'.depth - 1 } := by
    obtain ⟨hmachine, hmoved⟩ := hC.return_ hm.machine h.moved h.good.machine
    exact ⟨⟨hmachine, h.good.scope, h.good.frames⟩, h.grown, hmoved⟩
  unfold Meets
  rw [inCall_eq]
  cases hx : x m.called with
  | exhausted => trivial
  | done a m' => exact ⟨hleft (h.done hx).1, (h.done hx).2⟩
  | failed fault m' => exact ⟨hleft (h.failed hx).1, (h.failed hx).2⟩

-- ======================================================= functions

/-- A function that is made points at the current frame, which counts because the machine
is good. -/
theorem closure_meets (hm : C.Good m) {code : Code} (hcode : code.Every C.tree) :
    Meets C C.within m (Run.closure code) C.Holds := by
  obtain ⟨hmachine, hmoved⟩ := hC.make hm.machine
  exact ⟨⟨⟨hmachine, hm.scope, hm.frames⟩, Nat.le_refl _, hmoved⟩,
    Value.every_function.2 ⟨hcode, hm.scope⟩⟩

/-- What a routine of the host answers is good because the contract demands it of the
host. -/
theorem native_meets (hm : C.Good m) (native : Native) {args : List Value}
    (hargs : ∀ v ∈ args, C.Holds m.heap.size v) {pos : Position} (hpos : C.PlainAt pos) :
    Meets C C.within m (Run.native setup.host native args pos) C.Holds := by
  have hanswer := Native.call_answers (hC.host m.heap.size) native hargs m.transcript
  unfold Meets Run.native
  dsimp only
  generalize native.call setup.host args m.transcript = answer at hanswer ⊢
  obtain ⟨result, written⟩ := answer
  obtain ⟨hmachine, hmoved⟩ := hC.write written hm.machine
  cases result with
  | ok v => exact ⟨⟨⟨hmachine, hm.scope, hm.frames⟩, Nat.le_refl _, hmoved⟩, hanswer⟩
  | error cause =>
    exact ⟨⟨⟨hmachine, hm.scope, hm.frames⟩, Nat.le_refl _, hmoved⟩, hpos cause hanswer⟩

end Run

end Scriptlet
