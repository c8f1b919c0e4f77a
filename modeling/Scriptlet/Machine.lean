/-
The machine that runs scripts: its state, and how computations on it end. A
computation gives a value, or meets a fault, and either way leaves the machine
in some state; or it uses up its budget, and then it has no result at all.
-/
import Scriptlet.Heap
import Scriptlet.Host
import Scriptlet.Value.Path

namespace Scriptlet

/-- How a computation ends: with a result or an error, in a state, or not
within its budget. -/
inductive Outcome (σ ε α : Type) where
  | done (result : α) (state : σ)
  | failed (error : ε) (state : σ)
  | exhausted

/-- The machine: all frames, the frame that statements run in, how many calls of
script functions are open, the identity of the next function to be made, and
what has been written. -/
structure Machine where
  heap : Heap
  scope : Nat
  depth : Nat
  fresh : Nat
  transcript : Transcript

/-- The number of the outermost frame. -/
def Machine.root : Nat := 0

/-- A machine with only the outermost frame, which holds the given bindings. -/
def Machine.start (bindings : Entries String Value) : Machine :=
  { heap := #[⟨none, bindings⟩], scope := root, depth := 0, fresh := 0, transcript := {} }

/-- A computation on the machine. -/
def Run (α : Type) := Machine → Outcome Machine Fault α

namespace Run

/-- Gives a value and changes nothing. -/
@[inline] def pure {α : Type} (a : α) : Run α := fun m => .done a m

/-- Goes on with the value of a computation, unless it fails. -/
@[inline] def bind {α β : Type} (x : Run α) (f : α → Run β) : Run β := fun m =>
  match x m with
  | .done a m => f a m
  | .failed fault m => .failed fault m
  | .exhausted => .exhausted

instance : Monad Run where
  pure := Run.pure
  bind := Run.bind

/-- Stops with a fault. -/
@[inline] def fault {α : Type} (cause : Cause) (pos : Position) : Run α := fun m =>
  .failed ⟨cause, pos⟩ m

/-- Uses up the budget. -/
@[inline] def exhausted {α : Type} : Run α := fun _ => .exhausted

/-- Takes over a result, or stops with its fault. -/
@[inline] def ofExcept {α : Type} (result : Except Fault α) : Run α := fun m =>
  match result with
  | .ok a => .done a m
  | .error fault => .failed fault m

/-- Takes over a result, or stops with its cause at `pos`. -/
@[inline] def «at» {α : Type} (pos : Position) (result : Except Cause α) : Run α :=
  ofExcept (Fault.at pos result)

-- ========================================================== scopes

/-- What a name means here. -/
def get (pos : Position) (name : String) : Run Value := fun m =>
  Run.at pos (m.heap.get m.scope name) m

/-- Binds a name in the current frame. -/
def define (name : String) (value : Value) : Run Unit := fun ⟨heap, scope, depth, fresh, t⟩ =>
  .done () ⟨heap.define scope name value, scope, depth, fresh, t⟩

/-- Changes what a name means here. -/
def assign (pos : Position) (name : String) (value : Value) : Run Unit :=
  fun ⟨heap, scope, depth, fresh, t⟩ =>
    match heap.find? scope name with
    | some (owner, _) => .done () ⟨heap.define owner name value, scope, depth, fresh, t⟩
    | none => .failed ⟨.undefined name, pos⟩ ⟨heap, scope, depth, fresh, t⟩

/-- Runs `body` in a new frame inside `parent`, and returns to the frame before,
however `body` ends. -/
@[inline] def inFrame {α : Type} (parent : Nat) (bindings : Entries String Value)
    (body : Run α) : Run α := fun ⟨heap, scope, depth, fresh, t⟩ =>
  let frame := heap.size
  match body ⟨heap.alloc (some parent) bindings, frame, depth, fresh, t⟩ with
  | .done a ⟨heap, _, depth, fresh, t⟩ => .done a ⟨heap, scope, depth, fresh, t⟩
  | .failed fault ⟨heap, _, depth, fresh, t⟩ => .failed fault ⟨heap, scope, depth, fresh, t⟩
  | .exhausted => .exhausted

/-- Runs `body` in a new frame inside the current one. -/
@[inline] def inBlock {α : Type} (bindings : Entries String Value) (body : Run α) : Run α :=
  fun m => inFrame m.scope bindings body m

/-- Runs `body` one call deeper. -/
@[inline] def inCall {α : Type} (body : Run α) : Run α := fun ⟨heap, scope, depth, fresh, t⟩ =>
  match body ⟨heap, scope, depth + 1, fresh, t⟩ with
  | .done a ⟨heap, scope, depth, fresh, t⟩ => .done a ⟨heap, scope, depth - 1, fresh, t⟩
  | .failed fault ⟨heap, scope, depth, fresh, t⟩ => .failed fault ⟨heap, scope, depth - 1, fresh, t⟩
  | .exhausted => .exhausted

-- ======================================================= functions

/-- Makes a function of the current frame. -/
def closure (code : Code) : Run Value := fun ⟨heap, scope, depth, fresh, t⟩ =>
  .done (.function ⟨fresh, code, scope⟩) ⟨heap, scope, depth, fresh + 1, t⟩

/-- Calls a native function. -/
def native (host : Host) (f : Native) (args : List Value) (pos : Position) : Run Value :=
  fun ⟨heap, scope, depth, fresh, t⟩ =>
    match f.call host args t with
    | (.ok v, t) => .done v ⟨heap, scope, depth, fresh, t⟩
    | (.error cause, t) => .failed ⟨cause, pos⟩ ⟨heap, scope, depth, fresh, t⟩

end Run

end Scriptlet
