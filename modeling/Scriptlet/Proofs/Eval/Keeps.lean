/-
What every evaluation keeps, of whatever program and on whatever machine. A
relation between the machine before and after holds of every run once it holds of
the few moves that change the machine (`Run.Kept`). This is the part of the
contracts that asks nothing of trees, frames and faults, so it has no hypotheses
about where a run starts.

# Scope and depth

The first such relation is that the current frame and the number of open calls
are after a computation what they were before it (`Machine.Level`), whether it
succeeded or met a fault.
-/
import Scriptlet.Proofs.Eval.Meets

namespace Scriptlet

variable {α : Type} {R within across : Machine → Machine → Prop}

/-- However `x` ends, the machine before and after it stand in the relation. -/
def Run.Keeps (R : Machine → Machine → Prop) (x : Run α) : Prop :=
  ∀ m, match x m with
    | .done _ m' => R m m'
    | .failed _ m' => R m m'
    | .exhausted => True

/-- Relations that every move of the machine keeps: `within` all but those that
bind a name in the current frame, `across` these too. -/
structure Run.Kept (within across : Machine → Machine → Prop) : Prop where
  refl : ∀ m, within m m
  trans : ∀ {m m' m''}, within m m' → within m' m'' → within m m''
  widen : ∀ {m m'}, within m m' → across m m'
  trans' : ∀ {m m' m''}, across m m' → across m' m'' → across m m''
  define : ∀ m name value, across m (m.defined m.scope name value)
  assign : ∀ {m name owner old} value, m.heap.find? m.scope name = some (owner, old) →
    within m (m.defined owner name value)
  leave : ∀ {m parent bindings m'}, across (m.entered parent bindings) m' →
    within m { m' with scope := m.scope }
  return_ : ∀ {m m'}, within m.called m' → within m { m' with depth := m'.depth - 1 }
  make : ∀ m, within m { m with fresh := m.fresh + 1 }
  write : ∀ m transcript, within m { m with transcript }

/-- The contract that asks for these relations and for nothing else. -/
def Contract.free (within across : Machine → Machine → Prop) : Contract := { within, across }

namespace Run.Kept

/-- A contract that asks nothing of values is met by all of them. -/
theorem holds (frames : Nat) (v : Value) : (Contract.free within across).Holds frames v :=
  fun f _ => ⟨Tree.every_any.ofCode f.code, trivial⟩

/-- What is kept by the moves of the machine is all that such a contract asks for. -/
theorem lawful (h : Kept within across) (setup : Setup) :
    (Contract.free within across).Lawful setup where
  refl := h.refl
  trans := h.trans
  widen := h.widen
  trans' := h.trans'
  live_mono _ _ := trivial
  live_old _ _ _ := trivial
  live_new _ := trivial
  define name value _ := ⟨trivial, h.define _ name value⟩
  assign value _ hfound := ⟨trivial, h.assign value hfound⟩
  enter _ _ _ := trivial
  leave _ hmoved _ := ⟨trivial, h.leave hmoved⟩
  call _ _ := trivial
  return_ _ hmoved _ := ⟨trivial, h.return_ hmoved⟩
  make _ := ⟨trivial, h.make _⟩
  write transcript _ := ⟨trivial, h.write _ transcript⟩
  host frames _ _ _ _ _ v _ := holds frames v
  plain _ _ _ := trivial
  compound _ _ _ := trivial
  target _ _ _ := trivial
  escape _ _ _ _ := trivial

/-- Every machine is good enough. -/
theorem good (m : Machine) : (Contract.free within across).Good m :=
  ⟨trivial, trivial, fun _ _ _ _ => ⟨fun _ _ => trivial, fun binding _ => holds _ binding.2⟩⟩

end Run.Kept

/-- What a computation that meets the contract keeps. -/
theorem Run.Meets.keeps {m : Machine} {x : Run α} {Q : Nat → α → Prop}
    (h : Meets (Contract.free within across) R m x Q) :
    match x m with
    | .done _ m' => R m m'
    | .failed _ m' => R m m'
    | .exhausted => True := by
  cases hx : x m with
  | exhausted => trivial
  | done a m' => exact (h.done hx).1.moved
  | failed fault m' => exact (h.failed hx).1.moved

variable (hR : Run.Kept within across) (setup : Setup) (budget : Nat)

include hR

/-- So an expression keeps what the moves inside it keep. -/
theorem Expr.eval_keeps (e : Expr) : Run.Keeps within (Expr.eval setup budget e) := fun m =>
  ((Eval.meets (hR.lawful setup) budget).expr (Tree.every_any.ofExpr e) (Run.Kept.good m)).keeps

/-- A statement that declares nothing keeps what expressions keep. -/
theorem Stmt.exec_keeps {s : Stmt} (hs : s.declares? = none) :
    Run.Keeps within (Stmt.exec setup budget s) := by
  intro m
  have hmeets := (Eval.meets (hR.lawful setup) budget).stmt (Tree.every_any.ofStmt s)
    (Run.Kept.good m)
  rw [Contract.through, hs] at hmeets
  exact hmeets.keeps

/-- A program keeps what statements in a row do. -/
theorem Program.results_keeps (program : Program) (last : Value) :
    Run.Keeps across (Program.results (Stmt.exec setup budget) program last) := fun m =>
  (Program.results_meets (hR.lawful setup) (Eval.meets (hR.lawful setup) budget).stmt
    (fun s _ => Tree.every_any.ofStmt s) (fun _ _ _ _ => trivial) (Run.Kept.good m)
    (Run.Kept.holds _ last)).keeps

omit hR

-- ================================================= scope and depth

/-- The current frame and the number of open calls are the same. -/
def Machine.Level (m m' : Machine) : Prop := m'.scope = m.scope ∧ m'.depth = m.depth

theorem Machine.Level.refl (m : Machine) : m.Level m := ⟨rfl, rfl⟩

/-- A level that is given back twice is given back. -/
theorem Machine.Level.trans {m m' m'' : Machine} (h : m.Level m') (h' : m'.Level m'') :
    m.Level m'' :=
  ⟨h'.1.trans h.1, h'.2.trans h.2⟩

/-- Leaving a frame comes back to the frame before. -/
theorem Machine.Level.leave {m m' : Machine} {parent : Nat} {bindings : Entries String Value}
    (h : (m.entered parent bindings).Level m') : m.Level { m' with scope := m.scope } :=
  ⟨rfl, h.2⟩

/-- Returning from a call comes back to the depth before. -/
theorem Machine.Level.return_ {m m' : Machine} (h : m.called.Level m') :
    m.Level { m' with depth := m'.depth - 1 } := by
  refine ⟨h.1, ?_⟩
  show m'.depth - 1 = m.depth
  rw [h.2]
  rfl

/-- Every frame and every call that is entered is left again. -/
theorem Machine.level_kept : Run.Kept Machine.Level Machine.Level where
  refl := .refl
  trans := .trans
  widen := id
  trans' := .trans
  define _ _ _ := ⟨rfl, rfl⟩
  assign _ _ := ⟨rfl, rfl⟩
  leave := .leave
  return_ := .return_
  make _ := ⟨rfl, rfl⟩
  write _ _ := ⟨rfl, rfl⟩

end Scriptlet
