/-
The functions that a state holds. A function is stored if it stands in a value
that some frame binds, and the frame can be come to from the outermost one: as the
frame around a frame, or as the frame of a function that is stored itself. A run
calls no other functions than these, those that it makes and those that the host
lends it. So a condition on trees that all of them meet holds of every function
that ever runs, and of all that are stored in the end.

# Frames that nothing leads to

The heap keeps every frame, also those that nothing leads to any more. What such a
frame binds has no part in any run, and nothing is asked of it: the frames that
count (`Heap.Accessible`) are the ones that can be come to at the start, and the
ones that are made later.
-/
import Scriptlet.Proofs.Eval.Rest

namespace Scriptlet

-- ==================================================== reachability

/-- The frames that can be come to from the outermost one. -/
inductive Heap.Reaches (heap : Heap) : Nat → Prop where
  | root : Reaches heap Machine.root
  | parent {i parent : Nat} (inner : Reaches heap i) (around : heap.parent i = some parent) :
      Reaches heap parent
  | captured {i : Nat} {frame : Frame} {binding : String × Value} {f : Closure}
      (binder : Reaches heap i) (there : heap[i]? = some frame)
      (bound : binding ∈ frame.bindings) (inside : f ∈ binding.2.functions) :
      Reaches heap f.frame

/-- The frames that a run from this heap can come to. -/
def Heap.Accessible (heap : Heap) (frame : Nat) : Prop := heap.Reaches frame ∨ heap.size ≤ frame

/-- A function that is bound, alone or inside a value, in a frame that can be come
to. -/
def Machine.Stores (m : Machine) (f : Closure) : Prop :=
  ∃ i frame, m.heap.Reaches i ∧ m.heap[i]? = some frame
    ∧ ∃ binding ∈ frame.bindings, f ∈ binding.2.functions

/-- All functions that are bound in any frame, alone or inside a value, meet a condition,
whether the frame can be come to or not. -/
def Machine.Binds (p : Closure → Prop) (m : Machine) : Prop :=
  ∀ (i : Nat) (frame : Frame), m.heap[i]? = some frame → ∀ binding ∈ frame.bindings,
    binding.2.Every p

/-- All functions that are stored have code whose nodes meet a rule. -/
def Machine.Holds (r : Tree.Rule) (m : Machine) : Prop := ∀ f, m.Stores f → f.code.Every r

/-- All functions that evaluations may meet have code whose nodes meet a rule: those
that are stored, and those that the host lends. -/
structure Interpreter.Holds (r : Tree.Rule) (i : Interpreter) : Prop where
  stored : i.machine.Holds r
  lent : i.setup.host.Lends fun f => f.code.Every r ∧ i.machine.heap.Accessible f.frame

-- ======================================================== contract

/-- The contract that follows the functions of a machine: what they are made of
meets the rule. -/
def Contract.stored (r : Tree.Rule) (fault : Fault → Prop) (start : Heap) : Contract where
  tree := r
  live _ i := start.Accessible i
  machine m := start.size ≤ m.heap.size
  within := Machine.Level
  across := Machine.Level
  fault := fault

namespace Contract

variable {r : Tree.Rule} {fault : Fault → Prop} {start : Heap} {setup : Setup} {m : Machine}

/-- A stored contract judges functions by their code and by the frame they point at. -/
theorem stored_admits (frames : Nat) (f : Closure) :
    (stored r fault start).Admits frames f ↔ f.code.Every r ∧ start.Accessible f.frame :=
  ⟨fun ⟨code, frame⟩ => ⟨code, frame⟩, fun ⟨code, frame⟩ => ⟨code, frame⟩⟩

/-- The contract is lawful if the faults it permits are those that the rule leaves
possible. -/
theorem stored_lawful_of
    (hlent : setup.host.Lends fun f => f.code.Every r ∧ start.Accessible f.frame)
    (hplain : ∀ e, r.expr e → (stored r fault start).PlainAt e.pos)
    (hcompound : ∀ pos target op value, r.stmt (.assign pos target op value) →
      (stored r fault start).PlainAt pos)
    (htarget : ∀ e, r.expr e → fault ⟨.invalidTarget, e.pos⟩)
    (hescape : ∀ pos callee args code signal, r.expr (.call pos callee args) → r.code code →
      signal ≠ .return_ → Stmt.leaksIn signal code.body = true → fault ⟨.uncaught signal, pos⟩) :
    (stored r fault start).Lawful setup where
  refl := .refl
  trans := .trans
  widen := id
  trans' := .trans
  live_mono _ h := h
  live_old _ _ h := h
  live_new hm := .inr hm
  define _ _ hm := ⟨Nat.le_trans hm (Nat.le_of_eq (Heap.size_define _ _ _ _).symm), rfl, rfl⟩
  assign _ hm _ := ⟨Nat.le_trans hm (Nat.le_of_eq (Heap.size_define _ _ _ _).symm), rfl, rfl⟩
  enter _ hm _ := Nat.le_trans hm (Nat.le_of_lt (Nat.lt_of_lt_of_eq (Nat.lt_succ_self _)
    (Heap.size_alloc _ _ _).symm))
  leave _ hmoved hm' := ⟨hm', .leave hmoved⟩
  call hm _ := hm
  return_ _ hmoved hm' := ⟨hm', .return_ hmoved⟩
  make hm := ⟨hm, rfl, rfl⟩
  write _ hm := ⟨hm, rfl, rfl⟩
  host frames := by
    have hadmits : (stored r fault start).Admits frames
        = fun f => f.code.Every r ∧ start.Accessible f.frame :=
      funext fun f => propext (stored_admits frames f)
    rw [hadmits]
    exact hlent
  plain he := hplain _ he
  compound hs := hcompound _ _ _ _ hs
  target _ _ he := htarget _ he
  escape he hf hsignal hleaks := hescape _ _ _ _ _ he hf.code.here hsignal hleaks

/-- The contract is lawful if the rule excludes every fault that it does not
permit. -/
theorem stored_lawful
    (hlent : setup.host.Lends fun f => f.code.Every r ∧ start.Accessible f.frame)
    (hfault : ∀ fault' : Fault, (∀ signal, fault'.cause ≠ .uncaught signal) → fault fault')
    (hescape : ∀ code signal pos, r.code code → signal ≠ .return_ →
      Stmt.leaksIn signal code.body = true → fault ⟨.uncaught signal, pos⟩) :
    (stored r fault start).Lawful setup := by
  have hplain : ∀ pos, (stored r fault start).PlainAt pos := fun pos cause hplain =>
    hfault _ fun signal heq => by
      rw [show cause = _ from heq] at hplain
      cases hplain
  refine stored_lawful_of hlent (fun e _ => hplain e.pos) (fun pos _ _ _ _ => hplain pos)
    (fun _ _ => hfault _ nofun) ?_
  intro pos _ _ code signal _ hcode hsignal hleaks
  exact hescape code signal pos hcode hsignal hleaks

/-- A machine in the outermost frame is good if what it stores is. -/
theorem stored_good (hm : m.Holds r) (hscope : m.scope = Machine.root) :
    (stored r fault m.heap).Good m := by
  refine ⟨Nat.le_refl _, .inl (hscope ▸ .root), fun i frame hlive hframe => ?_⟩
  have hreaches : m.heap.Reaches i := by
    refine hlive.resolve_right fun hout => ?_
    rw [Array.getElem?_eq_none hout] at hframe
    cases hframe
  refine ⟨fun parent hparent => .inl (.parent hreaches ?_), fun binding hbinding f hf => ?_⟩
  · rw [Heap.parent, hframe]
    exact hparent
  · exact (stored_admits _ _).2
      ⟨hm f ⟨i, frame, hreaches, hframe, binding, hbinding, hf⟩,
        .inl (.captured hreaches hframe hbinding hf)⟩

/-- What a good machine stores meets the rule. -/
theorem Good.holds (hm : (stored r fault start).Good m) : m.Holds r := by
  have hlive : ∀ i, m.heap.Reaches i → start.Accessible i := by
    intro i hi
    induction hi with
    | root => exact .inl .root
    | @parent i parent _ around ih =>
      unfold Heap.parent at around
      obtain ⟨frame, hframe, hparent⟩ := Option.bind_eq_some_iff.1 around
      exact (hm.frames i frame ih hframe).parent parent hparent
    | captured _ there bound inside ih =>
      exact ((hm.frames _ _ ih there).bindings _ bound _ inside).frame
  rintro f ⟨i, frame, hi, hframe, binding, hbinding, hf⟩
  exact ((hm.frames i frame (hlive i hi) hframe).bindings binding hbinding f hf).code

end Contract

-- ===================================================== evaluations

/-- All that a host binds of its own are its routines, each under its name. -/
theorem Host.mem_bindings {host : Host} {row : Nat} {bound : Entries String Value}
    {binding : String × Value} (h : binding ∈ host.bindings row bound) :
    (∃ f : Native, binding = (f.name, .native f) ∧ f.name ∈ host.map Routine.name)
      ∨ binding ∈ bound := by
  induction host generalizing row bound with
  | nil => exact .inr h
  | cons routine rest ih =>
    rcases ih h with ⟨f, heq, hname⟩ | hbound
    · exact .inl ⟨f, heq, List.mem_cons_of_mem _ hname⟩
    · refine (Entries.mem_put hbound).imp_left fun heq => ?_
      exact ⟨⟨row, routine.name, routine.arity⟩, heq, List.mem_cons_self⟩

namespace Interpreter

variable {r : Tree.Rule}

/-- The one frame of a fresh interpreter binds what its host does. -/
theorem start_bindings {host : Host} {maxDepth : Nat} {layout : Layout} {i : Nat} {frame : Frame}
    (h : (start host maxDepth layout).machine.heap[i]? = some frame) :
    frame.bindings = host.bindings 0 [] := by
  have hzero : i = 0 := Nat.lt_one_iff.1 (Array.getElem?_eq_some_iff.1 h).1
  subst hzero
  cases h
  rfl

/-- A fresh interpreter holds no functions at all. -/
theorem start_holds {host : Host} (hhost : ∀ p, host.Lends p) (maxDepth : Nat) (layout : Layout) :
    (start host maxDepth layout).Holds r := by
  refine ⟨?_, hhost _⟩
  rintro f ⟨i, frame, -, hframe, binding, hbinding, hf⟩
  rw [start_bindings hframe] at hbinding
  obtain ⟨g, rfl, -⟩ := (Host.mem_bindings hbinding).resolve_right List.not_mem_nil
  cases hf

/-- An evaluation of a program whose nodes meet the rule, in a state where all
functions do, leaves such a state, and its fault is one that the contract permits. -/
theorem evalProgram_holds_of {fault : Fault → Prop} {i : Interpreter} (hi : i.Holds r)
    (hC : (Contract.stored r fault i.machine.heap).Lawful i.setup)
    {program : Program} (hprogram : program.Every r)
    (huncaught : ∀ s ∈ program, ∀ signal, s.leaks signal = true →
      fault ⟨.uncaught signal, s.pos⟩) (budget : Nat) :
    match i.evalProgram budget program with
    | .done _ j => j.machine.Holds r
    | .failed failure j => j.machine.Holds r ∧ ∃ f, failure = .fault f ∧ fault f
    | .exhausted => True := by
  have hgood : (Contract.stored r fault i.machine.heap).Good i.atRest.machine :=
    Contract.stored_good (m := i.atRest.machine) hi.stored rfl
  have hlast : (Contract.stored r fault i.machine.heap).Holds i.machine.heap.size .nil :=
    Value.every_nil
  have hmeets := Program.results_meets hC (Eval.meets hC budget).stmt hprogram huncaught hgood hlast
  cases hrun : i.evalProgram budget program with
  | exhausted => trivial
  | done v j =>
    obtain ⟨m, hdone, rfl⟩ := evalProgram_eq_done.1 hrun
    exact (hmeets.done hdone).1.good.holds
  | failed failure j =>
    obtain ⟨f, m, hfailed, rfl, rfl⟩ := evalProgram_eq_failed.1 hrun
    exact ⟨(hmeets.failed hfailed).1.good.holds, f, rfl, (hmeets.failed hfailed).2⟩

/-- An evaluation of a program whose nodes meet the rule, in a state where all
functions do, leaves such a state, and its fault is one that is permitted. -/
theorem evalProgram_holds (fault : Fault → Prop) {i : Interpreter} (hi : i.Holds r)
    (hfault : ∀ fault' : Fault, (∀ signal, fault'.cause ≠ .uncaught signal) → fault fault')
    (hescape : ∀ code signal pos, r.code code → signal ≠ .return_ →
      Stmt.leaksIn signal code.body = true → fault ⟨.uncaught signal, pos⟩)
    {program : Program} (hprogram : program.Every r)
    (huncaught : ∀ s ∈ program, ∀ signal, s.leaks signal = true →
      fault ⟨.uncaught signal, s.pos⟩) (budget : Nat) :
    match i.evalProgram budget program with
    | .done _ j => j.machine.Holds r
    | .failed failure j => j.machine.Holds r ∧ ∃ f, failure = .fault f ∧ fault f
    | .exhausted => True :=
  evalProgram_holds_of hi (Contract.stored_lawful hi.lent hfault hescape) hprogram huncaught budget

end Interpreter

end Scriptlet
