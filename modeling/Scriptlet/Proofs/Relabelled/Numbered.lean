/-
Functions are numbered as they are made. On a machine where every function that is bound has
got its identity from there (`Machine.Numbered`), the identities to come are those of no
function, so it makes no difference which they are: a run from a machine that has given out
more of them is the same run with the functions that it makes renumbered
(`Machine.Raises.run`).

# Runs keep the numbering

That a run keeps it is a consequence of the same theory. Take the renumbering that moves
every identity beyond those given out by the end. The run does not get to any of them, so it
is renumbered into itself; and what such a renumbering leaves alone has no function beyond.
-/
import Scriptlet.Proofs.Eval.Keeps
import Scriptlet.Proofs.Eval.Reach
import Scriptlet.Proofs.Relabelled.Eval

namespace Scriptlet

variable {α β : Type} {R : Relabelling} {g : α → β}

-- ====================================================== renumbering

/-- A value is left alone by a renumbering if and only if the identities in it are. -/
theorem Value.renumbered_eq_self_iff (hpos : R.pos = id) (v : Value) :
    v.relabelled R = v ↔ v.Every fun f => R.id f.id = f.id := by
  rw [Value.relabelled_eq_self_iff]
  refine forall₂_congr fun f _ => ?_
  obtain ⟨number, code, frame⟩ := f
  show Closure.mk (R.id number) (code.moved R.pos) frame = _ ↔ R.id number = number
  rw [hpos, Tree.moved_id.ofCode]
  exact ⟨congrArg Closure.id, congrArg (Closure.mk · code frame)⟩

/-- What a renumbering leaves alone binds only functions whose identities it leaves alone. -/
theorem Machine.heap_renumbered_eq_self_iff (hpos : R.pos = id) (m : Machine) :
    m.heap.relabelled R = m.heap ↔ m.Binds fun f => R.id f.id = f.id := by
  have hframe (frame : Frame) : frame.relabelled R = frame
      ↔ ∀ binding ∈ frame.bindings, binding.2.Every fun f => R.id f.id = f.id := by
    obtain ⟨parent, bindings⟩ := frame
    rw [Frame.relabelled, Frame.mk.injEq, and_iff_right rfl, Entries.mapValues, map_eq_self_iff]
    refine forall₂_congr fun binding _ => Iff.trans ?_ (Value.renumbered_eq_self_iff hpos binding.2)
    exact Prod.ext_iff.trans (and_iff_right rfl)
  constructor
  · intro h i frame hi
    have hsame := congrArg (·[i]?) h
    simp only [Heap.relabelled_getElem?, hi, Option.map_some, Option.some.injEq] at hsame
    exact (hframe frame).1 hsame
  · intro h
    apply Array.ext_getElem?
    intro i
    rw [Heap.relabelled_getElem?]
    cases hi : m.heap[i]? with
    | none => rfl
    | some frame => exact congrArg some ((hframe frame).2 (h i frame hi))

/-- The identities from some one on are raised, and those to come with them. -/
def Relabelling.raising (since gap : Nat) : Relabelling where
  pos pos := pos
  id i := if i < since then i else i + gap
  gap := gap
  injective i j h := by
    dsimp only at h
    split_ifs at h <;> omega

/-- The identities from some one on are raised, but not those to come. -/
def Relabelling.clearing (since : Nat) : Relabelling := { raising since 1 with gap := 0 }

/-- All identities from some number on are moved, so a machine is left alone just when all
its functions are below that number. -/
private theorem Machine.relabelled_clearing_iff (since : Nat) (m : Machine) :
    m.relabelled (.clearing since) = m ↔ m.Binds fun f => f.id < since := by
  have hheap : m.relabelled (.clearing since) = m
      ↔ m.heap.relabelled (.clearing since) = m.heap :=
    ⟨congrArg Machine.heap, fun h => congrArg (fun heap => { m with heap }) h⟩
  rw [hheap, Machine.heap_renumbered_eq_self_iff rfl]
  have hid (i : Nat) : (Relabelling.clearing since).id i = i ↔ i < since := by
    show (if i < since then i else i + 1) = i ↔ i < since
    split_ifs <;> omega
  simp only [hid]

-- ======================================================== numbering

/-- All functions that are bound have identities that have been given out. -/
def Machine.Numbered (m : Machine) : Prop := m.Binds fun f => f.id < m.fresh

/-- At the start there are no functions, only routines of the host. -/
theorem Machine.start_numbered (host : Host) : (Machine.start (host.bindings 0 [])).Numbered := by
  intro i frame hframe binding hbinding
  have hzero : i = 0 := Nat.lt_one_iff.1 (Array.getElem?_eq_some_iff.1 hframe).1
  subst hzero
  cases hframe
  obtain ⟨f, heq, -⟩ := (Host.mem_bindings hbinding).resolve_right List.not_mem_nil
  rw [heq]
  exact Value.every_native f

/-- What respects every renumbering keeps the numbering. -/
theorem Run.Relabels.numbered {x : Run α} (h : ∀ R, R.pos = id → ∃ g, Run.Relabels R g x x) :
    Run.Keeps (fun m m' => m.Numbered → m'.Numbered) x := by
  intro m
  have hend (m' : Machine) (hgiven : ∀ i, (x m).Given i ↔ i < m'.fresh) (hm : m.Numbered)
      (hfinal : ∀ R g, x m = (x m).relabelled R g → m' = m'.relabelled R) : m'.Numbered := by
    obtain ⟨g, hx⟩ := h (.clearing m'.fresh) rfl
    have hle : m.fresh ≤ m'.fresh :=
      Nat.le_of_not_lt fun hlt => Nat.lt_irrefl _ ((hgiven _).1 (hx.onward m m'.fresh hlt))
    have hself : m.relabelled (.clearing m'.fresh) = m :=
      (Machine.relabelled_clearing_iff _ m).2 fun i frame hi binding hb =>
        (hm i frame hi binding hb).mono fun f hf => Nat.lt_of_lt_of_le hf hle
    have hsame := hx.same m fun i _ hi => if_pos ((hgiven i).1 hi)
    rw [hself] at hsame
    exact (Machine.relabelled_clearing_iff _ m').1 (hfinal _ g hsame).symm
  cases hxm : x m with
  | exhausted => trivial
  | done a m' =>
    rw [hxm] at hend
    refine fun hm => hend m' (fun i => Iff.rfl) hm fun R g heq => ?_
    exact (Outcome.done.inj heq).2
  | failed fault m' =>
    rw [hxm] at hend
    refine fun hm => hend m' (fun i => Iff.rfl) hm fun R g heq => ?_
    exact (Outcome.failed.inj heq).2

/-- A host that does not look at which creations functions are. -/
def Host.Discreet (host : Host) : Prop := ∀ R : Relabelling, R.pos = id → host.Impartial R

/-- The prelude looks at no function at all, hence it is impartial to every
relabelling. -/
theorem Prelude.host_discreet : host.Discreet := fun R _ => host_impartial R

variable {setup : Setup}

/-- Evaluation respects renumberings, on the same program. -/
theorem Eval.renumbers (hpos : R.pos = id) (hhost : setup.host.Impartial R) (budget : Nat) :
    (∀ e, Run.Relabels R (Value.relabelled R) (Expr.eval setup budget e)
        (Expr.eval setup budget e))
      ∧ ∀ s, Run.Relabels R (Flow.relabelled R) (Stmt.exec setup budget s)
        (Stmt.exec setup budget s) := by
  have hrelabels := Eval.relabels hhost budget
  refine ⟨fun e => ?_, fun s => ?_⟩
  · have he := hrelabels.expr e
    rwa [hpos, Tree.moved_id.ofExpr] at he
  · have hs := hrelabels.stmt s
    rwa [hpos, Tree.moved_id.ofStmt] at hs

/-- Programs keep the numbering. -/
theorem Program.run_numbered (hhost : setup.host.Discreet) (budget : Nat) (program : Program) :
    Run.Keeps (fun m m' => m.Numbered → m'.Numbered) (program.run setup budget) := by
  refine Run.Relabels.numbered fun R hpos => ?_
  have hrun := Program.run_relabels (hhost R hpos) budget program
  rw [hpos, Program.moved_id] at hrun
  exact ⟨_, hrun⟩

-- ========================================================== raising

/-- The machine with so many more identities given out. -/
def Machine.raised (m : Machine) (gap : Nat) : Machine := { m with fresh := m.fresh + gap }

/-- So many more identities may be given out on a machine without a difference to any run: no
function that is bound has one of those to come, and the host does not look at them. -/
structure Machine.Raises (setup : Setup) (gap : Nat) (m : Machine) : Prop where
  fixed : ∀ since, m.fresh ≤ since → m.heap.relabelled (.raising since gap) = m.heap
  impartial : ∀ since, setup.host.Impartial (.raising since gap)

namespace Machine

variable {m : Machine} {gap : Nat}

/-- On a machine whose functions are all numbered, raising the numbers to come changes
nothing that is there. -/
theorem Numbered.raises (hm : m.Numbered) (hhost : setup.host.Discreet) (gap : Nat) :
    m.Raises setup gap := by
  refine ⟨fun since hsince => ?_, fun since => hhost _ rfl⟩
  refine (heap_renumbered_eq_self_iff rfl m).2 fun i frame hi binding hb => ?_
  exact (hm i frame hi binding hb).mono fun f hf => if_pos (Nat.lt_of_lt_of_le hf hsince)

private theorem value_relabelled_raising_zero (since : Nat) :
    Value.relabelled (.raising since 0) = id := by
  have hid (i : Nat) : (Relabelling.raising since 0).id i = i := ite_self i
  exact funext fun v => (Value.renumbered_eq_self_iff rfl v).2 fun f _ => hid f.id

/-- To raise nothing changes nothing. -/
theorem relabelled_raising_zero (since : Nat) (m : Machine) :
    m.relabelled (.raising since 0) = m := by
  have hid (i : Nat) : (Relabelling.raising since 0).id i = i := ite_self i
  have hheap := (heap_renumbered_eq_self_iff (R := .raising since 0) rfl m).2
    fun _ _ _ _ _ f _ => hid f.id
  exact congrArg (fun heap => { m with heap }) hheap

/-- Without a gap nothing is raised, whatever the machine holds. -/
theorem raises_zero (setup : Setup) (m : Machine) : m.Raises setup 0 := by
  refine ⟨fun since _ => congrArg heap (relabelled_raising_zero since m),
    fun since routine _ args transcript => ?_⟩
  rw [Routine.relabelledAnswer, value_relabelled_raising_zero, List.map_id, Except.map_id]
  rfl

theorem Raises.later (h : m.Raises setup gap) (more : Nat) : (m.raised more).Raises setup gap :=
  ⟨fun since hsince => h.fixed since (Nat.le_of_add_right_le hsince), h.impartial⟩

theorem Raises.relabelled_eq (h : m.Raises setup gap) :
    m.relabelled (.raising m.fresh gap) = m.raised gap :=
  congrArg (fun heap => { m with heap, fresh := m.fresh + gap }) (h.fixed _ (Nat.le_refl _))

/-- A run from there is the same run with the functions that it makes renumbered. -/
theorem Raises.run (h : m.Raises setup gap) {x : Run α} {y : Run β}
    (hx : Run.Relabels (.raising m.fresh gap) g x y) :
    y (m.raised gap) = (x m).relabelled (.raising m.fresh gap) g := by
  rw [← h.relabelled_eq]
  exact hx.same m fun i hi _ => if_neg (Nat.not_lt.2 hi)

end Machine

end Scriptlet
