/-
An assignment with an operator is its expansion: `T op= e` does what `T = T op e` does, if
the keys of `T` call nothing. The first evaluates the keys once and looks up what stands at
the place they give; the second evaluates them for the place, and then evaluates `T` again,
step by step from the name outwards. After that they do the same, and nothing that the right
side does to the target, or to the variables in its keys, comes between.

# Two ways to read a target

The second evaluation of the target takes key and look-up in turn, so a look-up may fail
before the later keys have been evaluated. `Eval.ends_of_place` compares the two orders on
one machine: keys that call nothing have no effect that a look-up could see, and that they
have all been evaluated before means that none of them fails or runs on.

# Functions in keys

What the keys do leave behind are identities, if they make functions. The second time they
make functions of their own, which as parts of keys are not looked at, and from there on the
two runs differ by a renumbering (`Eval.reread`, `Eval.combine_raised`). If the keys make no
function they do not differ at all.
-/
import Scriptlet.Proofs.Eval.Limit
import Scriptlet.Proofs.Eval.Quiet

namespace Scriptlet

variable {setup : Setup} {m m' : Machine}

-- ========================================================= reading

namespace Eval

variable {R : Relabelling} {still : Prop} {target : Expr} {budget gap : Nat} {p : Place}

/-- One step further is the item of what stands at a place. -/
theorem read_concat (m : Machine) (p : Place) (key : Value) (pos : Position) :
    read m { p with path := p.path ++ [(key, pos)] }
      = read m p >>= fun collection => Fault.at pos (collection.item key) := by
  have hload (root : Value) (path : Path) : root.load (path ++ [(key, pos)])
      = root.load path >>= fun collection => Fault.at pos (collection.item key) := by
    induction path generalizing root with
    | nil =>
      show (Fault.at pos (root.item key) >>= fun inner => inner.load []) = _
      cases h : Fault.at pos (root.item key) <;> simp [Value.load, bind, Except.bind, h]
    | cons step path ih =>
      show (Fault.at step.2 (root.item step.1) >>= fun inner =>
        inner.load (path ++ [(key, pos)])) = _
      simp only [ih, Value.load, bind_assoc]
  simp only [read, hload, bind_assoc]

/-- A target whose place has been found quietly is evaluated to what stands there, without
another effect. -/
theorem ends_of_place : ∀ {target : Expr} {p : Place} {m' : Machine},
    (∀ key ∈ target.keys, ∀ budget, Run.Quiet still (Expr.eval setup budget key)) →
    place (Expr.eval setup budget) target m = .done p m' →
    match read m p with
    | .ok old => Run.Ends (fun budget => Expr.eval setup budget target) m (.done old m')
    | .error fault => ∃ m'', m.Raised still m''
        ∧ Run.Ends (fun budget => Expr.eval setup budget target) m (.failed fault m'')
  | .name pos name, p, m', _, h => by
    cases h
    have hname : Run.Ends (fun budget => Expr.eval setup budget (.name pos name)) m
        (Run.ofExcept (Fault.at pos (m.heap.get m.scope name)) m) :=
      (Run.ends_const (x := Run.get pos name) (Run.ofExcept_ne_exhausted _ m)).next fun budget =>
        congrFun (Expr.eval_succ setup budget _) m
    unfold read
    cases hget : Fault.at pos (m.heap.get m.scope name) with
    | ok root =>
      rw [hget] at hname
      exact hname
    | error fault =>
      rw [hget] at hname
      exact ⟨m, .refl m, hname⟩
  | .index pos collection key, p, m', hquiet, h => by
    have hraised := (place_quiet (.index pos collection key) fun k hk => hquiet k hk budget).done h
    rw [Expr.keys_index, List.forall_mem_append] at hquiet
    obtain ⟨p₀, m₀, hfirst, h⟩ := Run.done_of_bind h
    obtain ⟨k, m₁, hkey, h⟩ := Run.done_of_bind h
    cases h
    have hcollection := ends_of_place hquiet.1 hfirst
    rw [read_concat]
    cases hread : read m p₀ with
    | error fault =>
      rw [hread] at hcollection
      obtain ⟨m'', hraised, hends⟩ := hcollection
      exact ⟨m'', hraised, hends.bind_failed.next fun budget =>
        congrFun (Expr.eval_succ setup budget _) m⟩
    | ok c =>
      rw [hread] at hcollection
      -- the key was evaluated once for the place and gives the same value again
      have hkeyEnds := (Expr.eval_grows setup key).ends_done hkey
      have hitem := Run.ends_const (Run.ofExcept_ne_exhausted (Fault.at pos (c.item k)) m')
      have hindex : Run.Ends (fun budget => Expr.eval setup budget (.index pos collection key)) m
          (Run.ofExcept (Fault.at pos (c.item k)) m') :=
        (hcollection.bind_done (hkeyEnds.bind_done hitem)).next fun budget =>
          congrFun (Expr.eval_succ setup budget _) m
      show match Fault.at pos (c.item k) with | .ok old => _ | .error fault => _
      cases hat : Fault.at pos (c.item k) with
      | ok old =>
        rw [hat] at hindex
        exact hindex
      | error fault =>
        rw [hat] at hindex
        exact ⟨m', hraised, hindex⟩
  | .literal .., _, _, _, h | .list .., _, _, _, h | .map .., _, _, _, h | .unary .., _, _, _, h
  | .binary .., _, _, _, h | .logical .., _, _, _, h | .call .., _, _, _, h
  | .function .., _, _, _, h => by cases h

/-- Which functions are in the keys of a place is not looked at. -/
theorem read_keys_relabelled (hpos : R.pos = id) (m : Machine) (p : Place) :
    read m (p.relabelled R) = read m p := by
  simp only [read, Place.relabelled, hpos, id, Value.load_keys_relabelled _ hpos]

/-- Nothing is stored under a function, so the place may be relabelled. -/
theorem store_keys_relabelled (hpos : R.pos = id) (p : Place) (value : Value) :
    store (p.relabelled R) value = store p value := by
  simp only [store, Place.relabelled, hpos, id, Value.store_keys_relabelled _ hpos]

/-- A target that is evaluated after its place has been found is evaluated to what the
look-up at that place gives, or fails as the look-up does. -/
theorem reread
    (hquiet : ∀ key ∈ target.keys, ∀ budget, Run.Quiet still (Expr.eval setup budget key))
    (hraises : ∀ gap, (still → gap = 0) → m.Raises setup gap)
    (h : place (Expr.eval setup budget) target m = .done p m') :
    ∃ m'', m'.Raised still m''
      ∧ Run.Ends (fun budget => Expr.eval setup budget target) m'
        ((load p m').mapState fun _ => m'') := by
  have hplaceQuiet := place_quiet target fun key hkey => hquiet key hkey budget
  obtain ⟨gap, hgap, rfl⟩ := hplaceQuiet.done h
  have hagain : place (Expr.eval setup budget) target (m.raised gap)
      = .done (p.relabelled (.raising m.fresh gap))
        ((m.raised gap).relabelled (.raising m.fresh gap)) := by
    have hplace := place_relabels (relabels ((hraises gap hgap).impartial m.fresh) budget) target
    rw [show (Relabelling.raising m.fresh gap).pos = id from rfl, Tree.moved_id.ofExpr] at hplace
    rw [(hraises gap hgap).run hplace, h]
    rfl
  have hends := ends_of_place hquiet hagain
  rw [read_keys_relabelled rfl] at hends
  rw [load_eq]
  cases hread : read (m.raised gap) p with
  | ok old =>
    rw [hread] at hends
    exact ⟨_, hplaceQuiet.done hagain, hends⟩
  | error fault =>
    rw [hread] at hends
    exact hends

-- ======================================================= combining

/-- What an assignment with an operator does once it has the old value. -/
def combine (eval : Expr → Run Value) (pos : Position) (op : BinaryOp) (value : Expr) (p : Place)
    (old : Value) : Run Flow := do
  let right ← eval value
  let v ← Run.at pos (op.apply old right)
  store p v
  return .normal .nil

/-- The two statements, each as a place, an old value and what is done with both. The first
reads the old value from the place, the second evaluates the target once more. -/
private theorem exec_compound (setup : Setup) (budget : Nat) (pos : Position) (target : Expr)
    (op : BinaryOp) (value : Expr) :
    Stmt.exec setup (budget + 1) (.assign pos target (some op) value) = (do
      let p ← place (Expr.eval setup budget) target
      let old ← load p
      combine (Expr.eval setup budget) pos op value p old) := by
  simp only [Stmt.exec_succ, Stmt.step, assigned, combine, bind_assoc]

/-- The target of the expansion is evaluated one step further down. -/
theorem exec_expansion (setup : Setup) (budget : Nat) (pos opPos : Position) (target : Expr)
    (op : BinaryOp) (value : Expr) :
    Stmt.exec setup (budget + 2) (.assign pos target none (.binary opPos op target value)) = (do
      let p ← place (Expr.eval setup (budget + 1)) target
      let old ← Expr.eval setup budget target
      combine (Expr.eval setup budget) opPos op value p old) := by
  simp only [Stmt.exec_succ, Stmt.step, assigned, Expr.eval_succ setup budget, Expr.step, combine,
    bind_assoc]

private theorem combine_relabels (hpos : R.pos = id) {eval : Expr → Run Value} {value : Expr}
    (h : Run.Relabels R (Value.relabelled R) (eval value) (eval value)) (pos : Position)
    (op : BinaryOp) (p : Place) (old : Value) :
    Run.Relabels R (Flow.relabelled R) (combine eval pos op value p old)
      (combine eval pos op value p (old.relabelled R)) := by
  refine h.bind fun right => ?_
  have hat := Run.Relabels.at (R := R) pos (BinaryOp.apply_relabelled R op old right)
  rw [hpos] at hat
  refine hat.bind fun v => ?_
  have hstore := store_relabels (R := R) p v
  rw [store_keys_relabelled hpos] at hstore
  exact hstore.bind fun _ => .pure (Flow.normal .nil)

/-- From a machine with more identities given out the rest of the assignment is the same but
for a renumbering. -/
theorem combine_raised (hraises : m.Raises setup gap) {old : Value} (hread : read m p = .ok old)
    (pos : Position) (op : BinaryOp) (value : Expr) :
    combine (Expr.eval setup budget) pos op value p old (m.raised gap)
      = (combine (Expr.eval setup budget) pos op value p old m).relabelled
        (.raising m.fresh gap) (Flow.relabelled (.raising m.fresh gap)) := by
  have hold : old.relabelled (.raising m.fresh gap) = old := by
    have hagain := hraises.run (load_relabels p)
    rw [load_eq, load_eq, read_keys_relabelled rfl] at hagain
    rw [show read (m.raised gap) p = read m p from rfl, hread] at hagain
    exact (Outcome.done.inj hagain).1.symm
  have heval := (renumbers rfl (hraises.impartial m.fresh) budget).1 value
  have hcombine := hraises.run (combine_relabels rfl heval pos op p old)
  rwa [hold] at hcombine

end Eval

-- =========================================================== alike

/-- The second machine is the first with its functions renumbered, and more identities given
out; if it is `still`, the two are the same. -/
def Machine.Renumbers (still : Prop) (m m' : Machine) : Prop :=
  (still → m' = m) ∧ ∃ R : Relabelling, R.pos = id ∧ m' = m.relabelled R

/-- An assignment with an operator gets as far as to apply its operator, and that fails. -/
inductive Eval.Refuses (setup : Setup) (target : Expr) (op : BinaryOp) (value : Expr)
    (m : Machine) : Prop where
  | mk {p : Place} {m₁ m₂ : Machine} {old right : Value} {cause : Cause}
      (found : Run.Ends (fun budget => place (Expr.eval setup budget) target) m (.done p m₁))
      (loaded : load p m₁ = .done old m₁)
      (evaluated : Run.Ends (fun budget => Expr.eval setup budget value) m₁ (.done right m₂))
      (failed : op.apply old right = .error cause) : Refuses setup target op value m

/-- Two statements end alike, on machines that are the same in some sense. Their faults are
the same, unless it is their operator that refuses: then it does so for the same cause, at
`pos` in the first and at `opPos` in the second. -/
inductive Outcome.Alike (same : Machine → Machine → Prop) (refuses : Prop)
    (pos opPos : Position) :
    Outcome Machine Fault Flow → Outcome Machine Fault Flow → Prop where
  | done {flow : Flow} {m m' : Machine} (state : same m m') :
      Alike same refuses pos opPos (.done flow m) (.done flow m')
  | failed {fault : Fault} {m m' : Machine} (otherwise : ¬ refuses) (state : same m m') :
      Alike same refuses pos opPos (.failed fault m) (.failed fault m')
  | refused {cause : Cause} {m m' : Machine} (operator : refuses) (state : same m m') :
      Alike same refuses pos opPos (.failed ⟨cause, pos⟩ m) (.failed ⟨cause, opPos⟩ m')
  | exhausted : Alike same refuses pos opPos .exhausted .exhausted

/-- Raising the numbers to come is a renumbering, for a gap that is allowed. -/
theorem Machine.Renumbers.raising {still : Prop} {gap : Nat} (hgap : still → gap = 0) (since : Nat)
    (m : Machine) : m.Renumbers still (m.relabelled (.raising since gap)) := by
  refine ⟨fun hstill => ?_, .raising since gap, rfl, rfl⟩
  rw [hgap hstill, relabelled_raising_zero]

/-- So is doing nothing. -/
theorem Machine.Renumbers.refl {still : Prop} (m : Machine) : m.Renumbers still m := by
  have hsame : m.Renumbers still (m.relabelled (.raising 0 0)) := .raising (fun _ => rfl) 0 m
  rwa [relabelled_raising_zero] at hsame

private theorem Outcome.Alike.exhausted_iff {same : Machine → Machine → Prop} {refuses : Prop}
    {pos opPos : Position} {outcome outcome' : Outcome Machine Fault Flow}
    (h : outcome.Alike same refuses pos opPos outcome') :
    outcome = .exhausted ↔ outcome' = .exhausted := by
  cases h <;> simp

namespace Eval

variable {still : Prop} {target value : Expr} {op : BinaryOp} {p : Place} {m₁ : Machine}
  {old : Value} {budget gap : Nat}

/-- Once the place has been found and read, it is up to the right side. -/
theorem refuses_iff
    (hplace : Run.Ends (fun budget => place (Expr.eval setup budget) target) m (.done p m₁))
    (hread : read m₁ p = .ok old) :
    Refuses setup target op value m ↔ ∃ right m₂ cause,
      Run.Ends (fun budget => Expr.eval setup budget value) m₁ (.done right m₂)
        ∧ op.apply old right = .error cause := by
  have hload : load p m₁ = .done old m₁ := by
    rw [load_eq, hread]
    rfl
  constructor
  · rintro ⟨found, loaded, evaluated, failed⟩
    cases hplace.unique found
    rw [hload] at loaded
    cases loaded
    exact ⟨_, _, _, evaluated, failed⟩
  · rintro ⟨right, m₂, cause, evaluated, failed⟩
    exact ⟨hplace, hload, evaluated, failed⟩

/-- The right side on two machines that differ by the numbers to come. Every ending is the
same up to them, and a fault of the operator has the operator's place. -/
private theorem combine_alike
    (hplace : Run.Ends (fun budget => place (Expr.eval setup budget) target) m (.done p m₁))
    (hread : read m₁ p = .ok old) (hraises : m₁.Raises setup gap) (hgap : still → gap = 0)
    (pos opPos : Position) :
    (combine (Expr.eval setup budget) pos op value p old m₁).Alike (Machine.Renumbers still)
      (Refuses setup target op value m) pos opPos
      (combine (Expr.eval setup budget) opPos op value p old (m₁.raised gap)) := by
  have hsame (m' : Machine) := Machine.Renumbers.raising hgap m₁.fresh m'
  rw [combine_raised hraises hread, combine, combine]
  cases hvalue : Expr.eval setup budget value m₁ with
  | exhausted =>
    rw [Run.bind_of_exhausted hvalue, Run.bind_of_exhausted hvalue]
    exact .exhausted
  | failed fault m₂ =>
    have hends := (Expr.eval_grows setup value).ends hvalue nofun
    rw [Run.bind_of_failed hvalue, Run.bind_of_failed hvalue]
    refine .failed (fun hrefuses => ?_) (hsame m₂)
    -- a refusal needs the value of the right side, which has none here
    obtain ⟨right, m₃, cause, evaluated, -⟩ := (refuses_iff hplace hread).1 hrefuses
    cases hends.unique evaluated
  | done right m₂ =>
    have hends := (Expr.eval_grows setup value).ends_done hvalue
    rw [Run.bind_of_done hvalue, Run.bind_of_done hvalue]
    cases happly : op.apply old right with
    | error cause =>
      exact .refused ((refuses_iff hplace hread).2 ⟨right, m₂, cause, hends, happly⟩) (hsame m₂)
    | ok v =>
      -- the operator accepts, and both runs have one value to write
      have hnot : ¬ Refuses setup target op value m := by
        intro hrefuses
        obtain ⟨right', m₃, cause, evaluated, failed⟩ := (refuses_iff hplace hread).1 hrefuses
        cases hends.unique evaluated
        rw [happly] at failed
        cases failed
      have hstore := store_eq p v m₂
      show Outcome.Alike _ _ _ _ ((store p v >>= fun _ => pure (Flow.normal .nil)) m₂)
        (((store p v >>= fun _ => pure (Flow.normal .nil)) m₂).relabelled _ _)
      cases hwritten : written m₂ p v with
      | error fault =>
        rw [hwritten] at hstore
        rw [Run.bind_of_failed hstore]
        exact .failed hnot (hsame m₂)
      | ok m₃ =>
        rw [hwritten] at hstore
        rw [Run.bind_of_done hstore]
        exact .done (hsame m₃)

/-- Once the place has been found, the first assignment looks it up and the second evaluates
the target. -/
theorem read_alike
    (hplace : Run.Ends (fun budget => place (Expr.eval setup budget) target) m (.done p m₁))
    (hraises : m₁.Raises setup gap) (hgap : still → gap = 0)
    (htarget : Expr.eval setup budget target m₁ = (load p m₁).mapState fun _ => m₁.raised gap)
    (pos opPos : Position) :
    ((load p >>= combine (Expr.eval setup budget) pos op value p) m₁).Alike
      (Machine.Renumbers still) (Refuses setup target op value m) pos opPos
      ((Expr.eval setup budget target
        >>= combine (Expr.eval setup budget) opPos op value p) m₁) := by
  have hload := load_eq p m₁
  cases hread : read m₁ p with
  | error fault =>
    rw [hread] at hload
    rw [hload] at htarget
    rw [Run.bind_of_failed hload, Run.bind_of_failed htarget, ← hraises.relabelled_eq]
    refine .failed (fun hrefuses => ?_) (.raising hgap _ _)
    obtain ⟨found, loaded, -, -⟩ := hrefuses
    cases hplace.unique found
    rw [hload] at loaded
    cases loaded
  | ok old =>
    rw [hread] at hload
    rw [hload] at htarget
    rw [Run.bind_of_done hload, Run.bind_of_done htarget]
    exact combine_alike hplace hread hraises hgap pos opPos

/-- With enough of the budget, and one more for the expansion, the two assignments do alike;
neither ends if the keys of the target run on. -/
theorem assign_alike
    (hquiet : ∀ key ∈ target.keys, ∀ budget, Run.Quiet still (Expr.eval setup budget key))
    (hraises : ∀ gap, (still → gap = 0) → m.Raises setup gap) (pos opPos : Position)
    (op : BinaryOp) (value : Expr) :
    ∃ enough, ∀ budget, enough ≤ budget →
      (Stmt.exec setup (budget + 1) (.assign pos target (some op) value) m).Alike
        (Machine.Renumbers still) (Refuses setup target op value m) pos opPos
        (Stmt.exec setup (budget + 2)
          (.assign pos target none (.binary opPos op target value)) m) := by
  by_cases hfinds : ∃ budget, place (Expr.eval setup budget) target m ≠ .exhausted
  · obtain ⟨first, hfirst⟩ := hfinds
    have hends := (place_grows setup target).ends (m := m) rfl hfirst
    cases hplace : place (Expr.eval setup first) target m with
    | exhausted => exact absurd hplace hfirst
    | failed fault m₁ =>
      rw [hplace] at hends
      obtain ⟨enough, henough⟩ := hends.2
      refine ⟨enough, fun budget hbudget => ?_⟩
      rw [exec_compound, exec_expansion, Run.bind_of_failed (henough budget hbudget),
        Run.bind_of_failed (henough _ (Nat.le_succ_of_le hbudget))]
      -- no place, so neither run gets as far as the operator
      refine .failed (fun hrefuses => ?_) (.refl m₁)
      obtain ⟨found, -, -, -⟩ := hrefuses
      cases hends.unique found
    | done p m₁ =>
      rw [hplace] at hends
      -- reading the target again only raises the counter of function numbers, by `gap`
      obtain ⟨m₂, ⟨gap, hgap, rfl⟩, htarget⟩ := reread hquiet hraises hplace
      obtain ⟨since, -, rfl⟩ :=
        (place_quiet target fun key hkey => hquiet key hkey first).done hplace
      obtain ⟨enough, henough⟩ := hends.2
      obtain ⟨-, enough', henough'⟩ := htarget
      refine ⟨max enough enough', fun budget hbudget => ?_⟩
      obtain ⟨hle, hle'⟩ := Nat.max_le.1 hbudget
      rw [exec_compound, exec_expansion, Run.bind_of_done (henough budget hle),
        Run.bind_of_done (henough _ (Nat.le_succ_of_le hle))]
      exact read_alike hends ((hraises gap hgap).later since) hgap (henough' budget hle') pos opPos
  · have hnever (budget : Nat) : place (Expr.eval setup budget) target m = .exhausted :=
      not_not.1 fun hne => hfinds ⟨budget, hne⟩
    -- no budget finds the place: both runs are exhausted at each
    refine ⟨0, fun budget _ => ?_⟩
    rw [exec_compound, exec_expansion, Run.bind_of_exhausted (hnever budget),
      Run.bind_of_exhausted (hnever (budget + 1))]
    exact .exhausted

end Eval

-- ===================================================== assignments

/-- An assignment with an operator is its expansion. If the keys of the target call nothing,
then `target op= value` ends if and only if `target = target op value` does, and the two end
alike: in the same state, or with the same fault, except that an operator that fails does so
at the statement in the one and at the operator in the other. The state is the same up to
which creations the functions in it are, and it is the same outright if the keys make no
functions. If they do, the state before has to be numbered, as every state is that runs lead
to from the start (`Machine.start_numbered`, `Program.run_numbered`), and the host must not
look at which creations functions are. -/
theorem Stmt.exec_compound_expands (setup : Setup) (pos opPos : Position) {target : Expr}
    (op : BinaryOp) (value : Expr) {m : Machine} (hcalls : ∀ key ∈ target.keys, key.Avoids .call)
    (hmakes : (∀ key ∈ target.keys, key.Avoids .function)
      ∨ m.Numbered ∧ setup.host.Discreet) :
    (∀ outcome, Stmt.Ends setup (.assign pos target (some op) value) m outcome →
      ∃ outcome',
        Stmt.Ends setup (.assign pos target none (.binary opPos op target value)) m outcome'
          ∧ outcome.Alike (Machine.Renumbers (∀ key ∈ target.keys, key.Avoids .function))
            (Eval.Refuses setup target op value m) pos opPos outcome')
    ∧ ∀ outcome',
      Stmt.Ends setup (.assign pos target none (.binary opPos op target value)) m outcome' →
        ∃ outcome, Stmt.Ends setup (.assign pos target (some op) value) m outcome
          ∧ outcome.Alike (Machine.Renumbers (∀ key ∈ target.keys, key.Avoids .function))
            (Eval.Refuses setup target op value m) pos opPos outcome' := by
  obtain ⟨enough, halike⟩ := Eval.assign_alike
    (fun key hkey budget => (Expr.eval_quiet setup budget (hcalls key hkey)).mono
      fun hmakesNone => hmakesNone key hkey)
    (fun gap hgap => hmakes.elim (fun hnone => hgap hnone ▸ m.raises_zero setup)
      fun ⟨hm, hhost⟩ => hm.raises hhost gap) pos opPos op value
  constructor
  · rintro outcome ⟨hends, enough', henough'⟩
    have hpair := halike (max enough enough') (Nat.le_max_left _ _)
    have hthere : Stmt.exec setup (max enough enough' + 1) (.assign pos target (some op) value) m
        = outcome := henough' _ (Nat.le_succ_of_le (Nat.le_max_right _ _))
    rw [hthere] at hpair
    exact ⟨_, (Stmt.exec_grows setup _).ends rfl fun h => hends (hpair.exhausted_iff.2 h), hpair⟩
  · rintro outcome' ⟨hends, enough', henough'⟩
    have hpair := halike (max enough enough') (Nat.le_max_left _ _)
    have hthere : Stmt.exec setup (max enough enough' + 2)
        (.assign pos target none (.binary opPos op target value)) m = outcome' :=
      henough' _ (Nat.le_add_right_of_le (Nat.le_max_right _ _))
    rw [hthere] at hpair
    exact ⟨_, (Stmt.exec_grows setup _).ends rfl fun h => hends (hpair.exhausted_iff.1 h), hpair⟩

/-- A function that does nothing. -/
def idle : Code := ⟨none, [], [], .start⟩

/-- A function that empties the map `xs`, makes a function and returns a string. -/
def emptier : Closure where
  id := 0
  code := ⟨some "f", [],
    [.assign .start (.name .start "xs") none (.map .start []),
      .assign .start (.name .start "g") none (.function .start idle),
      .return_ .start (some (.literal .start (.string "!")))], .start⟩
  frame := 0

/-- A machine on which `xs` means a map, and `f` the function that changes `xs` and `g`. -/
def Machine.filled (entry : String) (g : Value) (calls : List Frame) (fresh : Nat) : Machine where
  heap := ⟨⟨none, [("xs", .map [(.bool true, .string entry)]), ("g", g),
    ("f", .function emptier)]⟩ :: calls⟩
  scope := 0
  depth := 0
  fresh := fresh
  transcript := {}

/-- The item of `xs` under a key for which two functions are made, and found to be unequal. -/
def unequal : Expr :=
  .index .start (.name .start "xs")
    (.binary .start .notEqual (.function .start idle) (.function .start idle))

private theorem unequal_avoids_call : ∀ key ∈ unequal.keys, key.Avoids .call := by
  have hidle : (Expr.function .start idle).Avoids .call := .mk nofun nofun
  refine List.forall_mem_singleton.2 (.mk nofun ?_)
  exact List.forall_mem_cons.2 ⟨hidle, List.forall_mem_singleton.2 hidle⟩

/-- A program that binds `xs`, `g` and `f`. -/
def filling : Program :=
  [.let_ .start "xs" (.map .start [(.literal .start (.bool true), .literal .start (.string "?"))]),
    .let_ .start "g" (.literal .start .nil), .function .start emptier.code]

/-- The machine is one that a program comes to, so its functions are numbered. -/
theorem Machine.filled_numbered : (filled "?" .nil [] 1).Numbered := by
  let empty : Host := []
  let setup : Setup := ⟨Prelude.host, 200⟩
  have hrun : filling.run setup 5 (.start (empty.bindings 0 []))
      = .done .nil (filled "?" .nil [] 1) := rfl
  have hkeeps := Program.run_numbered (show setup.host.Discreet from Prelude.host_discreet) 5
    filling (.start (empty.bindings 0 []))
  rw [hrun] at hkeeps
  exact hkeeps (Machine.start_numbered empty)

-- the old entry is read before the call empties the map, and the expansion gives out two more
-- identities
/-- The theorem at a target whose key makes two functions: the expansion makes them once
more, so what is made after that has another number. -/
theorem Stmt.exec_compound_expands_emptier :
    (∀ key ∈ unequal.keys, key.Avoids .call)
      ∧ ((∀ key ∈ unequal.keys, key.Avoids .function)
        ∨ (Machine.filled "?" .nil [] 1).Numbered ∧ Prelude.host.Discreet)
      ∧ (Outcome.done (.normal .nil)
        (.filled "?!" (.function ⟨3, idle, 1⟩) [⟨some 0, []⟩] 4)).Alike
        (Machine.Renumbers (∀ key ∈ unequal.keys, key.Avoids .function))
        (Eval.Refuses ⟨Prelude.host, 200⟩ unequal .add (.call .start (.name .start "f") [])
          (.filled "?" .nil [] 1)) .start ⟨1, 9⟩
        (.done (.normal .nil) (.filled "?!" (.function ⟨5, idle, 1⟩) [⟨some 0, []⟩] 6)) := by
  have hnumbered := And.intro Machine.filled_numbered Prelude.host_discreet
  refine ⟨unequal_avoids_call, .inr hnumbered, ?_⟩
  have hcompound : Stmt.exec ⟨Prelude.host, 200⟩ 10 (.assign .start unequal (some .add)
      (.call .start (.name .start "f") [])) (.filled "?" .nil [] 1)
      = .done (.normal .nil) (.filled "?!" (.function ⟨3, idle, 1⟩) [⟨some 0, []⟩] 4) := by
    cbv
  have hexpansion : Stmt.exec ⟨Prelude.host, 200⟩ 10 (.assign .start unequal none
      (.binary ⟨1, 9⟩ .add unequal (.call .start (.name .start "f") []))) (.filled "?" .nil [] 1)
      = .done (.normal .nil) (.filled "?!" (.function ⟨5, idle, 1⟩) [⟨some 0, []⟩] 6) := by
    cbv
  obtain ⟨outcome', hends, halike⟩ := (Stmt.exec_compound_expands ⟨Prelude.host, 200⟩ .start
    ⟨1, 9⟩ .add (.call .start (.name .start "f") []) unequal_avoids_call (.inr hnumbered)).1
    _ ((Stmt.exec_grows _ _).ends_done hcompound)
  cases hends.unique ((Stmt.exec_grows _ _).ends_done hexpansion)
  exact halike

end Scriptlet
