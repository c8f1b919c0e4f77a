/-
Expressions that call nothing. Only calls run statements, so an expression without one binds
no name, enters no frame and writes nothing: it leaves the machine as it was, except for the
identities of the functions that it makes, and without function literals not even these are
given out (`Expr.eval_quiet`). What such an expression computes it may therefore compute
again.

# What is evaluated

An expression avoids a form if none of its parts that are evaluated with it has that form
(`Expr.Avoids`). A function literal has no such parts: making a function does not run its
body, and the body may call what it likes.
-/
import Scriptlet.Proofs.Eval.Assignment
import Scriptlet.Proofs.Relabelled.Numbered
import Scriptlet.Proofs.Tree.Rule

namespace Scriptlet

variable {α β : Type}

/-- Neither the expression nor any part that is evaluated with it has a form. -/
inductive Expr.Avoids (form : Expr.Form) : Expr → Prop where
  | mk {e : Expr} (here : e.form ≠ form) (parts : ∀ p ∈ e.parts, Expr.Avoids form p) :
      Expr.Avoids form e

/-- What stands nowhere in an expression stands nowhere in its parts. -/
private theorem Expr.Avoids.of_mem {form : Expr.Form} {e part : Expr} (h : e.Avoids form)
    (hpart : part ∈ e.parts) : part.Avoids form := by
  cases h with
  | mk here parts => exact parts part hpart

/-- The machine is the same but for identities that have been given out, and if it is `still`
then it is the same. -/
def Machine.Raised (still : Prop) (m m' : Machine) : Prop :=
  ∃ gap, (still → gap = 0) ∧ m' = m.raised gap

variable {still still' : Prop} {m m' m'' : Machine}

namespace Machine.Raised

theorem refl (m : Machine) : m.Raised still m := ⟨0, fun _ => rfl, rfl⟩

/-- The numbers that two runs give out add up. -/
theorem trans (h : m.Raised still m') (h' : m'.Raised still m'') : m.Raised still m'' := by
  obtain ⟨gap, hstill, rfl⟩ := h
  obtain ⟨gap', hstill', rfl⟩ := h'
  refine ⟨gap + gap', fun hs => ?_, congrArg (fun fresh => { m with fresh }) ?_⟩
  · rw [hstill hs, hstill' hs]
  · exact Nat.add_assoc _ _ _

/-- With less reason to stand still there is less to show. -/
theorem mono (h : m.Raised still m') (hstill : still' → still) : m.Raised still' m' := by
  obtain ⟨gap, hgap, heq⟩ := h
  exact ⟨gap, fun hs => hgap (hstill hs), heq⟩

end Machine.Raised

/-- A computation that leaves the machine the same but for identities. -/
abbrev Run.Quiet (still : Prop) (x : Run α) : Prop := Run.Keeps (Machine.Raised still) x

namespace Run.Quiet

theorem pure (a : α) : Quiet still (Pure.pure a) := .refl

theorem ofExcept (result : Except Fault α) : Quiet still (Run.ofExcept result) := by
  intro m
  cases result with
  | ok a => exact .refl m
  | error fault => exact .refl m

/-- The second run may give out numbers only where the first may, so the machines differ
by what both gave out. -/
theorem bind {x : Run α} (hx : Quiet still x) {k : α → Run β} (hk : ∀ a, Quiet still (k a)) :
    Quiet still (x >>= k) := by
  intro m
  have hm := hx m
  cases hxm : x m with
  | exhausted =>
    rw [bind_of_exhausted hxm]
    trivial
  | failed fault m₁ =>
    rw [hxm] at hm
    rw [bind_of_failed hxm]
    exact hm
  | done a m₁ =>
    rw [hxm] at hm
    rw [bind_of_done hxm]
    have hk := hk a m₁
    cases hkm : k a m₁ with
    | exhausted => trivial
    | failed fault m₂ =>
      rw [hkm] at hk
      exact hm.trans hk
    | done b m₂ =>
      rw [hkm] at hk
      exact hm.trans hk

/-- A quiet run that is done leaves the machine as it was, up to the numbers it gave
out. -/
theorem done {x : Run α} (hx : Quiet still x) {a : α} (h : x m = .done a m') :
    m.Raised still m' := by
  have hm := hx m
  rwa [h] at hm

/-- A run may be quiet for a stronger reason than is asked for. -/
theorem mono {x : Run α} (hx : Quiet still x) (hstill : still' → still) : Quiet still' x := by
  intro m
  have hm := hx m
  cases hxm : x m with
  | exhausted => trivial
  | failed fault m' =>
    rw [hxm] at hm
    exact hm.mono hstill
  | done a m' =>
    rw [hxm] at hm
    exact hm.mono hstill

end Run.Quiet

-- ======================================================= sequences

namespace Eval

open Run (Quiet)

variable {eval : Expr → Run Value}

private theorem list_quiet {items : List Expr} (h : ∀ e ∈ items, Quiet still (eval e)) :
    Quiet still (list eval items) := by
  induction items with
  | nil => exact .pure []
  | cons e rest ih =>
    obtain ⟨he, hrest⟩ := List.forall_mem_cons.1 h
    refine he.bind fun v => ?_
    exact (ih hrest).bind fun vs => .pure (v :: vs)

private theorem entries_quiet {items : List (Expr × Expr)}
    (h : ∀ entry ∈ items, Quiet still (eval entry.1) ∧ Quiet still (eval entry.2))
    (done : Entries MapKey Value) : Quiet still (entries eval items done) := by
  induction items generalizing done with
  | nil => exact .pure done
  | cons entry rest ih =>
    obtain ⟨⟨hkey, hvalue⟩, hrest⟩ := List.forall_mem_cons.1 h
    refine hkey.bind fun keyValue => ?_
    refine (Quiet.ofExcept _).bind fun key => ?_
    exact hvalue.bind fun value => ih hrest _

private theorem condition_quiet {e : Expr} (h : Quiet still (eval e)) (demand : Demand) :
    Quiet still (condition eval demand e) :=
  h.bind fun _ => .ofExcept _

/-- A place is found quietly if its keys are evaluated so. -/
theorem place_quiet : ∀ target : Expr, (∀ key ∈ target.keys, Quiet still (eval key)) →
    Quiet still (place eval target)
  | .index pos collection key, h => by
    rw [Expr.keys_index, List.forall_mem_append] at h
    refine (place_quiet collection h.1).bind fun p => ?_
    exact (h.2 key List.mem_cons_self).bind fun k => .pure _
  | .name .., _ => .pure _
  | .literal .., _ | .list .., _ | .map .., _ | .unary .., _ | .binary .., _ | .logical .., _
  | .call .., _ | .function .., _ => .refl

end Eval

-- ====================================================== evaluation

/-- An expression that calls nothing changes nothing of the machine but what identities have
been given out; and if it makes no function, nothing at all. -/
theorem Expr.eval_quiet (setup : Setup) (budget : Nat) {e : Expr} (he : e.Avoids .call) :
    Run.Quiet (e.Avoids .function) (Expr.eval setup budget e) := by
  induction budget generalizing e with
  | zero =>
    intro m
    rw [Expr.eval]
    trivial
  | succ budget ih =>
    have hpart (p : Expr) (hp : p ∈ e.parts) :
        Run.Quiet (e.Avoids .function) (Expr.eval setup budget p) :=
      (ih (he.of_mem hp)).mono fun h => h.of_mem hp
    intro m
    rw [Expr.eval]
    revert m
    show Run.Quiet (e.Avoids .function)
      (e.step setup (Expr.eval setup budget) (Stmt.exec setup budget))
    cases e with
    | literal pos value => exact .pure _
    | list pos items => exact (Eval.list_quiet hpart).bind fun vs => .pure _
    | map pos entries =>
      exact (Eval.entries_quiet (Expr.forall_entry hpart) []).bind fun done => .pure _
    | name pos ident => exact fun m => Run.Quiet.ofExcept _ m
    | unary pos op operand =>
      exact (hpart operand List.mem_cons_self).bind fun v => .ofExcept _
    | binary pos op left right =>
      obtain ⟨hleft, hright⟩ := List.forall_mem_cons.1 hpart
      refine hleft.bind fun l => ?_
      exact (hright right List.mem_cons_self).bind fun r => .ofExcept _
    | logical pos op left right =>
      obtain ⟨hleft, hright⟩ := List.forall_mem_cons.1 hpart
      refine (Eval.condition_quiet hleft _).bind fun l => ?_
      split
      · exact .pure _
      · exact (Eval.condition_quiet (hright right List.mem_cons_self) _).bind fun r => .pure _
    | call pos callee args =>
      -- ruled out by `he`: a call may do anything
      cases he with
      | mk here parts => exact absurd rfl here
    | index pos collection key =>
      obtain ⟨hcollection, hkey⟩ := List.forall_mem_cons.1 hpart
      refine hcollection.bind fun c => ?_
      exact (hkey key List.mem_cons_self).bind fun k => .ofExcept _
    | function pos code =>
      -- the one expression that gives out a number
      refine fun m => ⟨1, fun h => ?_, rfl⟩
      cases h with
      | mk here parts => exact absurd rfl here

end Scriptlet
