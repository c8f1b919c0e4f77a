/-
Conditions on trees. Many facts about running programs start from a condition
that every node of a tree meets, the bodies of its functions included: no loop
without a bound, only places as targets, no function that a signal can leave. A
rule gives the condition on single nodes and `Every` carries it through the tree.

# Signals

A signal is not a condition on nodes, because a loop takes the `break` and
`continue` inside its body. `Stmt.leaks` says which signals a statement holds
that nothing in it takes. A function takes every signal of its body, so what a
statement leaks says nothing about the functions in it.
-/
import Scriptlet.Fault
import Scriptlet.Proofs.Moved.Tree

namespace Scriptlet

-- =========================================================== parts

/-- The expressions directly inside an expression. -/
def Expr.parts : Expr → List Expr
  | .list _ items => items
  | .map _ entries => entries.flatMap fun entry => [entry.1, entry.2]
  | .unary _ _ operand => [operand]
  | .binary _ _ left right | .logical _ _ left right => [left, right]
  | .call _ callee args => callee :: args
  | .index _ collection key => [collection, key]
  | .literal .. | .name .. | .function .. => []

/-- What holds of the parts of a map, entry by entry. -/
theorem Expr.forall_entry {P : Expr → Prop} {pos : Position} {entries : List (Expr × Expr)}
    (h : ∀ p ∈ (Expr.map pos entries).parts, P p) : ∀ entry ∈ entries, P entry.1 ∧ P entry.2 := by
  intro entry hentry
  have hmem (e : Expr) (hin : e ∈ [entry.1, entry.2]) : P e :=
    h e (List.mem_flatMap.2 ⟨entry, hentry, hin⟩)
  exact ⟨hmem _ List.mem_cons_self, hmem _ (List.mem_cons_of_mem _ List.mem_cons_self)⟩

/-- The function that an expression makes. -/
def Expr.code? : Expr → Option Code
  | .function _ code => some code
  | _ => none

/-- The expressions directly inside a statement. -/
def Stmt.exprs : Stmt → List Expr
  | .let_ _ _ value | .expr _ value => [value]
  | .assign _ target _ value => [target, value]
  | .if_ _ condition _ _ | .while_ _ condition _ => [condition]
  | .for_ _ _ iterable _ => [iterable]
  | .return_ _ value => value.toList
  | .function .. | .break_ _ | .continue_ _ | .block .. => []

/-- The statements directly inside a statement. -/
def Stmt.parts : Stmt → List Stmt
  | .if_ _ _ yes no => yes ++ no.getD []
  | .while_ _ _ body | .for_ _ _ _ body | .block _ body => body
  | .let_ .. | .assign .. | .expr .. | .function .. | .return_ .. | .break_ _ | .continue_ _ => []

/-- The function that a statement declares. -/
def Stmt.code? : Stmt → Option Code
  | .function _ code => some code
  | _ => none

section Moved

variable (f : Position → Position)

/-- The parts of a moved node are its moved parts, for each way in which a tree can be
inside another. -/
theorem Expr.parts_moved (e : Expr) : (e.moved f).parts = e.parts.map (Expr.moved f) := by
  cases e <;> simp [Expr.moved, Expr.parts, List.flatMap_map, List.map_flatMap]

theorem Expr.code?_moved (e : Expr) : (e.moved f).code? = e.code?.map (Code.moved f) := by
  cases e <;> rfl

theorem Stmt.exprs_moved (s : Stmt) : (s.moved f).exprs = s.exprs.map (Expr.moved f) := by
  cases s with
  | if_ pos condition yes no => cases no <;> rfl
  | return_ pos value => cases value <;> rfl
  | _ => rfl

theorem Stmt.parts_moved (s : Stmt) : (s.moved f).parts = s.parts.map (Stmt.moved f) := by
  cases s with
  | if_ pos condition yes no => cases no <;> simp [Stmt.moved, Stmt.parts]
  | return_ pos value => cases value <;> rfl
  | _ => simp [Stmt.moved, Stmt.parts]

theorem Stmt.code?_moved (s : Stmt) : (s.moved f).code? = s.code?.map (Code.moved f) := by
  cases s with
  | if_ pos condition yes no => cases no <;> rfl
  | return_ pos value => cases value <;> rfl
  | _ => rfl

end Moved

-- =========================================================== rules

/-- A condition on single nodes of a tree. -/
structure Tree.Rule where
  expr : Expr → Prop := fun _ => True
  stmt : Stmt → Prop := fun _ => True
  code : Code → Prop := fun _ => True

mutual

/-- An expression all of whose nodes meet a rule. -/
inductive Expr.Every (r : Tree.Rule) : Expr → Prop where
  | mk {e : Expr} (here : r.expr e) (parts : ∀ p ∈ e.parts, Expr.Every r p)
      (code : ∀ c ∈ e.code?, Code.Every r c) : Expr.Every r e

/-- A statement all of whose nodes meet a rule. -/
inductive Stmt.Every (r : Tree.Rule) : Stmt → Prop where
  | mk {s : Stmt} (here : r.stmt s) (exprs : ∀ e ∈ s.exprs, Expr.Every r e)
      (parts : ∀ p ∈ s.parts, Stmt.Every r p) (code : ∀ c ∈ s.code?, Code.Every r c) :
      Stmt.Every r s

/-- A function all of whose nodes meet a rule. -/
inductive Code.Every (r : Tree.Rule) : Code → Prop where
  | mk {c : Code} (here : r.code c) (body : ∀ s ∈ c.body, Stmt.Every r s) : Code.Every r c

end

/-- A program all of whose nodes meet a rule. -/
def Program.Every (r : Tree.Rule) (program : Program) : Prop := ∀ s ∈ program, s.Every r

variable {r : Tree.Rule}

/-- A rule holds of a tree if it holds of the node and of all that is directly
inside it. -/
private theorem Expr.every_iff {e : Expr} :
    e.Every r ↔ r.expr e ∧ (∀ p ∈ e.parts, p.Every r) ∧ ∀ c ∈ e.code?, c.Every r :=
  ⟨fun ⟨here, parts, code⟩ => ⟨here, parts, code⟩, fun ⟨here, parts, code⟩ => ⟨here, parts, code⟩⟩

private theorem Stmt.every_iff {s : Stmt} :
    s.Every r ↔ r.stmt s ∧ (∀ e ∈ s.exprs, e.Every r) ∧ (∀ p ∈ s.parts, p.Every r)
      ∧ ∀ c ∈ s.code?, c.Every r :=
  ⟨fun ⟨here, exprs, parts, code⟩ => ⟨here, exprs, parts, code⟩,
    fun ⟨here, exprs, parts, code⟩ => ⟨here, exprs, parts, code⟩⟩

private theorem Code.every_iff {c : Code} : c.Every r ↔ r.code c ∧ ∀ s ∈ c.body, s.Every r :=
  ⟨fun ⟨here, body⟩ => ⟨here, body⟩, fun ⟨here, body⟩ => ⟨here, body⟩⟩

/-- What a rule says of the node itself, of its parts and of the function it makes. -/
theorem Expr.Every.here {e : Expr} (h : e.Every r) : r.expr e := (Expr.every_iff.1 h).1

theorem Expr.Every.parts {e : Expr} (h : e.Every r) : ∀ p ∈ e.parts, p.Every r :=
  (Expr.every_iff.1 h).2.1

theorem Expr.Every.code {e : Expr} (h : e.Every r) : ∀ c ∈ e.code?, c.Every r :=
  (Expr.every_iff.1 h).2.2

/-- The same for statements. -/
theorem Stmt.Every.here {s : Stmt} (h : s.Every r) : r.stmt s := (Stmt.every_iff.1 h).1

theorem Stmt.Every.exprs {s : Stmt} (h : s.Every r) : ∀ e ∈ s.exprs, e.Every r :=
  (Stmt.every_iff.1 h).2.1

theorem Stmt.Every.parts {s : Stmt} (h : s.Every r) : ∀ p ∈ s.parts, p.Every r :=
  (Stmt.every_iff.1 h).2.2.1

theorem Stmt.Every.code {s : Stmt} (h : s.Every r) : ∀ c ∈ s.code?, c.Every r :=
  (Stmt.every_iff.1 h).2.2.2

/-- The same for the code of a function. -/
theorem Code.Every.here {c : Code} (h : c.Every r) : r.code c := (Code.every_iff.1 h).1

theorem Code.Every.body {c : Code} (h : c.Every r) : ∀ s ∈ c.body, s.Every r :=
  (Code.every_iff.1 h).2

/-- What follows for an expression from its parts, holds of every expression that meets
the rule. -/
theorem Expr.Every.induct {P : Expr → Prop}
    (step : ∀ e, e.Every r → (∀ p ∈ e.parts, P p) → P e) : ∀ {e : Expr}, e.Every r → P e
  | e, .mk here parts code => step e (.mk here parts code) fun p hp => (parts p hp).induct step

/-- Induction over the statements directly inside a statement. -/
theorem Stmt.Every.induct {P : Stmt → Prop}
    (step : ∀ s, s.Every r → (∀ p ∈ s.parts, P p) → P s) : ∀ {s : Stmt}, s.Every r → P s
  | s, .mk here exprs parts code =>
    step s (.mk here exprs parts code) fun p hp => (parts p hp).induct step

/-- The rule that asks nothing. -/
def Tree.Rule.any : Tree.Rule := {}

section Parts

variable {P : Expr → Prop} {Q : Stmt → Prop} {R : Code → Prop}

/-- An induction over trees that does not tell the forms apart: what follows for a node
from what is directly inside it. -/
theorem Tree.Cases.ofParts
    (expr : ∀ e : Expr, (∀ p ∈ e.parts, P p) → (∀ c ∈ e.code?, R c) → P e)
    (stmt : ∀ s : Stmt, (∀ e ∈ s.exprs, P e) → (∀ p ∈ s.parts, Q p) → (∀ c ∈ s.code?, R c) → Q s)
    (code : ∀ c : Code, (∀ s ∈ c.body, Q s) → R c) : Tree.Cases P Q R := by
  constructor
  case map =>
    intro pos entries h
    refine expr _ ?_ nofun
    intro p hp
    obtain ⟨entry, hentry, hp⟩ := List.mem_flatMap.1 hp
    simp only [List.mem_cons, List.not_mem_nil, or_false] at hp
    rcases hp with rfl | rfl
    · exact (h entry hentry).1
    · exact (h entry hentry).2
  case code =>
    intro name params body pos h
    exact code _ h
  all_goals
    intros
    first
    | apply expr <;> clear expr stmt code <;> simp_all [Expr.parts, Expr.code?]
    | apply stmt <;> clear expr stmt code <;> simp_all [Stmt.exprs, Stmt.parts, Stmt.code?, or_imp]

end Parts

/-- Every tree meets the rule that asks nothing. -/
theorem Tree.every_any :
    Tree.Cases (Expr.Every .any) (Stmt.Every .any) (Code.Every .any) :=
  .ofParts (fun _ => .mk trivial) (fun _ => .mk trivial) (fun _ => .mk trivial)

/-- One rule asks all that another one does. -/
structure Tree.Rule.Implies (r r' : Tree.Rule) : Prop where
  expr : ∀ e, r.expr e → r'.expr e
  stmt : ∀ s, r.stmt s → r'.stmt s
  code : ∀ c, r.code c → r'.code c

/-- A tree that meets a rule meets every rule that asks no more. -/
theorem Tree.every_mono {r' : Tree.Rule} (h : r.Implies r') :
    Tree.Cases (fun e => e.Every r → e.Every r') (fun s => s.Every r → s.Every r')
      (fun c => c.Every r → c.Every r') := by
  refine .ofParts (fun e hparts hcode he => ?_) (fun s hexprs hparts hcode hs => ?_)
    (fun c hbody hc => ?_)
  · exact .mk (h.expr e he.here) (fun p hp => hparts p hp (he.parts p hp))
      fun c hc => hcode c hc (he.code c hc)
  · exact .mk (h.stmt s hs.here) (fun e he => hexprs e he (hs.exprs e he))
      (fun p hp => hparts p hp (hs.parts p hp)) fun c hc => hcode c hc (hs.code c hc)
  · exact .mk (h.code c hc.here) fun s hs => hbody s hs (hc.body s hs)

-- ================================================ functions inside

mutual

/-- A function is somewhere in the expression, also inside another function. -/
inductive Expr.Contains : Expr → Code → Prop where
  | part {e p : Expr} {code : Code} (part : p ∈ e.parts) (inside : Expr.Contains p code) :
      Expr.Contains e code
  | made {e : Expr} {c code : Code} (made : c ∈ e.code?) (inside : Code.Contains c code) :
      Expr.Contains e code

/-- A function is somewhere in the statement, also inside another function. -/
inductive Stmt.Contains : Stmt → Code → Prop where
  | expr {s : Stmt} {e : Expr} {code : Code} (part : e ∈ s.exprs)
      (inside : Expr.Contains e code) : Stmt.Contains s code
  | part {s p : Stmt} {code : Code} (part : p ∈ s.parts) (inside : Stmt.Contains p code) :
      Stmt.Contains s code
  | made {s : Stmt} {c code : Code} (made : c ∈ s.code?) (inside : Code.Contains c code) :
      Stmt.Contains s code

/-- A function is the given one or somewhere in its body. -/
inductive Code.Contains : Code → Code → Prop where
  | here {code : Code} : Code.Contains code code
  | body {c code : Code} {s : Stmt} (part : s ∈ c.body) (inside : Stmt.Contains s code) :
      Code.Contains c code

end

/-- A function is somewhere in the program. -/
def Program.Contains (program : Program) (code : Code) : Prop := ∃ s ∈ program, s.Contains code

/-- A function inside a tree that meets a rule meets it too. -/
theorem Tree.every_of_contains :
    Tree.Cases (fun e => e.Every r → ∀ code, e.Contains code → code.Every r)
      (fun s => s.Every r → ∀ code, s.Contains code → code.Every r)
      (fun c => c.Every r → ∀ code, c.Contains code → code.Every r) := by
  refine .ofParts (fun e hparts hcode h code hin => ?_) (fun s hexprs hparts hcode h code hin => ?_)
    (fun c hbody h code hin => ?_)
  · cases hin with
    | part part inside => exact hparts _ part (h.parts _ part) code inside
    | made made inside => exact hcode _ made (h.code _ made) code inside
  · cases hin with
    | expr part inside => exact hexprs _ part (h.exprs _ part) code inside
    | part part inside => exact hparts _ part (h.parts _ part) code inside
    | made made inside => exact hcode _ made (h.code _ made) code inside
  · cases hin with
    | here => exact h
    | body part inside => exact hbody _ part (h.body _ part) code inside

/-- A rule that asks more of functions. -/
def Tree.Rule.withCode (r : Tree.Rule) (p : Code → Prop) : Tree.Rule :=
  { r with code := fun c => r.code c ∧ p c }

/-- What holds of all functions in a tree can be asked of them. -/
theorem Tree.every_withCode (r : Tree.Rule) (p : Code → Prop) :
    Tree.Cases (fun e => e.Every r → (∀ c, e.Contains c → p c) → e.Every (r.withCode p))
      (fun s => s.Every r → (∀ c, s.Contains c → p c) → s.Every (r.withCode p))
      (fun d => d.Every r → (∀ c, d.Contains c → p c) → d.Every (r.withCode p)) := by
  refine .ofParts (fun e hparts hcode h hp => ?_) (fun s hexprs hparts hcode h hp => ?_)
    (fun d hbody h hp => ?_)
  · exact .mk h.here (fun q hq => hparts q hq (h.parts q hq) fun c hc => hp c (.part hq hc))
      fun d hd => hcode d hd (h.code d hd) fun c hc => hp c (.made hd hc)
  · exact .mk h.here (fun e he => hexprs e he (h.exprs e he) fun c hc => hp c (.expr he hc))
      (fun q hq => hparts q hq (h.parts q hq) fun c hc => hp c (.part hq hc))
      fun d hd => hcode d hd (h.code d hd) fun c hc => hp c (.made hd hc)
  · exact .mk ⟨h.here, hp d .here⟩ fun s hs =>
      hbody s hs (h.body s hs) fun c hc => hp c (.body hs hc)

-- ========================================================= signals

mutual

/-- Whether a statement holds a signal that nothing in it takes. Loops take
`break` and `continue`, and functions take all signals. -/
def Stmt.leaks (signal : Signal) : Stmt → Bool
  | .return_ _ _ => signal = .return_
  | .break_ _ => signal = .break_
  | .continue_ _ => signal = .continue_
  | .if_ _ _ yes none => Stmt.leaksIn signal yes
  | .if_ _ _ yes (some no) => Stmt.leaksIn signal yes || Stmt.leaksIn signal no
  | .while_ _ _ body | .for_ _ _ _ body => signal = .return_ && Stmt.leaksIn signal body
  | .block _ body => Stmt.leaksIn signal body
  | .let_ .. | .assign .. | .expr .. | .function .. => false

/-- Whether one of several statements leaks a signal. -/
def Stmt.leaksIn (signal : Signal) : List Stmt → Bool
  | [] => false
  | s :: rest => s.leaks signal || Stmt.leaksIn signal rest

end

end Scriptlet
