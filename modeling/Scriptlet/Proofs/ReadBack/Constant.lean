/-
Constant expressions: literals, negated numbers, and lists and maps of them.
They compute their value on every machine and leave the machine as it is.

An expression that was read from a text is known only up to positions, so what
is said here of an expression is said of all that differ from it in positions
alone (`Denotes`). Positions show only in faults, and there are none.
-/
import Scriptlet.Proofs.Eval.Contract
import Scriptlet.Proofs.Moved.Tree

namespace Scriptlet

-- ========================================================= meaning

/-- Wherever its parts stand, the expression computes `v` within every budget
from some point on, and changes nothing. -/
def Denotes (e : Expr) (v : Value) : Prop :=
  ∃ n, ∀ e' : Expr, e'.unplaced = e.unplaced → ∀ (setup : Setup) (budget : Nat), n ≤ budget →
    ∀ m, e'.eval setup budget m = .done v m

/-- The same of expressions that are evaluated one after another. -/
def ListDenotes (es : List Expr) (vs : List Value) : Prop :=
  ∃ n, ∀ es' : List Expr, es'.map Expr.unplaced = es.map Expr.unplaced →
    ∀ (setup : Setup) (budget : Nat), n ≤ budget →
      ∀ m, Eval.list (Expr.eval setup budget) es' m = .done vs m

/-- An entry of a map without its positions. -/
def unplacedEntry (entry : Expr × Expr) : Expr × Expr := (entry.1.unplaced, entry.2.unplaced)

/-- The same of the entries of a map, which come behind those that are there if
their keys are new. -/
def EntriesDenote (es : List (Expr × Expr)) (entries : Entries MapKey Value) : Prop :=
  ∃ n, ∀ es' : List (Expr × Expr), es'.map unplacedEntry = es.map unplacedEntry →
    ∀ (setup : Setup) (budget : Nat), n ≤ budget →
      ∀ done : Entries MapKey Value, (∀ key ∈ entries.keys, key ∉ done.keys) →
        ∀ m, Eval.entries (Expr.eval setup budget) es' done m = .done (done ++ entries) m

-- ========================================================== leaves

/-- A literal denotes its value as soon as there is any budget. -/
theorem denotes_literal (pos : Position) (value : Literal) :
    Denotes (.literal pos value) value.value := by
  refine ⟨1, fun e' he' setup budget hbudget m => ?_⟩
  obtain ⟨budget, rfl⟩ := Nat.exists_eq_add_of_le' hbudget
  cases e' with
  | literal pos' value' =>
    simp only [Expr.unplaced, Expr.moved, Expr.literal.injEq, true_and] at he'
    rw [he']
    rfl
  | _ => simp [Expr.moved] at he'

/-- A sign in front of a number denotes the negative number, for one unit of budget
more. -/
theorem denotes_negated (pos pos' : Position) (n : Float) :
    Denotes (.unary pos .negate (.literal pos' (.number n))) (.number (-n)) := by
  obtain ⟨k, hinner⟩ := denotes_literal pos' (.number n)
  refine ⟨k + 1, fun e' he' setup budget hbudget m => ?_⟩
  obtain ⟨budget, rfl⟩ : ∃ b, budget = b + 1 := ⟨budget - 1, by omega⟩
  cases e' with
  | unary p op inner =>
    simp only [Expr.unplaced, Expr.moved, Expr.unary.injEq, true_and] at he'
    obtain ⟨rfl, hsame⟩ := he'
    have heval := hinner inner hsame setup budget (by omega) m
    show (Expr.eval setup budget inner >>= fun v => Run.at p (UnaryOp.negate.apply v)) m = _
    rw [Run.bind_of_done heval]
    rfl
  | _ => simp [Expr.moved] at he'

-- =========================================================== lists

/-- Items denote values one by one. The first is evaluated first, and evaluating it
changes nothing. -/
theorem listDenotes_nil : ListDenotes [] [] := by
  refine ⟨0, fun es' hes' setup budget _ m => ?_⟩
  obtain rfl : es' = [] := by simpa using hes'
  rfl

/-- The two budgets are added, since each has to be enough for its part. -/
theorem listDenotes_cons {e : Expr} {es : List Expr} {v : Value} {vs : List Value}
    (he : Denotes e v) (hes : ListDenotes es vs) : ListDenotes (e :: es) (v :: vs) := by
  obtain ⟨n, hfirst⟩ := he
  obtain ⟨k, hrest⟩ := hes
  refine ⟨n + k, fun es' hes' setup budget hbudget m => ?_⟩
  cases es' with
  | nil => simp at hes'
  | cons e' rest =>
    obtain ⟨he', hrest'⟩ := List.cons.inj hes'
    have hfirst := hfirst e' he' setup budget (by omega) m
    have hrest := hrest rest hrest' setup budget (by omega) m
    rw [Eval.list, Run.bind_of_done hfirst, Run.bind_of_done hrest]
    rfl

/-- A literal list denotes the list of what its items denote. -/
theorem denotes_list {pos : Position} {es : List Expr} {vs : List Value} (h : ListDenotes es vs) :
    Denotes (.list pos es) (.list vs) := by
  obtain ⟨n, hitems⟩ := h
  refine ⟨n + 1, fun e' he' setup budget hbudget m => ?_⟩
  obtain ⟨budget, rfl⟩ : ∃ b, budget = b + 1 := ⟨budget - 1, by omega⟩
  cases e' with
  | list p es' =>
    simp only [Expr.unplaced, Expr.moved, Expr.movedItems_eq_map, Expr.list.injEq, true_and] at he'
    have hitems := hitems es' he' setup budget (by omega) m
    show (Eval.list (Expr.eval setup budget) es' >>= fun vs => pure (Value.list vs)) m = _
    rw [Run.bind_of_done hitems]
    rfl
  | _ => simp [Expr.moved] at he'

-- ============================================================ maps

/-- For entries the same is said of every beginning of a map that they are put into. -/
theorem entriesDenote_nil : EntriesDenote [] [] := by
  refine ⟨0, fun es' hes' setup budget _ done _ m => ?_⟩
  obtain rfl : es' = [] := by simpa using hes'
  rw [List.append_nil]
  rfl

/-- A key that is new goes to the end of the map, so the order of the entries is that of
the text. -/
theorem entriesDenote_cons {ke ve : Expr} {es : List (Expr × Expr)} {key : MapKey} {v : Value}
    {entries : Entries MapKey Value} (hkey : Denotes ke key.value)
    (hof : MapKey.ofValue key.value = .ok key) (hvalue : Denotes ve v)
    (hes : EntriesDenote es entries) (hnew : key ∉ entries.keys) :
    EntriesDenote ((ke, ve) :: es) ((key, v) :: entries) := by
  obtain ⟨n, hkey⟩ := hkey
  obtain ⟨k, hvalue⟩ := hvalue
  obtain ⟨l, hrest⟩ := hes
  refine ⟨n + k + l, fun es' hes' setup budget hbudget done hdone m => ?_⟩
  cases es' with
  | nil => simp at hes'
  | cons entry rest =>
    obtain ⟨ke', ve'⟩ := entry
    obtain ⟨hentry, hrest'⟩ := List.cons.inj hes'
    obtain ⟨hke', hve'⟩ := Prod.mk.inj hentry
    have hkey := hkey ke' hke' setup budget (by omega) m
    have hvalue := hvalue ve' hve' setup budget (by omega) m
    obtain ⟨hfresh, hothers⟩ := List.forall_mem_cons.1 hdone
    have hput := Entries.put_of_not_mem v hfresh
    -- the keys put in so far, this one among them, are none of those to come
    have hdone' : ∀ other ∈ entries.keys, other ∉ (Entries.put key v done).keys := by
      intro other hother hmem
      rw [hput, Entries.keys, List.map_append, List.mem_append] at hmem
      rcases hmem with hmem | hmem
      · exact hothers other hother hmem
      · cases List.mem_singleton.1 hmem
        exact hnew hother
    have hrest := hrest rest hrest' setup budget (by omega) (Entries.put key v done) hdone' m
    rw [Eval.entries, Run.bind_of_done hkey, hof]
    show (Expr.eval setup budget ve' >>= fun value =>
      Eval.entries (Expr.eval setup budget) rest (Entries.put key value done)) m = _
    rw [Run.bind_of_done hvalue, hrest, hput, List.append_assoc]
    rfl

/-- A literal map denotes the map of its entries, if their keys differ. -/
theorem denotes_map {pos : Position} {es : List (Expr × Expr)} {entries : Entries MapKey Value}
    (h : EntriesDenote es entries) : Denotes (.map pos es) (.map entries) := by
  obtain ⟨n, hentries⟩ := h
  refine ⟨n + 1, fun e' he' setup budget hbudget m => ?_⟩
  obtain ⟨budget, rfl⟩ : ∃ b, budget = b + 1 := ⟨budget - 1, by omega⟩
  cases e' with
  | map p es' =>
    simp only [Expr.unplaced, Expr.moved, Expr.movedEntries_eq_map, Expr.map.injEq,
      true_and] at he'
    have hentries := hentries es' he' setup budget (by omega) [] (fun _ _ => List.not_mem_nil) m
    show (Eval.entries (Expr.eval setup budget) es' [] >>= fun es => pure (Value.map es)) m = _
    rw [Run.bind_of_done hentries]
    rfl
  | _ => simp [Expr.moved] at he'

-- ======================================================== programs

/-- A program that is only a constant gives its value and changes nothing but
where the machine stands. -/
theorem Program.run_constant {e : Expr} {v : Value} (h : Denotes e v) :
    ∃ n, ∀ again : Program, again.unplaced = Program.unplaced [.expr .start e] →
      ∀ (setup : Setup) (budget : Nat), n ≤ budget → ∀ m,
        again.run setup budget m = .done v { m with scope := Machine.root, depth := 0 } := by
  obtain ⟨n, heval⟩ := h
  refine ⟨n + 1, fun again hagain setup budget hbudget m => ?_⟩
  obtain ⟨budget, rfl⟩ : ∃ b, budget = b + 1 := ⟨budget - 1, by omega⟩
  obtain ⟨pos, e', rfl, he'⟩ : ∃ pos e', again = [.expr pos e'] ∧ e'.unplaced = e.unplaced := by
    obtain - | ⟨s, - | ⟨s', rest⟩⟩ := again
    · simp at hagain
    · cases s with
      | expr pos e' =>
        simp only [Program.unplaced, Program.moved, Stmt.movedBody, Stmt.moved,
          List.cons.injEq, Stmt.expr.injEq, true_and, and_true] at hagain
        exact ⟨pos, e', rfl, hagain⟩
      | if_ pos condition yes no => cases no <;> simp [Stmt.moved] at hagain
      | return_ pos value => cases value <;> simp [Stmt.moved] at hagain
      | _ => simp [Stmt.moved] at hagain
    · simp at hagain
  have heval := heval e' he' setup budget (by omega) { m with scope := Machine.root, depth := 0 }
  have hexec : Stmt.exec setup (budget + 1) (.expr pos e')
      { m with scope := Machine.root, depth := 0 }
        = .done (.normal v) { m with scope := Machine.root, depth := 0 } := by
    show (Expr.eval setup budget e' >>= fun v => pure (Flow.normal v)) _ = _
    rw [Run.bind_of_done heval]
    rfl
  rw [Program.run, Program.results, Run.bind_of_done hexec]
  rfl

end Scriptlet
