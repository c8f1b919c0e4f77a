/-
Tokens and trees with their positions moved. A map on positions acts on
everything that carries positions and leaves the rest alone. Two maps matter:
`Position.down`, which says what becomes of a text when other lines are put in
front of it, and the map that sends every position to the start. Trees are the
same up to positions when the second one makes them equal (`unplaced`).

The lemmas here say that moving is a functor: moving by the identity does
nothing, and moving twice is moving by the composition.
-/
import Scriptlet.Grammar

namespace Scriptlet

variable (f g : Position → Position)

/-- The position so many lines further down. -/
def Position.down (lines : Nat) (pos : Position) : Position := ⟨pos.line + lines, pos.column⟩

-- ========================================================== tokens

def Token.moved (t : Token) : Token := { t with pos := f t.pos }

@[simp] theorem Token.moved_kind (t : Token) : (t.moved f).kind = t.kind := rfl

@[simp] theorem Token.moved_lexeme (t : Token) : (t.moved f).lexeme = t.lexeme := rfl

@[simp] theorem Token.moved_pos (t : Token) : (t.moved f).pos = f t.pos := rfl

def Found.moved : Found → Found
  | .token t => .token (t.moved f)
  | found => found

def ParseError.moved (e : ParseError) : ParseError := ⟨e.expected, e.found.moved f, f e.pos⟩

-- =========================================================== trees

def Param.moved (p : Param) : Param := { p with pos := f p.pos }

mutual

/-- The expression with all its positions moved. -/
def Expr.moved (f : Position → Position) : Expr → Expr
  | .literal pos value => .literal (f pos) value
  | .list pos items => .list (f pos) (Expr.movedItems f items)
  | .map pos entries => .map (f pos) (Expr.movedEntries f entries)
  | .name pos name => .name (f pos) name
  | .unary pos op operand => .unary (f pos) op (operand.moved f)
  | .binary pos op left right => .binary (f pos) op (left.moved f) (right.moved f)
  | .logical pos op left right => .logical (f pos) op (left.moved f) (right.moved f)
  | .call pos callee args => .call (f pos) (callee.moved f) (Expr.movedItems f args)
  | .index pos collection key => .index (f pos) (collection.moved f) (key.moved f)
  | .function pos code => .function (f pos) (code.moved f)

def Expr.movedItems (f : Position → Position) : List Expr → List Expr
  | [] => []
  | e :: rest => e.moved f :: Expr.movedItems f rest

def Expr.movedEntries (f : Position → Position) : List (Expr × Expr) → List (Expr × Expr)
  | [] => []
  | (key, value) :: rest => (key.moved f, value.moved f) :: Expr.movedEntries f rest

/-- The statement with all its positions moved. -/
def Stmt.moved (f : Position → Position) : Stmt → Stmt
  | .let_ pos name value => .let_ (f pos) name (value.moved f)
  | .assign pos target op value => .assign (f pos) (target.moved f) op (value.moved f)
  | .expr pos value => .expr (f pos) (value.moved f)
  | .if_ pos condition yes none =>
      .if_ (f pos) (condition.moved f) (Stmt.movedBody f yes) none
  | .if_ pos condition yes (some no) =>
      .if_ (f pos) (condition.moved f) (Stmt.movedBody f yes) (some (Stmt.movedBody f no))
  | .while_ pos condition body => .while_ (f pos) (condition.moved f) (Stmt.movedBody f body)
  | .for_ pos name iterable body =>
      .for_ (f pos) name (iterable.moved f) (Stmt.movedBody f body)
  | .function pos code => .function (f pos) (code.moved f)
  | .return_ pos none => .return_ (f pos) none
  | .return_ pos (some value) => .return_ (f pos) (some (value.moved f))
  | .break_ pos => .break_ (f pos)
  | .continue_ pos => .continue_ (f pos)
  | .block pos body => .block (f pos) (Stmt.movedBody f body)

def Stmt.movedBody (f : Position → Position) : List Stmt → List Stmt
  | [] => []
  | s :: rest => s.moved f :: Stmt.movedBody f rest

/-- The function with all its positions moved. -/
def Code.moved (f : Position → Position) : Code → Code
  | ⟨name, params, body, pos⟩ =>
      ⟨name, params.map (Param.moved f), Stmt.movedBody f body, f pos⟩

end

/-- The program with all its positions moved. -/
abbrev Program.moved (program : Program) : Program := Stmt.movedBody f program

/-- The expression without its positions. -/
abbrev Expr.unplaced (e : Expr) : Expr := e.moved fun _ => .start

/-- The statement without its positions. -/
abbrev Stmt.unplaced (s : Stmt) : Stmt := s.moved fun _ => .start

/-- The function without its positions. -/
abbrev Code.unplaced (code : Code) : Code := code.moved fun _ => .start

/-- The program without its positions. -/
abbrev Program.unplaced (program : Program) : Program := program.moved fun _ => .start

-- =========================================================== lists

/-- The mutual definition goes through items, entries and bodies by itself; these say that
it maps over them. -/
@[simp] theorem Expr.movedItems_eq_map (items : List Expr) :
    Expr.movedItems f items = items.map (Expr.moved f) := by
  induction items with
  | nil => rfl
  | cons e rest ih => rw [Expr.movedItems, ih, List.map_cons]

@[simp] theorem Expr.movedEntries_eq_map (entries : List (Expr × Expr)) :
    Expr.movedEntries f entries = entries.map fun e => (e.1.moved f, e.2.moved f) := by
  induction entries with
  | nil => rfl
  | cons e rest ih => rw [Expr.movedEntries, ih, List.map_cons]

@[simp] theorem Stmt.movedBody_eq_map (body : List Stmt) :
    Stmt.movedBody f body = body.map (Stmt.moved f) := by
  induction body with
  | nil => rfl
  | cons s rest ih => rw [Stmt.movedBody, ih, List.map_cons]

/-- A node stands where its moved form says, and everything else about it is kept. -/
@[simp] theorem Expr.moved_pos (e : Expr) : (e.moved f).pos = f e.pos := by
  cases e <;> rfl

@[simp] theorem Stmt.moved_pos (s : Stmt) : (s.moved f).pos = f s.pos := by
  cases s with
  | if_ pos condition yes no => cases no <;> rfl
  | return_ pos value => cases value <;> rfl
  | _ => rfl

@[simp] theorem Code.moved_name (code : Code) : (code.moved f).name = code.name := by
  cases code
  rfl

@[simp] theorem Code.moved_params (code : Code) :
    (code.moved f).params = code.params.map (Param.moved f) := by
  cases code
  rfl

@[simp] theorem Code.moved_body (code : Code) :
    (code.moved f).body = Stmt.movedBody f code.body := by
  cases code
  rfl

@[simp] theorem Code.moved_arity (code : Code) : (code.moved f).arity = code.arity := by
  simp [Code.arity]

/-- The title names a function in errors, so a fault about it reads the same after a
move. -/
@[simp] theorem Code.moved_title (code : Code) : (code.moved f).title = code.title := by
  simp [Code.title]

-- ======================================================= induction

section Induction

variable {P : Expr → Prop} {Q : Stmt → Prop} {R : Code → Prop}

/-- What an induction over trees has to show: one case for each form, with the
parts in lists taken together. -/
structure Tree.Cases (P : Expr → Prop) (Q : Stmt → Prop) (R : Code → Prop) : Prop where
  literal : ∀ pos value, P (.literal pos value)
  list : ∀ pos items, (∀ e ∈ items, P e) → P (.list pos items)
  map : ∀ pos entries, (∀ e ∈ entries, P e.1 ∧ P e.2) → P (.map pos entries)
  name : ∀ pos name, P (.name pos name)
  unary : ∀ pos op e, P e → P (.unary pos op e)
  binary : ∀ pos op left right, P left → P right → P (.binary pos op left right)
  logical : ∀ pos op left right, P left → P right → P (.logical pos op left right)
  call : ∀ pos callee args, P callee → (∀ e ∈ args, P e) → P (.call pos callee args)
  index : ∀ pos collection key, P collection → P key → P (.index pos collection key)
  function : ∀ pos code, R code → P (.function pos code)
  let_ : ∀ pos name value, P value → Q (.let_ pos name value)
  assign : ∀ pos target op value, P target → P value → Q (.assign pos target op value)
  expr : ∀ pos value, P value → Q (.expr pos value)
  ifOnly : ∀ pos condition yes, P condition → (∀ s ∈ yes, Q s) → Q (.if_ pos condition yes none)
  ifElse : ∀ pos condition yes no, P condition → (∀ s ∈ yes, Q s) → (∀ s ∈ no, Q s) →
    Q (.if_ pos condition yes (some no))
  while_ : ∀ pos condition body, P condition → (∀ s ∈ body, Q s) → Q (.while_ pos condition body)
  for_ : ∀ pos name iterable body, P iterable → (∀ s ∈ body, Q s) →
    Q (.for_ pos name iterable body)
  declare : ∀ pos code, R code → Q (.function pos code)
  returnNone : ∀ pos, Q (.return_ pos none)
  returnSome : ∀ pos value, P value → Q (.return_ pos (some value))
  break_ : ∀ pos, Q (.break_ pos)
  continue_ : ∀ pos, Q (.continue_ pos)
  block : ∀ pos body, (∀ s ∈ body, Q s) → Q (.block pos body)
  code : ∀ name params body pos, (∀ s ∈ body, Q s) → R ⟨name, params, body, pos⟩

mutual

/-- Induction over trees, with one case for each form of node. The functions inside a tree
are part of the induction, so a fact about all nodes reaches into their bodies. -/
theorem Tree.Cases.ofExpr (h : Tree.Cases P Q R) : ∀ e, P e
  | .literal pos value => h.literal pos value
  | .list pos items => h.list pos items (h.ofItems items)
  | .map pos entries => h.map pos entries (h.ofEntries entries)
  | .name pos name => h.name pos name
  | .unary pos op e => h.unary pos op e (h.ofExpr e)
  | .binary pos op left right => h.binary pos op left right (h.ofExpr left) (h.ofExpr right)
  | .logical pos op left right => h.logical pos op left right (h.ofExpr left) (h.ofExpr right)
  | .call pos callee args => h.call pos callee args (h.ofExpr callee) (h.ofItems args)
  | .index pos collection key => h.index pos collection key (h.ofExpr collection) (h.ofExpr key)
  | .function pos code => h.function pos code (h.ofCode code)

/-- The items of a list, by recursion on the list beside that on the tree. -/
private theorem Tree.Cases.ofItems (h : Tree.Cases P Q R) : ∀ items : List Expr, ∀ e ∈ items, P e
  | [] => fun _ he => nomatch he
  | first :: rest => List.forall_mem_cons.2 ⟨h.ofExpr first, h.ofItems rest⟩

private theorem Tree.Cases.ofEntries (h : Tree.Cases P Q R) :
    ∀ entries : List (Expr × Expr), ∀ e ∈ entries, P e.1 ∧ P e.2
  | [] => fun _ he => nomatch he
  | (key, value) :: rest =>
      List.forall_mem_cons.2 ⟨⟨h.ofExpr key, h.ofExpr value⟩, h.ofEntries rest⟩

/-- The same for statements. -/
theorem Tree.Cases.ofStmt (h : Tree.Cases P Q R) : ∀ s, Q s
  | .let_ pos name value => h.let_ pos name value (h.ofExpr value)
  | .assign pos target op value =>
      h.assign pos target op value (h.ofExpr target) (h.ofExpr value)
  | .expr pos value => h.expr pos value (h.ofExpr value)
  | .if_ pos condition yes none => h.ifOnly pos condition yes (h.ofExpr condition) (h.ofBody yes)
  | .if_ pos condition yes (some no) =>
      h.ifElse pos condition yes no (h.ofExpr condition) (h.ofBody yes) (h.ofBody no)
  | .while_ pos condition body => h.while_ pos condition body (h.ofExpr condition) (h.ofBody body)
  | .for_ pos name iterable body =>
      h.for_ pos name iterable body (h.ofExpr iterable) (h.ofBody body)
  | .function pos code => h.declare pos code (h.ofCode code)
  | .return_ pos none => h.returnNone pos
  | .return_ pos (some value) => h.returnSome pos value (h.ofExpr value)
  | .break_ pos => h.break_ pos
  | .continue_ pos => h.continue_ pos
  | .block pos body => h.block pos body (h.ofBody body)

/-- The statements of a body, likewise. -/
private theorem Tree.Cases.ofBody (h : Tree.Cases P Q R) : ∀ body : List Stmt, ∀ s ∈ body, Q s
  | [] => fun _ hs => nomatch hs
  | first :: rest => List.forall_mem_cons.2 ⟨h.ofStmt first, h.ofBody rest⟩

/-- And for the code of functions. -/
theorem Tree.Cases.ofCode (h : Tree.Cases P Q R) : ∀ code, R code
  | ⟨name, params, body, pos⟩ => h.code name params body pos (h.ofBody body)

end

end Induction

-- ========================================================= functor

/-- A list is left alone by a map when each of its items is. -/
theorem map_eq_self_iff {α : Type} {h : α → α} {xs : List α} :
    xs.map h = xs ↔ ∀ x ∈ xs, h x = x := by
  induction xs with
  | nil => simp
  | cons x xs ih => simp [ih]

/-- A map that fixes each item fixes the list. -/
theorem map_eq_self {α : Type} {h : α → α} {xs : List α} (hxs : ∀ x ∈ xs, h x = x) :
    xs.map h = xs :=
  map_eq_self_iff.2 hxs

/-- Moving nowhere changes nothing. -/
theorem Tree.moved_id :
    Tree.Cases (fun e => e.moved id = e) (fun s => s.moved id = s) (fun c => c.moved id = c) := by
  have hparam : Param.moved id = id := rfl
  constructor
  case map =>
    intro pos entries h
    have hpair : ∀ e ∈ entries, (e.1.moved id, e.2.moved id) = e := fun e he => by
      rw [(h e he).1, (h e he).2]
    rw [Expr.moved, Expr.movedEntries_eq_map, map_eq_self hpair, id]
  all_goals
    intros
    simp_all [Expr.moved, Stmt.moved, Code.moved, map_eq_self]

/-- Two moves are one. -/
theorem Tree.moved_moved :
    Tree.Cases (fun e => (e.moved f).moved g = e.moved (g ∘ f))
      (fun s => (s.moved f).moved g = s.moved (g ∘ f))
      (fun c => (c.moved f).moved g = c.moved (g ∘ f)) := by
  constructor
  case map =>
    intro pos entries h
    have hpair : ∀ e ∈ entries, ((e.1.moved f).moved g, (e.2.moved f).moved g)
        = (e.1.moved (g ∘ f), e.2.moved (g ∘ f)) := fun e he => by
      rw [(h e he).1, (h e he).2]
    simp only [Expr.moved, Expr.movedEntries_eq_map, List.map_map]
    exact congrArg _ (List.map_congr_left hpair)
  all_goals
    intros
    simp_all [Expr.moved, Stmt.moved, Code.moved, Param.moved]

/-- Moving all statements by the identity changes nothing. -/
@[simp] theorem Program.moved_id (program : Program) : program.moved id = program := by
  rw [Program.moved, Stmt.movedBody_eq_map, map_eq_self fun s _ => Tree.moved_id.ofStmt s]

/-- Moving a program twice is moving it by the composition. -/
theorem Program.moved_moved (program : Program) :
    (program.moved f).moved g = program.moved (g ∘ f) := by
  simp only [Program.moved, Stmt.movedBody_eq_map, List.map_map]
  exact List.map_congr_left fun s _ => (Tree.moved_moved f g).ofStmt s

/-- Wherever a program stands, it is the same without its positions. -/
@[simp] theorem Program.unplaced_moved (program : Program) :
    (program.moved f).unplaced = program.unplaced :=
  Program.moved_moved f _ program

end Scriptlet
