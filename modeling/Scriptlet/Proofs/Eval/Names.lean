/-
Which names frames bind, and when that changes. A name comes to a frame only when
a `let` or a function declaration runs directly in it. Everything else leaves the
names of every frame as they were, in their order, also when it ends in a fault:
an assignment finds its name bound already, and a block or a call binds in a frame
of its own.

# From machines to programs

`Machine.Retains` says this of two machines: the frames of the first stand in the
second with the same frame around them and the same names, one frame excepted at
most. It is kept by every move (`Machine.retains_kept`), so it holds of every run.
What a statement adds to its own frame is then read off its last move, and what a
program adds to the outermost frame follows statement by statement.
-/
import Scriptlet.Host.Prelude
import Scriptlet.Proofs.Eval.Rest

namespace Scriptlet

-- ========================================================== frames

/-- To have a key is to have it among the keys. -/
theorem Entries.has_iff_mem_keys {κ α : Type} [DecidableEq κ] (key : κ) (entries : Entries κ α) :
    entries.has key = true ↔ key ∈ entries.keys := by
  induction entries with
  | nil => simp [has, get?, keys]
  | cons entry rest ih =>
    obtain ⟨k, v⟩ := entry
    by_cases hk : k = key
    · simp [has, get?, keys, hk]
    · simp only [has, keys] at ih
      simp [has, get?, keys, hk, ih, Ne.symm hk]

namespace Heap

/-- A name that is bound comes last if it is new to its frame. -/
theorem names_define (heap : Heap) {frame : Nat} (hframe : frame < heap.size) (name : String)
    (value : Value) :
    (heap.define frame name value).names frame
      = if name ∈ heap.names frame then heap.names frame else heap.names frame ++ [name] := by
  unfold names
  rw [getElem?_define, if_pos rfl, Array.getElem?_eq_getElem hframe]
  simp only [Option.map_some, Entries.keys_put, Entries.has_iff_mem_keys]

/-- Other frames than the one that is written to keep their names. -/
theorem names_define_of_ne (heap : Heap) {frame i : Nat} (h : frame ≠ i) (name : String)
    (value : Value) : (heap.define frame name value).names i = heap.names i := by
  unfold names
  rw [getElem?_define, if_neg h]

/-- A name that its frame binds already leaves the names as they are. -/
theorem names_define_of_mem (heap : Heap) {frame : Nat} {name : String}
    (h : name ∈ heap.names frame) (value : Value) (i : Nat) :
    (heap.define frame name value).names i = heap.names i := by
  by_cases hi : frame = i
  · subst hi
    have hframe : frame < heap.size := by
      refine Nat.lt_of_not_le fun hout => ?_
      rw [names, Array.getElem?_eq_none hout] at h
      cases h
    rw [names_define heap hframe, if_pos h]
  · exact names_define_of_ne heap hi name value

private theorem names_alloc (heap : Heap) (parent : Option Nat) (bindings : Entries String Value)
    {i : Nat}
    (hi : i < heap.size) : (heap.alloc parent bindings).names i = heap.names i := by
  unfold names
  rw [getElem?_alloc, if_neg (Nat.ne_of_lt hi)]

/-- The frame that a name is found in binds it. -/
theorem mem_names_of_find? {heap : Heap} {frame owner : Nat} {name : String} {v : Value}
    (h : heap.find? frame name = some (owner, v)) : name ∈ heap.names owner := by
  obtain ⟨f, hframe, hfound⟩ := Heap.get?_of_find? h
  rw [names, hframe]
  refine (Entries.has_iff_mem_keys _ _).1 ?_
  rw [Entries.has, hfound]
  rfl

end Heap

-- ======================================================== retaining

/-- The frames of a machine are there still, each inside the same frame and with
the same names; only the frame `changing` may have other names. -/
structure Machine.Retains (changing : Option Nat) (m m' : Machine) : Prop where
  scope : m'.scope = m.scope
  grown : m.heap.size ≤ m'.heap.size
  parent : ∀ i < m.heap.size, m'.heap.parent i = m.heap.parent i
  names : ∀ i < m.heap.size, some i ≠ changing → m'.heap.names i = m.heap.names i

namespace Machine.Retains

variable {changing : Option Nat} {m m' m'' : Machine}

/-- A machine retains its names while nothing happens. -/
theorem refl (changing : Option Nat) (m : Machine) : m.Retains changing m :=
  ⟨rfl, Nat.le_refl _, fun _ _ => rfl, fun _ _ _ => rfl⟩

/-- What retains the names twice retains them. -/
theorem trans (h : m.Retains changing m') (h' : m'.Retains changing m'') :
    m.Retains changing m'' where
  scope := h'.scope.trans h.scope
  grown := Nat.le_trans h.grown h'.grown
  parent i hi := (h'.parent i (Nat.lt_of_lt_of_le hi h.grown)).trans (h.parent i hi)
  names i hi hne := (h'.names i (Nat.lt_of_lt_of_le hi h.grown) hne).trans (h.names i hi hne)

/-- Names that no frame may lose or gain are also kept where one frame may gain some. -/
theorem widen (h : m.Retains none m') (changing : Option Nat) : m.Retains changing m' :=
  ⟨h.scope, h.grown, h.parent, fun i hi _ => h.names i hi nofun⟩

/-- A move that leaves the heap and the current frame alone. -/
theorem of_heap_eq (hheap : m'.heap = m.heap) (hscope : m'.scope = m.scope) :
    m.Retains none m' where
  scope := hscope
  grown := Nat.le_of_eq (by rw [hheap])
  parent _ _ := by rw [hheap]
  names _ _ _ := by rw [hheap]

/-- Binding a name changes the names of its own frame at most. -/
theorem defined (m : Machine) (frame : Nat) (name : String) (value : Value) :
    m.Retains (some frame) (m.defined frame name value) where
  scope := rfl
  grown := Nat.le_of_eq (Heap.size_define _ _ _ _).symm
  parent i _ := Heap.parent_define _ _ _ _ i
  names _ _ hne := Heap.names_define_of_ne _ (fun h => hne (congrArg some h.symm)) name value

/-- Changing what a name means changes no names. -/
theorem assigned {name : String} {owner : Nat} {old : Value} (value : Value)
    (h : m.heap.find? m.scope name = some (owner, old)) :
    m.Retains none (m.defined owner name value) where
  scope := rfl
  grown := Nat.le_of_eq (Heap.size_define _ _ _ _).symm
  parent i _ := Heap.parent_define _ _ _ _ i
  names i _ _ := Heap.names_define_of_mem _ (Heap.mem_names_of_find? h) value i

/-- What is bound in a new frame is not bound in the frames before it. -/
theorem leave {parent : Nat} {bindings : Entries String Value}
    (h : (m.entered parent bindings).Retains (some (m.entered parent bindings).scope) m') :
    m.Retains none { m' with scope := m.scope } := by
  have hsize : (m.entered parent bindings).heap.size = m.heap.size + 1 := Heap.size_alloc _ _ _
  have hgrown := h.grown
  rw [hsize] at hgrown
  refine ⟨rfl, Nat.le_of_succ_le hgrown, fun i hi => ?_, fun i hi _ => ?_⟩
  · exact (h.parent i (hsize ▸ Nat.lt_succ_of_lt hi)).trans (Heap.parent_alloc _ _ _ hi)
  · have hne : some i ≠ some (m.entered parent bindings).scope :=
      fun heq => Nat.ne_of_lt hi (Option.some.inj heq)
    exact (h.names i (hsize ▸ Nat.lt_succ_of_lt hi) hne).trans (Heap.names_alloc _ _ _ hi)

end Machine.Retains

/-- Names come to the current frame only. -/
theorem Machine.retains_kept :
    Run.Kept (Machine.Retains none) fun m => m.Retains (some m.scope) where
  refl := .refl none
  trans := .trans
  widen h := h.widen _
  trans' h h' := h.trans (h.scope ▸ h')
  define m := .defined m m.scope
  assign value h := .assigned value h
  leave := .leave
  return_ h := ⟨h.scope, h.grown, h.parent, h.names⟩
  make _ := .of_heap_eq rfl rfl
  write _ _ := .of_heap_eq rfl rfl

-- ====================================================== statements

/-- The names that statements in a row add to a frame with the given names, in the
order in which they come. -/
def Program.adds (program : Program) (names : List String) : List String :=
  ((program.filterMap Stmt.declares?).filter (· ∉ names)).eraseDups

/-- A declaration adds its name if it is new. -/
theorem Program.adds_declaration {s : Stmt} {name : String} (hs : s.declares? = some name)
    (names : List String) : Program.adds [s] names = if name ∈ names then [] else [name] := by
  by_cases hmem : name ∈ names
  · simp [adds, hs, hmem]
  · simp [adds, hs, hmem, List.eraseDups_cons]

private theorem Program.adds_other {s : Stmt} (hs : s.declares? = none) (names : List String) :
    Program.adds [s] names = [] := by
  simp [adds, hs]

/-- What the first statement adds, the others do not add again. -/
theorem Program.adds_cons (s : Stmt) (rest : Program) (names : List String) :
    Program.adds (s :: rest) names
      = Program.adds [s] names ++ Program.adds rest (names ++ Program.adds [s] names) := by
  cases hs : s.declares? with
  | none =>
    rw [Program.adds_other hs, List.append_nil, List.nil_append, Program.adds,
      List.filterMap_cons_none hs]
    rfl
  | some name =>
    rw [Program.adds_declaration hs, Program.adds, List.filterMap_cons_some hs]
    by_cases hmem : name ∈ names
    · rw [if_pos hmem, List.append_nil, List.nil_append,
        List.filter_cons_of_neg (by simpa using hmem)]
      rfl
    · rw [if_neg hmem, List.filter_cons_of_pos (by simpa using hmem), List.eraseDups_cons,
        List.filter_filter]
      simp only [List.singleton_append, adds, List.mem_append, List.mem_singleton, not_or]
      congr 3
      funext other
      by_cases hother : other = name <;> simp [hother]

/-- A declaration first computes, and then binds its name as its last move. -/
theorem Stmt.exec_declaration {within across : Machine → Machine → Prop}
    (hR : Run.Kept within across) (setup : Setup) (budget : Nat) {s : Stmt} {name : String}
    (hs : s.declares? = some name) (m : Machine) :
    match Stmt.exec setup budget s m with
    | .done flow m' => flow = .normal .nil
        ∧ ∃ m₁ v, within m m₁ ∧ m' = m₁.defined m₁.scope name v
    | .failed _ m' => within m m'
    | .exhausted => True := by
  cases budget with
  | zero =>
    rw [Stmt.exec]
    trivial
  | succ budget =>
    rw [Stmt.exec]
    cases s with
    | let_ pos ident value =>
      cases hs
      have hvalue := Expr.eval_keeps hR setup budget value m
      simp only [Stmt.step, bind, Run.bind]
      cases heval : Expr.eval setup budget value m with
      | done v m₁ =>
        rw [heval] at hvalue
        exact ⟨rfl, m₁, v, hvalue, rfl⟩
      | failed fault m₁ =>
        rw [heval] at hvalue
        exact hvalue
      | exhausted => trivial
    | function pos code =>
      cases hs
      -- the closure is made first, then bound
      exact ⟨rfl, _, _, hR.make m, rfl⟩
    | _ => cases hs

/-- What a statement does to names: those of other frames stay, and to those of its
own frame it adds the one that it declares at most. -/
structure Stmt.Confined (s : Stmt) (m m' : Machine) : Prop where
  parent : ∀ i < m.heap.size, m'.heap.parent i = m.heap.parent i
  others : ∀ i < m.heap.size, i ≠ m.scope → m'.heap.names i = m.heap.names i
  own : m'.heap.names m.scope = m.heap.names m.scope
    ∨ ∃ name, s.declares? = some name ∧ m'.heap.names m.scope = m.heap.names m.scope ++ [name]

section Statements

variable {setup : Setup} {budget : Nat} {s : Stmt} {m m' : Machine}

/-- A statement that ends adds its name to the current frame. -/
theorem Stmt.exec_done_names {flow : Flow} (hscope : m.scope < m.heap.size)
    (h : Stmt.exec setup budget s m = .done flow m') :
    m.Retains (some m.scope) m' ∧ m'.heap.names m.scope
      = m.heap.names m.scope ++ Program.adds [s] (m.heap.names m.scope) := by
  cases hs : s.declares? with
  | none =>
    have hretains := Stmt.exec_keeps Machine.retains_kept setup budget hs m
    rw [h] at hretains
    rw [Program.adds_other hs, List.append_nil]
    exact ⟨hretains.widen _, hretains.names _ hscope nofun⟩
  | some name =>
    have hexec := Stmt.exec_declaration Machine.retains_kept setup budget hs m
    rw [h] at hexec
    obtain ⟨-, m₁, v, hfirst, rfl⟩ := hexec
    have hold : m₁.heap.names m.scope = m.heap.names m.scope := hfirst.names _ hscope nofun
    have hscope₁ : m.scope < m₁.heap.size := Nat.lt_of_lt_of_le hscope hfirst.grown
    rw [hfirst.scope]
    refine ⟨(hfirst.widen _).trans (.defined m₁ m.scope name v), ?_⟩
    rw [Machine.defined, Heap.names_define _ hscope₁, hold, Program.adds_declaration hs]
    split
    · rw [List.append_nil]
    · rfl

/-- A statement that does not end normally leaves all names as they were. -/
theorem Stmt.exec_stopped_retains (setup : Setup) (budget : Nat) (s : Stmt) (m : Machine) :
    match Stmt.exec setup budget s m with
    | .done flow m' => flow.signal? ≠ none → m.Retains none m'
    | .failed _ m' => m.Retains none m'
    | .exhausted => True := by
  cases hs : s.declares? with
  | none =>
    have hretains := Stmt.exec_keeps Machine.retains_kept setup budget hs m
    cases h : Stmt.exec setup budget s m with
    | exhausted => trivial
    | done flow m' =>
      rw [h] at hretains
      exact fun _ => hretains
    | failed fault m' =>
      rw [h] at hretains
      exact hretains
  | some name =>
    have hexec := Stmt.exec_declaration Machine.retains_kept setup budget hs m
    cases h : Stmt.exec setup budget s m with
    | exhausted => trivial
    | done flow m' =>
      rw [h] at hexec
      rw [hexec.1]
      exact fun hsignal => absurd rfl hsignal
    | failed fault m' =>
      rw [h] at hexec
      exact hexec

/-- However a statement ends, it is confined to its own frame. -/
theorem Stmt.exec_confined (setup : Setup) (budget : Nat) (s : Stmt)
    (hscope : m.scope < m.heap.size) :
    match Stmt.exec setup budget s m with
    | .done _ m' => s.Confined m m'
    | .failed _ m' => s.Confined m m'
    | .exhausted => True := by
  have hstopped := Stmt.exec_stopped_retains setup budget s m
  cases h : Stmt.exec setup budget s m with
  | exhausted => trivial
  -- a failed statement has declared nothing yet
  | failed fault m' =>
    rw [h] at hstopped
    have hretains : m.Retains none m' := hstopped
    exact ⟨hretains.parent, fun i hi _ => hretains.names i hi nofun,
      .inl (hretains.names _ hscope nofun)⟩
  | done flow m' =>
    obtain ⟨hretains, hown⟩ := Stmt.exec_done_names hscope h
    have hothers (i : Nat) (hi : i < m.heap.size) (hne : i ≠ m.scope) :
        m'.heap.names i = m.heap.names i :=
      hretains.names i hi fun heq => hne (Option.some.inj heq)
    refine ⟨hretains.parent, hothers, ?_⟩
    cases hs : s.declares? with
    | none =>
      rw [Program.adds_other hs, List.append_nil] at hown
      exact .inl hown
    | some name =>
      rw [Program.adds_declaration hs] at hown
      split at hown
      · rw [List.append_nil] at hown
        exact .inl hown
      · exact .inr ⟨name, rfl, hown⟩

end Statements

-- ======================================================== programs

namespace Program

variable {setup : Setup} {budget : Nat} {m m' : Machine}

/-- In a program that ends, every statement ends normally. -/
theorem results_cons_done {exec : Stmt → Run Flow} {s : Stmt} {rest : Program} {last v : Value}
    (h : results exec (s :: rest) last m = .done v m') :
    ∃ w m₁, exec s m = .done (.normal w) m₁
      ∧ results exec rest (if isResult s then w else last) m₁ = .done v m' := by
  simp only [results, bind, Run.bind] at h
  cases hexec : exec s m with
  | exhausted =>
    rw [hexec] at h
    cases h
  | failed fault m₁ =>
    rw [hexec] at h
    cases h
  | done flow m₁ =>
    rw [hexec] at h
    cases flow with
    | normal w => exact ⟨w, m₁, rfl, h⟩
    | _ => cases h

/-- In a program that is stopped, the first statement ends normally and the others are
stopped, or it is the one that is stopped, by a fault or by a signal of its own. -/
theorem results_cons_failed {exec : Stmt → Run Flow} {s : Stmt} {rest : Program} {last : Value}
    {fault : Fault} (h : results exec (s :: rest) last m = .failed fault m') :
    (∃ w m₁, exec s m = .done (.normal w) m₁
        ∧ results exec rest (if isResult s then w else last) m₁ = .failed fault m')
      ∨ ((exec s m = .failed fault m' ∨ ∃ flow, exec s m = .done flow m' ∧ flow.signal? ≠ none)
        ∧ ∀ last, results exec [s] last m = .failed fault m') := by
  simp only [results, bind, Run.bind] at h ⊢
  cases hexec : exec s m with
  | exhausted =>
    rw [hexec] at h
    cases h
  | failed fault' m₁ =>
    rw [hexec] at h
    cases h
    exact .inr ⟨.inl rfl, fun _ => rfl⟩
  | done flow m₁ =>
    rw [hexec] at h
    cases flow with
    | normal w => exact .inl ⟨w, m₁, rfl, h⟩
    | _ =>
      cases h
      exact .inr ⟨.inr ⟨_, rfl, nofun⟩, fun _ => rfl⟩

/-- A program that is stopped gets to the end of some of its statements, and the
next one is stopped. -/
theorem results_failed {exec : Stmt → Run Flow} {program : Program} {last : Value} {fault : Fault}
    (h : results exec program last m = .failed fault m') :
    ∃ before s after v k, program = before ++ s :: after
      ∧ results exec before last m = .done v k
      ∧ ∀ last, results exec [s] last k = .failed fault m' := by
  induction program generalizing m last with
  | nil => cases h
  | cons s rest ih =>
    rcases results_cons_failed h with ⟨w, m₁, hexec, hrest⟩ | ⟨-, hfails⟩
    · obtain ⟨before, s', after, v, k, rfl, hbefore, hfails⟩ := ih hrest
      exact ⟨s :: before, s', after, v, k, rfl, (Run.bind_of_done hexec).trans hbefore, hfails⟩
    · exact ⟨[], s, rest, last, m, rfl, rfl, hfails⟩

/-- A program that ends adds the names of its declarations to the current frame. -/
theorem results_done_names {program : Program} {last v : Value} (hscope : m.scope < m.heap.size)
    (h : results (Stmt.exec setup budget) program last m = .done v m') :
    m'.heap.names m.scope
      = m.heap.names m.scope ++ program.adds (m.heap.names m.scope) := by
  induction program generalizing m last with
  | nil =>
    cases h
    exact (List.append_nil _).symm
  | cons s rest ih =>
    obtain ⟨w, m₁, hexec, hrest⟩ := results_cons_done h
    obtain ⟨hretains, hown⟩ := Stmt.exec_done_names hscope hexec
    have hscope₁ : m₁.scope < m₁.heap.size :=
      hretains.scope ▸ Nat.lt_of_lt_of_le hscope hretains.grown
    have hnames := ih hscope₁ hrest
    rw [hretains.scope, hown] at hnames
    rw [hnames, adds_cons s rest, List.append_assoc]

/-- The statement that stops a program leaves all names as they were. -/
theorem results_single_failed {s : Stmt} {last : Value} {fault : Fault}
    (h : results (Stmt.exec setup budget) [s] last m = .failed fault m') :
    m.Retains none m' := by
  have hstopped := Stmt.exec_stopped_retains setup budget s m
  rcases results_cons_failed h with ⟨w, m₁, -, hrest⟩ | ⟨hexec | ⟨flow, hexec, hsignal⟩, -⟩
  · cases hrest
  · rw [hexec] at hstopped
    exact hstopped
  · rw [hexec] at hstopped
    exact hstopped hsignal

end Program

namespace Interpreter

variable {i j : Interpreter} {budget : Nat} {program : Program}

/-- No frame is lost. -/
theorem evalProgram_grown (i : Interpreter) (budget : Nat) (program : Program) :
    match i.evalProgram budget program with
    | .done _ j => i.machine.heap.size ≤ j.machine.heap.size
    | .failed _ j => i.machine.heap.size ≤ j.machine.heap.size
    | .exhausted => True := by
  have hkeeps := i.evalProgram_keeps Machine.retains_kept budget program
  cases hrun : i.evalProgram budget program with
  | exhausted => trivial
  | done v j =>
    rw [hrun] at hkeeps
    exact hkeeps.grown
  | failed failure j =>
    rw [hrun] at hkeeps
    exact hkeeps.grown

/-- Every state that an interpreter comes to has its outermost frame. -/
theorem Reached.root_lt {i : Interpreter} (h : i.Reached) :
    Machine.root < i.machine.heap.size := by
  induction h with
  | start host maxDepth layout => exact Nat.zero_lt_one
  | @done i j budget program v _ run ih =>
    have hgrown := evalProgram_grown i budget program
    rw [run] at hgrown
    exact Nat.lt_of_lt_of_le ih hgrown
  | @failed i j budget program f _ run ih =>
    have hgrown := evalProgram_grown i budget program
    rw [run] at hgrown
    exact Nat.lt_of_lt_of_le ih hgrown
  | define _ name value ih => exact Nat.lt_of_lt_of_eq ih (Heap.size_define _ _ _ _).symm
  | @assign i j name value _ assigned ih =>
    simp only [Interpreter.assign, Heap.assign] at assigned
    cases hfound : i.machine.heap.find? Machine.root name with
    | none =>
      rw [hfound] at assigned
      cases assigned
    | some found =>
      rw [hfound] at assigned
      cases assigned
      exact Nat.lt_of_lt_of_eq ih (Heap.size_define _ _ _ _).symm
  | cleared _ ih => exact ih

/-- The root has the names it had, and then those that the program declares, in order and
each once. -/
private theorem evalProgram_done_names (hroot : Machine.root < i.machine.heap.size) {v : Value}
    (h : i.evalProgram budget program = .done v j) :
    j.names = i.names ++ program.adds i.names := by
  obtain ⟨m, hrun, rfl⟩ := evalProgram_eq_done.1 h
  exact Program.results_done_names (m := i.atRest.machine) hroot hrun

/-- A program that fails is one that succeeds, then a statement that fails, and
then statements that are not executed. -/
theorem evalProgram_stopped {failure : Failure}
    (h : i.evalProgram budget program = .failed failure j) :
    ∃ before s after v k, program = before ++ s :: after
      ∧ i.evalProgram budget before = .done v k
      ∧ k.evalProgram budget [s] = .failed failure j
      ∧ k.machine.Retains none j.machine := by
  obtain ⟨fault, m, hrun, rfl, rfl⟩ := evalProgram_eq_failed.1 h
  obtain ⟨before, s, after, v, k, rfl, hbefore, hfails⟩ := Program.results_failed hrun
  have hdone : i.evalProgram budget before = .done v { i with machine := k } :=
    evalProgram_eq_done.2 ⟨k, hbefore, rfl⟩
  have hlevel := i.evalProgram_level budget before
  rw [hdone] at hlevel
  have hrest : ({ i with machine := k } : Interpreter).atRest = { i with machine := k } :=
    atRest_eq_self hlevel.1 hlevel.2
  refine ⟨before, s, after, v, { i with machine := k }, rfl, hdone, ?_,
    Program.results_single_failed (hfails .nil)⟩
  exact evalProgram_eq_failed.2 ⟨fault, m, hrest.symm ▸ hfails .nil, rfl, rfl⟩

/-- Bindings do not leak, whatever the machine. Expressions leave the names of all
frames as they were. A statement changes those of its own frame at most, and adds
the one that it declares at most. So a program that succeeds adds the names of its
own declarations to the outermost frame, in their order and each only once; and one
that fails adds those of the statements before the one that failed. All that is asked
is that there is an outermost frame, as in every state that an interpreter comes to
(`Reached.root_lt`). -/
theorem evalProgram_names (i : Interpreter) (hroot : Machine.root < i.machine.heap.size)
    (budget : Nat) :
    (∀ e, Run.Keeps (Machine.Retains none) (Expr.eval i.setup budget e))
      ∧ (∀ (s : Stmt) (m : Machine), m.scope < m.heap.size →
        match Stmt.exec i.setup budget s m with
        | .done _ m' => s.Confined m m'
        | .failed _ m' => s.Confined m m'
        | .exhausted => True)
      ∧ ∀ program : Program, match i.evalProgram budget program with
        | .done _ j => j.names = i.names ++ program.adds i.names
        | .failed failure j => ∃ (before : Program) (s : Stmt) (after : Program) (v : Value)
            (k : Interpreter), program = before ++ s :: after
              ∧ i.evalProgram budget before = .done v k
              ∧ k.evalProgram budget [s] = .failed failure j
              ∧ j.names = i.names ++ before.adds i.names
        | .exhausted => True := by
  refine ⟨fun e => Expr.eval_keeps Machine.retains_kept i.setup budget e,
    fun s m hscope => Stmt.exec_confined i.setup budget s hscope, fun program => ?_⟩
  cases hrun : i.evalProgram budget program with
  | exhausted => trivial
  | done v j => exact evalProgram_done_names hroot hrun
  | failed failure j =>
    -- the names are those the statements before the failing one left behind
    obtain ⟨before, s, after, v, k, hsplit, hbefore, hfails, hretains⟩ := evalProgram_stopped hrun
    have hk : Machine.root < k.machine.heap.size := by
      have hgrown := evalProgram_grown i budget before
      rw [hbefore] at hgrown
      exact Nat.lt_of_lt_of_le hroot hgrown
    have hnames : j.names = k.names := hretains.names _ hk nofun
    refine ⟨before, s, after, v, k, hsplit, hbefore, hfails, ?_⟩
    rw [hnames, evalProgram_done_names hroot hbefore]

/-- A program that binds in a block what it also binds outside, and declares a
function by the name of a routine. -/
def shadowing : Program :=
  [.let_ .start "x" (.literal .start .nil),
    .block .start [.let_ .start "y" (.literal .start .nil), .let_ .start "x" (.literal .start .nil)],
    .function .start ⟨some "len", [], [], .start⟩, .let_ .start "z" (.literal .start .nil)]

/-- The theorem there: the root gains the names it did not have, and those of the block are
gone. -/
theorem evalProgram_names_shadowing :
    Machine.root < (start Prelude.host 200 {}).machine.heap.size
      ∧ ∃ v j, (start Prelude.host 200 {}).evalProgram 5 shadowing = .done v j
        ∧ j.names = ["print", "println", "len", "str", "type", "range", "push", "keys", "values",
            "contains", "x", "z"] := by
  have hroot := (Reached.start Prelude.host 200 {}).root_lt
  obtain ⟨-, -, hprogram⟩ := evalProgram_names (start Prelude.host 200 {}) hroot 5
  have hnames := hprogram shadowing
  cases hrun : (start Prelude.host 200 {}).evalProgram 5 shadowing with
  | exhausted => cases hrun
  | failed failure j => cases hrun
  | done v j =>
    rw [hrun] at hnames
    have hadds : shadowing.adds (start Prelude.host 200 {}).names = ["x", "z"] := by decide
    rw [hadds] at hnames
    exact ⟨hroot, v, j, rfl, hnames⟩

end Interpreter

end Scriptlet
