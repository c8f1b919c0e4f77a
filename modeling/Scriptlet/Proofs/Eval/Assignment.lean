/-
An assignment writes once, and last. The keys of its target are evaluated, then what the
target is if an operator asks for it, then the right side; only then is the name of the
target looked up for writing, and its one binding changed. So whatever the keys and the
right side did to the same collection is there when the slot is replaced, and an
assignment that fails has written nothing of its own.

# The order of things

`Eval.place_eq` says that a place is its keys evaluated in a row, and `Stmt.exec_assign_eq`
puts an assignment together from the parts that are evaluated. What is left is the store,
which is one binding changed in the nearest frame that has one (`Heap.Nearest`,
`Machine.Rebinds`).
-/
import Scriptlet.Proofs.Eval.Frames
import Scriptlet.Proofs.Value.Lens

namespace Scriptlet

variable {α β : Type}

-- ======================================================== bindings

/-- One binding of the first machine is another value in the second; no other binding, name
or frame is different, nor anything else of the machine. -/
structure Machine.Rebinds (m : Machine) (owner : Nat) (name : String) (old new : Value)
    (m' : Machine) : Prop where
  was : m.heap.binding? owner name = some old
  now : m'.heap.binding? owner name = some new
  others : ∀ i other, i ≠ owner ∨ other ≠ name →
    m'.heap.binding? i other = m.heap.binding? i other
  names : ∀ i, m'.heap.names i = m.heap.names i
  parent : ∀ i, m'.heap.parent i = m.heap.parent i
  size : m'.heap.size = m.heap.size
  rest : m' = { m with heap := m'.heap }

private theorem Machine.rebinds_defined {m : Machine} {owner : Nat} {name : String} {old : Value}
    (h : m.heap.find? m.scope name = some (owner, old)) (new : Value) :
    m.Rebinds owner name old new (m.defined owner name new) := by
  have hwas := (Heap.nearest_of_find? h).binding?
  have hbinding := Heap.binding?_define m.heap (Heap.lt_size_of_binding? hwas) name new
  refine ⟨hwas, ?_, fun i other hne => ?_, Heap.names_define_of_mem _ (Heap.mem_names_of_find? h) _,
    Heap.parent_define _ _ _ _, Heap.size_define _ _ _ _, rfl⟩
  · exact (hbinding owner name).trans (if_pos ⟨rfl, rfl⟩)
  · refine (hbinding i other).trans (if_neg fun hboth => ?_)
    exact hne.elim (fun hi => hi hboth.1) fun hother => hother hboth.2

/-- No other name means anything else, from wherever it is looked up. -/
theorem Machine.Rebinds.find? {m m' : Machine} {owner : Nat} {name : String} {old new : Value}
    (h : m.Rebinds owner name old new m') {other : String} (hne : other ≠ name) (frame : Nat) :
    m'.heap.find? frame other = m.heap.find? frame other :=
  Heap.find?_congr (fun i => h.others i other (.inr hne)) h.parent frame

-- ========================================================= places

/-- What the index steps of an expression begin at. -/
def Expr.base : Expr → Expr
  | .index _ collection _ => collection.base
  | e => e

/-- The index steps of an expression from the inside out, each a key and its position. -/
def Expr.steps : Expr → List (Expr × Position)
  | .index pos collection key => collection.steps ++ [(key, pos)]
  | _ => []

/-- The keys of the index steps, from left to right. -/
def Expr.keys (e : Expr) : List Expr := e.steps.map Prod.fst

/-- The key of an index step is the last one, since the collection is resolved first. -/
theorem Expr.keys_index (pos : Position) (collection key : Expr) :
    (Expr.index pos collection key).keys = collection.keys ++ [key] := by
  simp [Expr.keys, Expr.steps]

/-- A place begins at a name. -/
theorem Expr.exists_base :
    ∀ target : Expr, target.IsPlace = true → ∃ pos name, target.base = .name pos name
  | .name pos ident, _ => ⟨pos, ident, rfl⟩
  | .index _ collection _, h => Expr.exists_base collection h

/-- Computations in a row may be grouped in any way. -/
instance : LawfulMonad Run := by
  refine .mk' Run (fun x => ?_) (fun a k => rfl) (fun x k l => ?_)
  · funext m
    show Run.bind x Run.pure m = x m
    unfold Run.bind Run.pure
    cases x m <;> rfl
  · funext m
    show Run.bind (Run.bind x k) l m = Run.bind x (fun a => Run.bind (k a) l) m
    simp only [Run.bind]
    cases x m <;> rfl

namespace Eval

/-- Expressions in a row are evaluated in that order, the last one last. -/
theorem list_concat (eval : Expr → Run Value) (items : List Expr) (e : Expr) :
    list eval (items ++ [e]) = do
      let vs ← list eval items
      let v ← eval e
      return vs ++ [v] := by
  induction items with
  | nil => simp [list]
  | cons first rest ih => simp [list, ih]

/-- Each expression in a row gives one value. -/
theorem list_length {eval : Expr → Run Value} {items : List Expr} {m m' : Machine}
    {vs : List Value} (h : list eval items m = .done vs m') : vs.length = items.length := by
  induction items generalizing m vs with
  | nil =>
    cases h
    rfl
  | cons e rest ih =>
    simp only [list, bind, Run.bind] at h
    cases hfirst : eval e m with
    | exhausted =>
      rw [hfirst] at h
      cases h
    | failed fault m₁ =>
      rw [hfirst] at h
      cases h
    | done v m₁ =>
      simp only [hfirst] at h
      cases hrest : list eval rest m₁ with
      | exhausted =>
        rw [hrest] at h
        cases h
      | failed fault m₂ =>
        rw [hrest] at h
        cases h
      | done ws m₂ =>
        rw [hrest] at h
        cases h
        exact congrArg (· + 1) (ih hrest)

/-- The keys of a target have been evaluated, from left to right, and give its place. -/
structure Finds (eval : Expr → Run Value) (target : Expr) (m : Machine) (p : Place)
    (m' : Machine) : Prop where
  base : target.base = .name p.pos p.name
  keys : ∃ keys, list eval target.keys m = .done keys m'
    ∧ p.path = keys.zip (target.steps.map Prod.snd)

/-- To find the place that a target stands for is to evaluate its keys in a row. -/
theorem place_eq (eval : Expr → Run Value) {pos : Position} {name : String} :
    ∀ target : Expr, target.base = .name pos name → ∀ m,
      place eval target m = match list eval target.keys m with
        | .done keys m' => .done ⟨name, pos, keys.zip (target.steps.map Prod.snd)⟩ m'
        | .failed fault m' => .failed fault m'
        | .exhausted => .exhausted
  | .name _ _, h, m => by
    cases h
    rfl
  | .index p collection key, h, m => by
    have hcollection := place_eq eval collection h m
    rw [Expr.keys_index, list_concat]
    simp only [place, bind, Run.bind, hcollection]
    cases hlist : list eval collection.keys m with
    | exhausted => rfl
    | failed fault m₁ => rfl
    | done keys m₁ =>
      dsimp only
      cases eval key m₁ with
      | exhausted => rfl
      | failed fault m₂ => rfl
      | done k m₂ =>
        have hlength : keys.length = (collection.steps.map Prod.snd).length := by
          rw [list_length hlist, Expr.keys, List.length_map, List.length_map]
        refine congrArg (fun path => Outcome.done (Place.mk name pos path) m₂) ?_
        rw [Expr.steps, List.map_append, List.zip_append hlength]
        rfl

/-- What does not begin at a name is no place, and that is found out first. -/
theorem place_of_not_isPlace (eval : Expr → Run Value) :
    ∀ target : Expr, target.IsPlace = false → ∀ m,
      place eval target m = .failed ⟨.invalidTarget, target.base.pos⟩ m
  | .name _ _, h, m => by cases h
  | .index _ collection _, h, m => Run.bind_of_failed (place_of_not_isPlace eval collection h m)
  | .literal .., _, _ | .list .., _, _ | .map .., _, _ | .unary .., _, _ | .binary .., _, _
  | .logical .., _, _ | .call .., _, _ | .function .., _, _ => rfl

/-- What stands at a place, or why nothing does. -/
def read (m : Machine) (p : Place) : Except Fault Value := do
  let root ← Fault.at p.pos (m.heap.get m.scope p.name)
  root.load p.path

/-- The machine with a value at a place, or why it cannot be put there. -/
def written (m : Machine) (p : Place) (value : Value) : Except Fault Machine :=
  match m.heap.find? m.scope p.name with
  | some (owner, root) => (root.store p.path value).map fun root' => m.defined owner p.name root'
  | none => .error ⟨.undefined p.name, p.pos⟩

/-- Loading a place changes nothing: it is a question about the machine. -/
theorem load_eq (p : Place) (m : Machine) : load p m = Run.ofExcept (read m p) m := by
  unfold load read Run.get
  simp only [bind, Run.bind, Run.at, Run.ofExcept]
  cases Fault.at p.pos (m.heap.get m.scope p.name) with
  | error fault => rfl
  | ok root => rfl

/-- Storing either changes the machine in one go or leaves it alone. -/
theorem store_eq (p : Place) (value : Value) (m : Machine) :
    store p value m = match written m p value with
      | .ok m' => .done () m'
      | .error fault => .failed fault m := by
  unfold store written Run.get Heap.get
  simp only [bind, Run.bind, Run.at, Run.ofExcept]
  cases hfound : m.heap.find? m.scope p.name with
  | none => rfl
  | some found =>
    simp only [Fault.at]
    cases found.2.store p.path value with
    | error fault => rfl
    | ok root' =>
      simp only [Run.assign, hfound]
      rfl

/-- What an assignment stores: the value of its right side, or what the operator makes of
the value that was at the place when the right side had not been evaluated yet. -/
inductive Combines (p : Place) (m : Machine) (right : Value) : Option BinaryOp → Value → Prop where
  | plain : Combines p m right none right
  | compound {op : BinaryOp} {old v : Value} (loaded : load p m = .done old m)
      (applied : op.apply old right = .ok v) : Combines p m right (some op) v

/-- How an assignment to a place that has been found can fail, and on which machine: that
on which the place was found, or that which the right side left. -/
inductive Fails (eval : Expr → Run Value) (pos : Position) (p : Place) (value : Expr)
    (m : Machine) : Option BinaryOp → Fault → Machine → Prop where
  | load {op : BinaryOp} {fault : Fault} (failed : load p m = .failed fault m) :
      Fails eval pos p value m (some op) fault m
  | value {op : Option BinaryOp} {fault : Fault} {m' : Machine}
      (failed : eval value m = .failed fault m') : Fails eval pos p value m op fault m'
  | operator {op : BinaryOp} {old right : Value} {cause : Cause} {m' : Machine}
      (loaded : Eval.load p m = .done old m) (evaluated : eval value m = .done right m')
      (failed : op.apply old right = .error cause) :
      Fails eval pos p value m (some op) ⟨cause, pos⟩ m'
  | store {op : Option BinaryOp} {right v : Value} {fault : Fault} {m' : Machine}
      (evaluated : eval value m = .done right m') (combined : Combines p m right op v)
      (failed : store p v m' = .failed fault m') : Fails eval pos p value m op fault m'

/-- The value that is assigned, in each of the ways it may come about. For a compound
operator the old value is read before the right side is evaluated. -/
private theorem assigned_cases (eval : Expr → Run Value) (pos : Position) (p : Place)
    (op : Option BinaryOp) (value : Expr) (m : Machine) :
    match assigned eval pos p op value m with
    | .done v m' => ∃ right, eval value m = .done right m' ∧ Combines p m right op v
    | .failed fault m' => Fails eval pos p value m op fault m'
    | .exhausted => eval value m = .exhausted := by
  cases op with
  | none =>
    show match eval value m with | .done v m' => _ | .failed fault m' => _ | .exhausted => _
    cases hvalue : eval value m with
    | exhausted => rfl
    | failed fault m' => exact .value hvalue
    | done v m' => exact ⟨v, rfl, .plain⟩
  -- the old value is read before the right side is evaluated
  | some op =>
    simp only [assigned, bind, Run.bind]
    cases hread : read m p with
    | error fault =>
      have hload : load p m = .failed fault m := by
        rw [load_eq, hread]
        rfl
      rw [hload]
      exact .load hload
    | ok old =>
      have hload : load p m = .done old m := by
        rw [load_eq, hread]
        rfl
      simp only [hload]
      cases hvalue : eval value m with
      | exhausted => rfl
      | failed fault m' => exact .value hvalue
      | done right m' =>
        dsimp only
        cases happly : op.apply old right with
        | error cause => exact .operator hload hvalue happly
        | ok v => exact ⟨right, rfl, .compound hload happly⟩

end Eval

-- ===================================================== assignments

/-- A value has been put at a place. Of the machine one binding is different, the nearest of
the place's name; and of what is bound there, the slot at the end of the path. -/
def Machine.Puts (m : Machine) (p : Eval.Place) (v : Value) (m' : Machine) : Prop :=
  ∃ owner root root', m.heap.Nearest p.name m.scope owner root
    ∧ root.store p.path v = .ok root' ∧ root'.load p.path = .ok v
    ∧ (∀ q, Value.Diverge root p.path q → root'.load q = root.load q)
    ∧ m.Rebinds owner p.name root root' m'
    ∧ ∀ frame other, other ≠ p.name → m'.heap.get frame other = m.heap.get frame other

/-- What is written at the end is the root as it is then, with the value put at the
place's path. -/
private theorem Eval.written_puts {m m' : Machine} {p : Place} {v : Value}
    (h : written m p v = .ok m') : m.Puts p v m' := by
  unfold written at h
  cases hfound : m.heap.find? m.scope p.name with
  | none =>
    rw [hfound] at h
    cases h
  | some found =>
    obtain ⟨owner, root⟩ := found
    simp only [hfound] at h
    cases hstore : root.store p.path v with
    | error fault =>
      rw [hstore] at h
      cases h
    | ok root' =>
      rw [hstore] at h
      cases h
      have hrebinds := Machine.rebinds_defined hfound root'
      refine ⟨owner, root, root', Heap.nearest_of_find? hfound, hstore, Value.load_store hstore,
        fun q hq => Value.load_store_of_diverge hq hstore, hrebinds, fun frame other hne => ?_⟩
      rw [Heap.get, Heap.get, hrebinds.find? hne]

/-- What an assignment does once its place has been found. -/
theorem Eval.assigned_store_cases (eval : Expr → Run Value) (pos : Position) (p : Place)
    (op : Option BinaryOp) (value : Expr) (m : Machine) :
    match (do
        let v ← assigned eval pos p op value
        store p v
        return Flow.normal .nil : Run Flow) m with
    | .done flow m' => flow = .normal .nil ∧ ∃ right m₁ v, eval value m = .done right m₁
        ∧ Combines p m right op v ∧ m₁.Puts p v m'
    | .failed fault m' => Fails eval pos p value m op fault m'
    | .exhausted => eval value m = .exhausted := by
  have hassigned := assigned_cases eval pos p op value m
  simp only [bind, Run.bind]
  cases hvalue : assigned eval pos p op value m with
  | exhausted =>
    rw [hvalue] at hassigned
    exact hassigned
  | failed fault m' =>
    rw [hvalue] at hassigned
    exact hassigned
  | done v m₁ =>
    rw [hvalue] at hassigned
    obtain ⟨right, hright, hcombines⟩ := hassigned
    have hstore := store_eq p v m₁
    cases hwritten : written m₁ p v with
    | error fault =>
      rw [hwritten] at hstore
      simp only [hstore]
      exact .store hright hcombines hstore
    | ok m' =>
      rw [hwritten] at hstore
      simp only [hstore]
      exact ⟨rfl, right, m₁, v, hright, hcombines, written_puts hwritten⟩

/-- An assignment changes one slot, and only when all that it evaluates has been evaluated.
If it ends, it has evaluated the keys of its target, then its right side, and the machine is
the one that they left with a value put at the place. If it fails, the machine is the one
that was left by what it evaluated before; it has bound nothing itself. -/
theorem Stmt.exec_assign_atomic (setup : Setup) (budget : Nat) (pos : Position) (target : Expr)
    (op : Option BinaryOp) (value : Expr) (m : Machine) :
    match Stmt.exec setup (budget + 1) (.assign pos target op value) m with
    | .done flow m' => flow = .normal .nil ∧ ∃ p m₁ right m₂ v,
        Eval.Finds (Expr.eval setup budget) target m p m₁
          ∧ Expr.eval setup budget value m₁ = .done right m₂
          ∧ Eval.Combines p m₁ right op v ∧ m₂.Puts p v m'
    | .failed fault m' =>
        target.IsPlace = false ∧ fault = ⟨.invalidTarget, target.base.pos⟩ ∧ m' = m
          ∨ target.IsPlace = true
            ∧ Eval.list (Expr.eval setup budget) target.keys m = .failed fault m'
          ∨ ∃ p m₁, Eval.Finds (Expr.eval setup budget) target m p m₁
            ∧ Eval.Fails (Expr.eval setup budget) pos p value m₁ op fault m'
    | .exhausted => Eval.list (Expr.eval setup budget) target.keys m = .exhausted
        ∨ ∃ p m₁, Eval.Finds (Expr.eval setup budget) target m p m₁
          ∧ Expr.eval setup budget value m₁ = .exhausted := by
  rw [Stmt.exec]
  generalize Expr.eval setup budget = eval
  cases hplace : target.IsPlace with
  | false =>
    -- refused before anything is evaluated
    rw [Stmt.step, Run.bind_of_failed (Eval.place_of_not_isPlace eval target hplace m)]
    exact .inl ⟨rfl, rfl, rfl⟩
  | true =>
    obtain ⟨start, name, hbase⟩ := Expr.exists_base target hplace
    have hfound := Eval.place_eq eval target hbase m
    cases hkeys : Eval.list eval target.keys m with
    | exhausted =>
      rw [hkeys] at hfound
      rw [Stmt.step, Run.bind_of_exhausted hfound]
      exact .inl rfl
    | failed fault m' =>
      rw [hkeys] at hfound
      rw [Stmt.step, Run.bind_of_failed hfound]
      exact .inr (.inl ⟨rfl, rfl⟩)
    | done keys m₁ =>
      rw [hkeys] at hfound
      rw [Stmt.step, Run.bind_of_done hfound]
      have hfinds : Eval.Finds eval target m
          ⟨name, start, keys.zip (target.steps.map Prod.snd)⟩ m₁ := ⟨hbase, keys, hkeys, rfl⟩
      -- from here on only that `p` is the place found counts
      generalize Eval.Place.mk name start (keys.zip (target.steps.map Prod.snd)) = p at hfinds ⊢
      have hcases := Eval.assigned_store_cases eval pos p op value m₁
      revert hcases
      split
      · rintro ⟨hflow, right, m₂, v, hright, hcombines, hputs⟩
        exact ⟨hflow, p, m₁, right, m₂, v, hfinds, hright, hcombines, hputs⟩
      · exact fun hfails => .inr (.inr ⟨p, m₁, hfinds, hfails⟩)
      · exact fun hvalue => .inr ⟨p, m₁, hfinds, hvalue⟩

/-- A function that changes an entry of the map `xs` and returns a string. -/
def meddler : Closure where
  id := 0
  code := ⟨some "f", [],
    [.assign .start (.index .start (.name .start "xs") (.literal .start (.string "b"))) none
        (.literal .start (.bool true)),
      .return_ .start (some (.literal .start (.string "!")))], .start⟩
  frame := 0

/-- A machine on which `xs` means a map and `ys` the map that it once was. -/
def Machine.shared (a : String) (b : Value) (calls : List Frame) : Machine where
  heap := ⟨⟨none, [("xs", .map [(.string "a", .string a), (.string "b", b)]),
    ("ys", .map [(.string "a", .string "?"), (.string "b", .nil)]), ("f", .function meddler)]⟩
      :: calls⟩
  scope := 0
  depth := 0
  fresh := 1
  transcript := {}

-- what the call put into the map is kept, and the map that `ys` means is not changed
example :
    Stmt.exec ⟨[], 200⟩ 10 (.assign .start (.index .start (.name .start "xs")
        (.literal .start (.string "a"))) (some .add) (.call .start (.name .start "f") []))
      (.shared "?" .nil []) = .done (.normal .nil) (.shared "?!" (.bool true) [⟨some 0, []⟩]) := by
  cbv

end Scriptlet
