/-
What holds of all values. A condition on values that the operations on collections keep
(`Value.Closed`) holds of every value that evaluation ever has to do with, if the host keeps
to it as well: of all that is computed, all that is bound, and all that stands inside
(`Held.Reached.only`). Nothing is asked of programs.

# Why maps need more than their items

The conditions that contracts carry hold of a collection if they hold of its items. A
condition may also be about the keys of a map, or about how many entries it has. Such a
condition is kept because a map comes about in one way only: it is empty, or something was
put into a map under a key that some value is.

# Moments of a run

That a value turns up in a run says that some expression or statement was run, on the machine
of that moment, and ended with it. The machines of all moments, and some more, are come to by
running parts of programs, by entering frames and calls and by binding values that were
computed before (`Held.Step`). So a statement on all of these is one on all moments of all
runs.
-/
import Mathlib.Logic.Relation
import Scriptlet.Proofs.Eval.Reach
import Scriptlet.Proofs.Value.Items

namespace Scriptlet

variable {P : Value → Prop} {α β : Type}

-- ============================================== closed conditions

namespace Value

/-- A condition on values that the operations on collections keep. -/
structure Closed (P : Value → Prop) : Prop where
  atom : ∀ {v : Value}, v.Atom → P v
  list : ∀ {items : List Value}, P (.list items) ↔ ∀ v ∈ items, P v
  empty : P (.map [])
  put : ∀ {entries : List (MapKey × Value)} {key : MapKey} {v : Value},
    P (.map entries) → P v → key.Made → P (.map (Entries.put key v entries))
  entry : ∀ {entries : List (MapKey × Value)}, P (.map entries) → ∀ entry ∈ entries, P entry.2

namespace Closed

variable (hP : Closed P) {c c' k v w : Value}

include hP

theorem nil : P .nil := hP.atom trivial

/-- What holds of a value holds of everything inside it, however deep. -/
theorem contains (hv : P v) (h : v.Contains w) : P w := by
  induction h with
  | here => exact hv
  | item mem _ ih => exact ih (hP.list.1 hv _ mem)
  | entry mem _ ih => exact ih (hP.entry hv _ mem)

/-- A loop sees the items of a list, which are inside it, or the characters of a string,
which are atoms. -/
private theorem ofSequence {visited : List Value} (hc : P c) (h : c.sequence? = some visited) :
    ∀ v ∈ visited, P v := by
  cases c with
  | list items =>
    cases h
    exact hP.list.1 hc
  | string s =>
    cases h
    intro v hv
    obtain ⟨c, -, rfl⟩ := List.mem_map.1 hv
    exact hP.atom trivial
  | _ => cases h

/-- What indexing gives is inside the collection, or one character of it. -/
theorem item (hc : P c) (h : c.item k = .ok v) : P v := by
  have hsequence {visited : List Value} (hvisited : c.sequence? = some visited) : P v := by
    obtain ⟨-, i, -, -, hi⟩ := (item_sequence_iff hvisited).1 h
    exact hP.ofSequence hc hvisited v (List.mem_of_getElem? hi)
  cases c with
  | list items => exact hsequence rfl
  | string s => exact hsequence rfl
  | map entries =>
    obtain ⟨key, -, hfound⟩ := item_map_eq_ok_iff.1 h
    exact hP.entry hc _ (Entries.mem_of_get? hfound)
  | _ => cases h

/-- A changed collection has the old items and the new one. In a map the key is one that a
value gave, which is what `put` asks for. -/
theorem withItem (hc : P c) (hv : P v) (h : c.withItem k v = .ok c') : P c' := by
  rcases withItem_cases h with ⟨items, i, rfl, -, rfl⟩ | ⟨entries, key, rfl, hkey, rfl⟩
  · refine hP.list.2 fun w hw => ?_
    rcases List.mem_or_eq_of_mem_set hw with hold | rfl
    · exact hP.list.1 hc w hold
    · exact hv
  · exact hP.put hc hv ⟨k, hkey⟩

/-- A loop over a map sees its keys, which are atoms, and not its values. -/
theorem items {visited : List Value} (hc : P c) (h : c.items = .ok visited) :
    ∀ v ∈ visited, P v := by
  cases c with
  | map entries =>
    cases h
    intro v hv
    obtain ⟨key, -, rfl⟩ := List.mem_map.1 hv
    exact hP.atom key.value_atom
  | list items =>
    cases h
    exact hP.ofSequence hc rfl
  | string s =>
    cases h
    exact hP.ofSequence hc rfl
  | _ => cases h

/-- Reading down a path is indexing again and again. -/
theorem load {path : Path} (hc : P c) (h : c.load path = .ok v) : P v := by
  induction path generalizing c with
  | nil =>
    cases h
    exact hc
  | cons step path ih =>
    obtain ⟨inner, hinner, hrest⟩ := load_cons_eq_ok h
    exact ih (hP.item hc hinner) hrest

/-- Writing down a path changes a collection at each level, from the innermost one
outwards. -/
theorem store {path : Path} (hc : P c) (hv : P v) (h : c.store path v = .ok c') : P c' := by
  induction path generalizing c c' with
  | nil =>
    cases h
    exact hv
  | cons step path ih =>
    obtain ⟨key, pos⟩ := step
    cases path with
    | nil => exact hP.withItem hc hv (at_eq_ok h)
    | cons next path =>
      obtain ⟨inner, inner', hitem, hstore, hput⟩ := store_cons_eq_ok (List.cons_ne_nil _ _) h
      exact hP.withItem hc (ih (hP.item hc hitem) hstore) hput

end Closed

end Value

-- ======================================================= operators

/-- Operators give atoms: no collection comes out of arithmetic, order or equality. -/
private theorem UnaryOp.apply_atom {op : UnaryOp} {v w : Value} (h : op.apply v = .ok w) :
    w.Atom := by
  cases op <;> cases v <;> cases h <;> trivial

private theorem BinaryOp.arithmetic_atom {op : BinaryOp} {f : Float → Float → Except Cause Float}
    {left right v : Value} (h : op.arithmetic f left right = .ok v) :
    v.Atom := by
  unfold arithmetic at h
  split at h
  · obtain ⟨n, -, h⟩ := Except.ok_of_bind h
    cases h
    trivial
  · cases h

private theorem BinaryOp.order_atom {op : BinaryOp} {numbers : Float → Float → Bool}
    {strings : String → String → Bool} {left right v : Value}
    (h : op.order numbers strings left right = .ok v) : v.Atom := by
  unfold order at h
  split at h <;> cases h <;> trivial

/-- Operators make no collections. -/
theorem BinaryOp.apply_atom {op : BinaryOp} {left right v : Value}
    (h : op.apply left right = .ok v) : v.Atom := by
  cases op with
  | add =>
    unfold apply at h
    dsimp only at h
    split at h
    · cases h
      trivial
    · exact arithmetic_atom h
  | sub | mul | pow | div | mod => exact arithmetic_atom h
  | equal | notEqual =>
    cases h
    trivial
  | less | lessEqual | greater | greaterEqual => exact order_atom h

-- ======================================================== machines

/-- All values that any frame binds meet a condition. -/
def Machine.BindsOnly (P : Value → Prop) (m : Machine) : Prop :=
  ∀ (i : Nat) (frame : Frame), m.heap[i]? = some frame → ∀ binding ∈ frame.bindings, P binding.2

namespace Machine.BindsOnly

variable {m : Machine} (hm : m.BindsOnly P)

/-- A machine starts with what the host binds. -/
theorem start {bindings : Entries String Value} (h : ∀ binding ∈ bindings, P binding.2) :
    (Machine.start bindings).BindsOnly P := by
  intro i frame hframe
  have hzero : i = 0 := Nat.lt_one_iff.1 (Array.getElem?_eq_some_iff.1 hframe).1
  subst hzero
  cases hframe
  exact h

include hm

/-- Binding a value that meets the condition. -/
theorem defined (frame : Nat) (name : String) {v : Value} (hv : P v) :
    (m.defined frame name v).BindsOnly P := by
  intro i f hf
  rw [Machine.defined, Heap.getElem?_define] at hf
  split at hf
  · obtain ⟨old, hold, rfl⟩ := Option.map_eq_some_iff.1 hf
    exact Entries.forall_put hv (hm i old hold)
  · exact hm i f hf

/-- Entering a frame whose first names are bound to such values. -/
theorem entered (parent : Nat) {bindings : Entries String Value}
    (hbindings : ∀ binding ∈ bindings, P binding.2) :
    (m.entered parent bindings).BindsOnly P := by
  intro i f hf
  rw [Machine.entered, Heap.getElem?_alloc] at hf
  split at hf
  · cases hf
    exact hbindings
  · exact hm i f hf

/-- What a name stands for was bound before. -/
theorem get {frame : Nat} {name : String} {v : Value} (h : m.heap.get frame name = .ok v) :
    P v := by
  unfold Heap.get at h
  split at h
  · rename_i owner value hfound
    cases h
    obtain ⟨f, hf, hbound⟩ := Heap.get?_of_find? hfound
    exact hm owner f hf _ (Entries.mem_of_get? hbound)
  · cases h

end Machine.BindsOnly

-- ==================================================== computations

/-- However a computation ends, where only values that meet `P` are bound it leaves only
such, and `Q` holds of its result. -/
def Run.KeepsTo (P : Value → Prop) (x : Run α) (Q : α → Prop) : Prop :=
  ∀ m : Machine, m.BindsOnly P →
    match x m with
    | .done a m' => m'.BindsOnly P ∧ Q a
    | .failed _ m' => m'.BindsOnly P
    | .exhausted => True

namespace Run.KeepsTo

variable {x : Run α} {Q : α → Prop} {Q' : β → Prop}

theorem pure {a : α} (ha : Q a) : KeepsTo P (Pure.pure a : Run α) Q := fun _ hm => ⟨hm, ha⟩

theorem fault (cause : Cause) (pos : Position) : KeepsTo P (Run.fault cause pos : Run α) Q :=
  fun _ hm => hm

theorem exhausted : KeepsTo P (Run.exhausted : Run α) Q := fun _ _ => trivial

/-- What the first part gives is all that the second part knows of it. -/
theorem bind (hx : KeepsTo P x Q) {k : α → Run β} (hk : ∀ a, Q a → KeepsTo P (k a) Q') :
    KeepsTo P (x >>= k) Q' := by
  intro m hm
  have hfirst := hx m hm
  cases h : x m with
  | exhausted =>
    rw [bind_of_exhausted h]
    trivial
  | failed fault m' =>
    rw [h] at hfirst
    rw [bind_of_failed h]
    exact hfirst
  | done a m' =>
    rw [h] at hfirst
    rw [bind_of_done h]
    exact hk a hfirst.2 m' hfirst.1

theorem ofExcept {result : Except Fault α} (h : ∀ a, result = .ok a → Q a) :
    KeepsTo P (Run.ofExcept result) Q := by
  cases result with
  | error fault => exact fun _ hm => hm
  | ok a => exact fun _ hm => ⟨hm, h a rfl⟩

theorem «at» {pos : Position} {result : Except Cause α} (h : ∀ a, result = .ok a → Q a) :
    KeepsTo P (Run.at pos result) Q :=
  ofExcept fun a ha => h a (Value.at_eq_ok ha)

theorem get (pos : Position) (name : String) : KeepsTo P (Run.get pos name) P := fun m hm =>
  Run.KeepsTo.at (Q := P) (fun _ => hm.get) m hm

theorem define (name : String) {v : Value} (hv : P v) :
    KeepsTo P (Run.define name v) fun _ => True := fun m hm => ⟨hm.defined m.scope name hv, trivial⟩

/-- Writing to a name puts the value where another one was, so no frame comes to hold
anything new. -/
theorem assign (pos : Position) (name : String) {v : Value} (hv : P v) :
    KeepsTo P (Run.assign pos name v) fun _ => True := by
  intro m hm
  unfold Run.assign
  dsimp only
  cases hfound : m.heap.find? m.scope name with
  | none => exact hm
  | some found => exact ⟨hm.defined found.1 name hv, trivial⟩

/-- A frame that is entered and left. It stays in the heap, so what it binds counts
afterwards as well. -/
theorem inFrame (hx : KeepsTo P x Q) (parent : Nat) {bindings : Entries String Value}
    (hbindings : ∀ binding ∈ bindings, P binding.2) :
    KeepsTo P (Run.inFrame parent bindings x) Q := by
  intro m hm
  have hinside := hx _ (hm.entered parent hbindings)
  rw [inFrame_eq]
  cases h : x (m.entered parent bindings) with
  | exhausted => trivial
  | done a m' =>
    rw [h] at hinside
    exact hinside
  | failed fault m' =>
    rw [h] at hinside
    exact hinside

/-- A call changes the level only. -/
theorem inCall (hx : KeepsTo P x Q) : KeepsTo P (Run.inCall x) Q := by
  intro m hm
  have hinside := hx m.called hm
  rw [inCall_eq]
  cases h : x m.called with
  | exhausted => trivial
  | done a m' =>
    rw [h] at hinside
    exact hinside
  | failed fault m' =>
    rw [h] at hinside
    exact hinside

end Run.KeepsTo

-- ======================================================= the host

/-- A host whose routines give values that meet `P` when they are given only such. -/
def Host.KeepsTo (P : Value → Prop) (host : Host) : Prop :=
  ∀ routine ∈ host, ∀ args : List Value, (∀ v ∈ args, P v) → ∀ transcript v,
    (routine.run args transcript).1 = .ok v → P v

/-- A routine of the host is asked with values that meet the condition; a wrong number of
them is refused before it runs. -/
private theorem Native.call_keepsTo {host : Host} (h : host.KeepsTo P) (native : Native)
    {args : List Value} (hargs : ∀ v ∈ args, P v) {transcript written : Transcript} {v : Value}
    (hcall : native.call host args transcript = (.ok v, written)) : P v := by
  unfold Native.call at hcall
  split at hcall
  · unfold Host.run at hcall
    cases hrow : host[native.id]? with
    | none =>
      rw [hrow] at hcall
      cases hcall
    | some routine =>
      simp only [hrow] at hcall
      split at hcall
      · rename_i w t hrun
        cases hcall
        exact h routine (List.mem_of_getElem? hrow) args hargs transcript v
          (congrArg Prod.fst hrun)
      · cases hcall
  · cases hcall

/-- Calling a routine of the host from a run. -/
theorem Run.KeepsTo.native {host : Host} (h : host.KeepsTo P) (f : Native) {args : List Value}
    (hargs : ∀ v ∈ args, P v) (pos : Position) : KeepsTo P (Run.native host f args pos) P := by
  intro m hm
  unfold Run.native
  dsimp only
  cases hcall : f.call host args m.transcript with
  | mk result written =>
    cases result with
    | error cause => exact hm
    | ok v => exact ⟨hm, Native.call_keepsTo h f hargs hcall⟩

/-- A function is an atom: the frame it points at is judged with the heap. -/
theorem Run.KeepsTo.closure (hP : Value.Closed P) (code : Code) :
    KeepsTo P (Run.closure code) P := fun _ hm => ⟨hm, hP.atom trivial⟩

namespace Prelude

private theorem len_atom {v w : Value} (h : len v = .ok w) : w.Atom := by
  cases v <;> cases h <;> trivial

private theorem contains_atom {v needle w : Value} (h : contains v needle = .ok w) :
    w.Atom := by
  unfold contains at h
  split at h
  · cases h
    trivial
  · split at h <;> cases h <;> trivial
  · split at h <;> cases h
    trivial
  · cases h

section

variable (hP : Value.Closed P)

include hP

/-- Arguments that are missing count as nil, of which every closed condition holds. -/
private theorem first_meets {args : List Value} (h : ∀ v ∈ args, P v) : P (first args) := by
  cases args with
  | nil => exact hP.nil
  | cons v rest => exact h v List.mem_cons_self

private theorem second_meets {args : List Value} (h : ∀ v ∈ args, P v) : P (second args) := by
  cases args with
  | nil => exact hP.nil
  | cons v rest => exact first_meets hP (List.forall_mem_cons.1 h).2

/-- The routines of the prelude that answer with a collection build it from what they are
given. -/
private theorem push_meets {v item w : Value} (hv : P v) (hitem : P item)
    (h : push v item = .ok w) : P w := by
  cases v with
  | list items =>
    cases h
    refine hP.list.2 fun x hx => ?_
    rcases List.mem_append.1 hx with hold | hnew
    · exact hP.list.1 hv x hold
    · exact List.mem_singleton.1 hnew ▸ hitem
  | _ => cases h

private theorem keys_meets {v w : Value} (h : keys v = .ok w) : P w := by
  cases v with
  | map entries =>
    cases h
    refine hP.list.2 fun x hx => ?_
    obtain ⟨key, -, rfl⟩ := List.mem_map.1 hx
    exact hP.atom key.value_atom
  | _ => cases h

private theorem values_meets {v w : Value} (hv : P v) (h : values v = .ok w) : P w := by
  cases v with
  | map entries =>
    cases h
    refine hP.list.2 fun x hx => ?_
    obtain ⟨entry, hentry, rfl⟩ := List.mem_map.1 hx
    exact hP.entry hv entry hentry
  | _ => cases h

private theorem range_meets {args : List Value} {w : Value} (h : range args = .ok w) : P w := by
  obtain ⟨terms, rfl⟩ := range_numbers h
  refine hP.list.2 fun x hx => ?_
  obtain ⟨i, -, rfl⟩ := List.mem_map.1 hx
  exact hP.atom trivial

/-- The prelude keeps to every closed condition. -/
theorem host_keepsTo : host.KeepsTo P := by
  intro routine hmem args hargs transcript v h
  simp only [host, List.mem_cons, List.not_mem_nil, or_false] at hmem
  rcases hmem with rfl | rfl | rfl | rfl | rfl | rfl | rfl | rfl | rfl | rfl
  · cases h
    exact hP.nil
  · cases h
    exact hP.nil
  · exact hP.atom (len_atom h)
  · cases h
    exact hP.atom trivial
  · cases h
    exact hP.atom trivial
  · exact range_meets hP h
  · exact push_meets hP (first_meets hP hargs) (second_meets hP hargs) h
  · exact keys_meets hP h
  · exact values_meets hP (first_meets hP hargs) h
  · exact hP.atom (contains_atom h)

end

end Prelude

-- ===================================================== evaluation

namespace Eval

/-- What the evaluators of the parts have to offer. -/
structure PartsKeepTo (P : Value → Prop) (eval : Expr → Run Value) (exec : Stmt → Run Flow) :
    Prop where
  expr : ∀ e, Run.KeepsTo P (eval e) P
  stmt : ∀ s, Run.KeepsTo P (exec s) fun flow => P flow.value

section Parts

open Run

variable {setup : Setup} {eval : Expr → Run Value} {exec : Stmt → Run Flow}

variable (hP : Value.Closed P) (hhost : setup.host.KeepsTo P) (h : PartsKeepTo P eval exec)

include h in
private theorem list_keepsTo (items : List Expr) :
    KeepsTo P (list eval items) fun vs => ∀ v ∈ vs, P v := by
  induction items with
  | nil => exact .pure (List.forall_mem_nil _)
  | cons e rest ih =>
    refine (h.expr e).bind fun v hv => ?_
    refine ih.bind fun vs hvs => ?_
    exact .pure (List.forall_mem_cons.2 ⟨hv, hvs⟩)

include hP h in
/-- A literal map is put together entry by entry, and a condition on maps is kept at each
of them. -/
private theorem entries_keepsTo (items : List (Expr × Expr)) {done : Entries MapKey Value}
    (hdone : P (.map done)) : KeepsTo P (entries eval items done) fun all => P (.map all) := by
  induction items generalizing done with
  | nil => exact .pure hdone
  | cons entry rest ih =>
    refine (h.expr entry.1).bind fun keyValue _ => ?_
    refine (KeepsTo.at (Q := MapKey.Made) fun key hkey => ⟨keyValue, hkey⟩).bind fun key hkey => ?_
    refine (h.expr entry.2).bind fun v hv => ?_
    exact ih (hP.put hdone hv hkey)

include hP h in
private theorem sequence_keepsTo (body : List Stmt) :
    KeepsTo P (sequence exec body) fun flow => P flow.value := by
  induction body with
  | nil => exact .pure hP.nil
  | cons s rest ih =>
    refine (h.stmt s).bind fun flow hflow => ?_
    cases flow with
    | normal v => exact ih
    | return_ v => exact .pure hflow
    | break_ => exact .pure hflow
    | continue_ => exact .pure hflow

include hP h in
private theorem block_keepsTo {bindings : Entries String Value}
    (hbindings : ∀ binding ∈ bindings, P binding.2) (body : List Stmt) :
    KeepsTo P (block exec bindings body) fun flow => P flow.value := fun m hm =>
  (sequence_keepsTo hP h body).inFrame m.scope hbindings m hm

include h in
private theorem condition_keepsTo (demand : Demand) (e : Expr) :
    KeepsTo P (condition eval demand e) fun _ => True :=
  (h.expr e).bind fun _ _ => .at fun _ _ => trivial

include hP in
/-- A loop ends with nil, or with what a `return` in its body carries. -/
private theorem repeatWhile_keepsTo {test : Run Bool} {body : Run Flow}
    (htest : KeepsTo P test fun _ => True) (hbody : KeepsTo P body fun flow => P flow.value)
    (rounds : Nat) : KeepsTo P (repeatWhile test body rounds) fun flow => P flow.value := by
  induction rounds with
  | zero => exact .exhausted
  | succ rounds ih =>
    refine htest.bind fun holds _ => ?_
    cases holds with
    | false => exact .pure hP.nil
    | true =>
      refine hbody.bind fun flow hflow => ?_
      cases flow with
      | normal v => exact ih
      | continue_ => exact ih
      | break_ => exact .pure hflow
      | return_ v => exact .pure hflow

include hP in
private theorem repeatFor_keepsTo {body : Value → Run Flow}
    (hbody : ∀ v, P v → KeepsTo P (body v) fun flow => P flow.value) {items : List Value}
    (hitems : ∀ v ∈ items, P v) :
    KeepsTo P (repeatFor body items) fun flow => P flow.value := by
  induction items with
  | nil => exact .pure hP.nil
  | cons item rest ih =>
    obtain ⟨hitem, hrest⟩ := List.forall_mem_cons.1 hitems
    refine (hbody item hitem).bind fun flow hflow => ?_
    cases flow with
    | normal v => exact ih hrest
    | continue_ => exact ih hrest
    | break_ => exact .pure hflow
    | return_ v => exact .pure hflow

-- =========================================================== calls

include hP h in
/-- The arguments are bound in the frame of the body, and the body's value is the
call's. -/
private theorem callClosure_keepsTo (f : Closure) {args : List Value} (hargs : ∀ v ∈ args, P v)
    (pos : Position) : KeepsTo P (callClosure setup exec f args pos) P := by
  have hbody : KeepsTo P
      (Run.inCall (Run.inFrame f.frame (parameters f.code args) (sequence exec f.code.body)))
      fun flow => P flow.value :=
    ((sequence_keepsTo hP h f.code.body).inFrame f.frame (parameters_forall f.code hargs)).inCall
  have hresult : KeepsTo P (_ >>= callResult pos) P := hbody.bind fun flow hflow => by
    cases flow with
    | return_ v => exact .pure hflow
    | normal v => exact .pure hP.nil
    | break_ => exact .fault _ pos
    | continue_ => exact .fault _ pos
  intro m hm
  unfold callClosure
  by_cases harity : args.length ≠ f.code.arity
  · rw [if_pos harity]
    exact hm
  by_cases hdepth : setup.maxDepth ≤ m.depth
  · rw [if_neg harity, if_pos hdepth]
    exact hm
  rw [if_neg harity, if_neg hdepth]
  exact hresult m hm

include hP hhost h in
private theorem call_keepsTo (callee : Value) {args : List Value} (hargs : ∀ v ∈ args, P v)
    (pos : Position) : KeepsTo P (call setup exec callee args pos) P := by
  cases callee with
  | native f => exact .native hhost f hargs pos
  | function f => exact callClosure_keepsTo hP h f hargs pos
  | _ => exact .fault _ pos

-- ========================================================== places

include h in
/-- Keys are values too, but a place asks nothing of them: they are only looked up. -/
private theorem place_keepsTo : ∀ target : Expr, KeepsTo P (place eval target) fun _ => True
  | .name _ _ => .pure trivial
  | .index _ collection key =>
    (place_keepsTo collection).bind fun _ _ => (h.expr key).bind fun _ _ => .pure trivial
  | .literal .. | .list .. | .map .. | .unary .. | .binary .. | .logical .. | .call ..
  | .function .. => .fault _ _

include hP in
private theorem load_keepsTo (p : Place) : KeepsTo P (load p) P :=
  (KeepsTo.get p.pos p.name).bind fun _ hroot => .ofExcept fun _ => hP.load hroot

include hP in
private theorem store_keepsTo (p : Place) {v : Value} (hv : P v) :
    KeepsTo P (store p v) fun _ => True := by
  refine (KeepsTo.get p.pos p.name).bind fun root hroot => ?_
  refine (KeepsTo.ofExcept (Q := P) fun _ => hP.store hroot hv).bind fun root hroot => ?_
  exact .assign p.pos p.name hroot

include hP h in
private theorem assigned_keepsTo (pos : Position) (p : Place) (op : Option BinaryOp)
    (value : Expr) : KeepsTo P (assigned eval pos p op value) P := by
  cases op with
  | none => exact h.expr value
  | some op =>
    refine (load_keepsTo hP p).bind fun old _ => ?_
    refine (h.expr value).bind fun right _ => ?_
    refine .at fun v hv => ?_
    exact hP.atom (BinaryOp.apply_atom hv)

-- =========================================================== steps

include hP hhost h in
/-- One layer of an expression. -/
private theorem step_expr_keepsTo (e : Expr) : KeepsTo P (e.step setup eval exec) P := by
  cases e with
  | literal pos value => exact .pure (hP.atom value.value_atom)
  | list pos items =>
    exact (list_keepsTo h items).bind fun vs hvs => .pure (hP.list.2 hvs)
  | map pos items =>
    exact (entries_keepsTo hP h items hP.empty).bind fun all hall => .pure hall
  | name pos name => exact .get pos name
  | unary pos op operand =>
    refine (h.expr operand).bind fun v _ => .at fun w hw => ?_
    exact hP.atom (UnaryOp.apply_atom hw)
  | binary pos op left right =>
    refine (h.expr left).bind fun l _ => (h.expr right).bind fun r _ => .at fun v hv => ?_
    exact hP.atom (BinaryOp.apply_atom hv)
  | logical pos op left right =>
    refine (condition_keepsTo h _ left).bind fun l _ => ?_
    have hbool (b : Bool) : P (.bool b) := hP.atom trivial
    split
    · exact .pure (hbool l)
    · exact (condition_keepsTo h _ right).bind fun r _ => .pure (hbool r)
  | call pos callee args =>
    refine (h.expr callee).bind fun v _ => ?_
    exact (list_keepsTo h args).bind fun vs hvs => call_keepsTo hP hhost h v hvs pos
  | index pos collection key =>
    refine (h.expr collection).bind fun c hc => ?_
    exact (h.expr key).bind fun k _ => .at fun v => hP.item hc
  | function pos code => exact .closure hP code

include hP h in
/-- One layer of a statement. The value in question is the one its ending carries, also
where that is a signal. -/
private theorem step_stmt_keepsTo (rounds : Nat) (s : Stmt) :
    KeepsTo P (s.step eval exec rounds) fun flow => P flow.value := by
  have hnil : P (Flow.normal .nil).value := hP.nil
  have hblock (body : List Stmt) :
      KeepsTo P (block exec [] body) fun flow => P flow.value :=
    block_keepsTo hP h (List.forall_mem_nil _) body
  cases s with
  | let_ pos name value =>
    exact (h.expr value).bind fun v hv => (KeepsTo.define name hv).bind fun _ _ => .pure hnil
  | assign pos target op value =>
    refine (place_keepsTo h target).bind fun p _ => ?_
    refine (assigned_keepsTo hP h pos p op value).bind fun v hv => ?_
    exact (store_keepsTo hP p hv).bind fun _ _ => .pure hnil
  | expr pos value => exact (h.expr value).bind fun v hv => .pure hv
  | if_ pos condition yes no =>
    refine (condition_keepsTo h _ condition).bind fun holds _ => ?_
    cases holds with
    | true => exact hblock yes
    | false =>
      cases no with
      | none => exact .pure hnil
      | some no => exact hblock no
  | while_ pos condition body =>
    exact repeatWhile_keepsTo hP (condition_keepsTo h _ condition) (hblock body) rounds
  | for_ pos name iterable body =>
    refine (h.expr iterable).bind fun c hc => ?_
    refine (KeepsTo.at fun visited => hP.items hc).bind fun visited hvisited => ?_
    refine repeatFor_keepsTo hP (fun v hv => ?_) hvisited
    exact block_keepsTo hP h (List.forall_mem_singleton.2 hv) body
  | function pos code =>
    refine (KeepsTo.closure hP code).bind fun f hf => ?_
    exact (KeepsTo.define _ hf).bind fun _ _ => .pure hnil
  | return_ pos value =>
    cases value with
    | none => exact .pure hnil
    | some value => exact (h.expr value).bind fun v hv => .pure hv
  | break_ pos => exact .pure hnil
  | continue_ pos => exact .pure hnil
  | block pos body => exact hblock body

end Parts

-- ======================================================= evaluation

variable {setup : Setup}

/-- Evaluation keeps to every closed condition that the host keeps to. -/
theorem keepsTo (hP : Value.Closed P) (hhost : setup.host.KeepsTo P) (budget : Nat) :
    PartsKeepTo P (Expr.eval setup budget) (Stmt.exec setup budget) := by
  induction budget with
  | zero =>
    refine ⟨fun e => ?_, fun s => ?_⟩
    · rw [Expr.eval_zero]
      exact .exhausted
    · rw [Stmt.exec_zero]
      exact .exhausted
  | succ budget ih =>
    refine ⟨fun e => ?_, fun s => ?_⟩
    · rw [Expr.eval_succ]
      exact step_expr_keepsTo hP hhost ih e
    · rw [Stmt.exec_succ]
      exact step_stmt_keepsTo hP ih budget s

/-- A program answers with the value of its last expression, or with what it started
from. -/
private theorem results_keepsTo {exec : Stmt → Run Flow}
    (hexec : ∀ s, Run.KeepsTo P (exec s) fun flow => P flow.value) (program : Program)
    {last : Value} (hlast : P last) : Run.KeepsTo P (Program.results exec program last) P := by
  induction program generalizing last with
  | nil => exact .pure hlast
  | cons s rest ih =>
    refine (hexec s).bind fun flow hflow => ?_
    cases flow with
    | normal v =>
      refine ih ?_
      split
      · exact hflow
      · exact hlast
    | return_ v => exact .fault _ s.pos
    | break_ => exact .fault _ s.pos
    | continue_ => exact .fault _ s.pos

end Eval

-- ========================================================== moments

/-- The computations that runs consist of: programs, expressions and statements, each within
some budget. A statement counts for the value that it ends with. -/
inductive Computation (setup : Setup) : Run Value → Prop where
  | program (budget : Nat) (program : Program) : Computation setup (program.run setup budget)
  | expr (budget : Nat) (e : Expr) : Computation setup (e.eval setup budget)
  | stmt (budget : Nat) (s : Stmt) :
      Computation setup (do return (← s.exec setup budget).value)

/-- Whatever part of a program is run, on whatever machine. -/
private theorem Computation.keepsTo {setup : Setup} {x : Run Value} (h : Computation setup x)
    (hP : Value.Closed P) (hhost : setup.host.KeepsTo P) : x.KeepsTo P P := by
  cases h with
  | program budget program =>
    exact fun m hm => Eval.results_keepsTo (Eval.keepsTo hP hhost budget).stmt program
      hP.nil { m with scope := Machine.root, depth := 0 } hm
  | expr budget e => exact (Eval.keepsTo hP hhost budget).expr e
  | stmt budget s =>
    exact ((Eval.keepsTo hP hhost budget).stmt s).bind fun flow hflow => .pure hflow

/-- A machine, and the values that have been seen on the way to it. -/
structure Held where
  machine : Machine
  seen : List Value

namespace Held

/-- A machine whose only frame holds the routines of a host. -/
def fresh (host : Host) : Held := ⟨.start (host.bindings 0 []), []⟩

/-- What can happen to a machine from one moment to the next. A computation succeeds or
fails; a value that was seen is bound in a frame, or in a new frame that is entered; another
frame, call, identity or transcript is the current one. A value is seen when it is computed,
when a name means it, when it stands inside one that was seen, and when the host has it from
elsewhere. -/
inductive Step (setup : Setup) (given : Value → Prop) (s : Held) : Held → Prop where
  | ran {x : Run Value} {v : Value} {m : Machine} (computation : Computation setup x)
      (run : x s.machine = .done v m) : Step setup given s ⟨m, v :: s.seen⟩
  | failed {x : Run Value} {fault : Fault} {m : Machine} (computation : Computation setup x)
      (run : x s.machine = .failed fault m) : Step setup given s ⟨m, s.seen⟩
  | bound (frame : Nat) (name : String) {v : Value} (held : v ∈ s.seen) :
      Step setup given s ⟨s.machine.defined frame name v, s.seen⟩
  | entered (parent : Nat) {bindings : Entries String Value}
      (held : ∀ binding ∈ bindings, binding.2 ∈ s.seen) :
      Step setup given s ⟨s.machine.entered parent bindings, s.seen⟩
  | moved (scope depth fresh : Nat) (transcript : Transcript) :
      Step setup given s ⟨⟨s.machine.heap, scope, depth, fresh, transcript⟩, s.seen⟩
  | looked {frame : Nat} {name : String} {v : Value}
      (found : s.machine.heap.get frame name = .ok v) :
      Step setup given s ⟨s.machine, v :: s.seen⟩
  | part {v w : Value} (held : v ∈ s.seen) (inside : v.Contains w) :
      Step setup given s ⟨s.machine, w :: s.seen⟩
  | given {v : Value} (has : given v) : Step setup given s ⟨s.machine, v :: s.seen⟩

/-- All values that are bound or were seen meet a condition. -/
structure Only (P : Value → Prop) (s : Held) : Prop where
  machine : s.machine.BindsOnly P
  seen : ∀ v ∈ s.seen, P v

/-- Before anything is run, there are only the host's routines, which are atoms. -/
private theorem fresh_only (hP : Value.Closed P) (host : Host) : (fresh host).Only P := by
  refine ⟨.start fun binding hbinding => ?_, List.forall_mem_nil _⟩
  obtain ⟨f, rfl, -⟩ := (Host.mem_bindings hbinding).resolve_right List.not_mem_nil
  exact hP.atom trivial

/-- One step of a run: a part of a program, a frame or a call that is entered, or a value
that is bound. -/
private theorem Step.keepsTo {setup : Setup} {given : Value → Prop} {s s' : Held}
    (h : Step setup given s s') (hP : Value.Closed P) (hhost : setup.host.KeepsTo P)
    (hgiven : ∀ v, given v → P v) (hs : s.Only P) : s'.Only P := by
  cases h with
  | ran computation run =>
    have hrun := computation.keepsTo hP hhost s.machine hs.machine
    rw [run] at hrun
    exact ⟨hrun.1, List.forall_mem_cons.2 ⟨hrun.2, hs.seen⟩⟩
  | failed computation run =>
    have hrun := computation.keepsTo hP hhost s.machine hs.machine
    rw [run] at hrun
    exact ⟨hrun, hs.seen⟩
  | bound frame name held =>
    exact ⟨hs.machine.defined frame name (hs.seen _ held), hs.seen⟩
  | entered parent held =>
    exact ⟨hs.machine.entered parent fun binding hbinding => hs.seen _ (held binding hbinding),
      hs.seen⟩
  | moved scope depth fresh transcript => exact ⟨hs.machine, hs.seen⟩
  | looked found =>
    exact ⟨hs.machine, List.forall_mem_cons.2 ⟨hs.machine.get found, hs.seen⟩⟩
  | part held inside =>
    exact ⟨hs.machine, List.forall_mem_cons.2 ⟨hP.contains (hs.seen _ held) inside, hs.seen⟩⟩
  | given has => exact ⟨hs.machine, List.forall_mem_cons.2 ⟨hgiven _ has, hs.seen⟩⟩

/-- The moments that a fresh machine comes to. -/
def Reached (setup : Setup) (given : Value → Prop) : Held → Prop :=
  Relation.ReflTransGen (Step setup given) (fresh setup.host)

/-- A closed condition that the host keeps to holds of all values at every moment. -/
theorem Reached.only {setup : Setup} {given : Value → Prop} {s : Held}
    (h : Reached setup given s) (hP : Value.Closed P) (hhost : setup.host.KeepsTo P)
    (hgiven : ∀ v, given v → P v) : s.Only P := by
  induction h with
  | refl => exact fresh_only hP setup.host
  | tail _ hstep ih => exact hstep.keepsTo hP hhost hgiven ih

end Held

end Scriptlet
