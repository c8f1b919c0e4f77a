/-
Evaluation meets every lawful contract. There is one lemma for each function of
evaluation; each takes what is known of the evaluators of the parts
(`Eval.PartsMeet`), and an induction on the budget ties them together.

A value that was computed first has to be good still when a later part has run.
It is, because the heap has only grown in between; this is the one step that
recurs below (`Contract.Lawful.holds_mono`).
-/
import Scriptlet.Proofs.Eval.Contract

namespace Scriptlet

open Contract Run

variable {C : Contract} {setup : Setup} {m : Machine}

-- ========================================================= endings

theorem Contract.Ending.mono {leaks leaks' : Signal → Bool} {frames : Nat} {flow : Flow}
    (h : C.Ending leaks frames flow) (hleaks : ∀ signal, leaks signal = true → leaks' signal = true) :
    C.Ending leaks' frames flow :=
  ⟨h.value, fun signal hsignal => hleaks signal (h.signal signal hsignal)⟩

private theorem Contract.ending_normal {leaks : Signal → Bool} {frames : Nat} {v : Value}
    (h : C.Holds frames v) : C.Ending leaks frames (.normal v) :=
  ⟨h, fun _ hsignal => nomatch hsignal⟩

/-- Ending in a signal that is leaked. -/
theorem Contract.ending_signal {leaks : Signal → Bool} {frames : Nat} {flow : Flow}
    (hvalue : C.Holds frames flow.value) {signal : Signal} (hflow : flow.signal? = some signal)
    (hleaks : leaks signal = true) : C.Ending leaks frames flow := by
  refine ⟨hvalue, fun other hother => ?_⟩
  rw [hflow] at hother
  cases hother
  exact hleaks

namespace Eval

/-- What the evaluators of the parts have to offer. -/
structure PartsMeet (C : Contract) (eval : Expr → Run Value) (exec : Stmt → Run Flow) : Prop where
  expr : ∀ {e : Expr} {m : Machine}, e.Every C.tree → C.Good m →
    Meets C C.within m (eval e) C.Holds
  stmt : ∀ {s : Stmt} {m : Machine}, s.Every C.tree → C.Good m →
    Meets C (C.through s) m (exec s) (C.Ending (s.leaks ·))

section Parts

variable {eval : Expr → Run Value} {exec : Stmt → Run Flow}

variable (hC : C.Lawful setup) (h : PartsMeet C eval exec)

include hC

/-- A statement that declares nothing keeps the names of its frame, which is more than
what is asked of statements in a row. -/
theorem through_widen (s : Stmt) {m m' : Machine} (h : C.through s m m') : C.across m m' := by
  cases hdeclares : s.declares? with
  | some name =>
    rw [Contract.through, hdeclares] at h
    exact h
  | none =>
    rw [Contract.through, hdeclares] at h
    exact hC.widen h

include h

-- ======================================================= sequences

/-- Items are evaluated one after the other, and a value that was found stays good while
the later ones are. -/
theorem list_meets {items : List Expr} (hitems : ∀ e ∈ items, e.Every C.tree) (hm : C.Good m) :
    Meets C C.within m (list eval items) fun frames vs => ∀ v ∈ vs, C.Holds frames v := by
  induction items generalizing m with
  | nil => exact .pure hm (hC.refl m) fun _ hv => nomatch hv
  | cons e rest ih =>
    obtain ⟨he, hrest⟩ := List.forall_mem_cons.1 hitems
    refine (h.expr he hm).bind hC.trans fun v m₁ h₁ hv => ?_
    refine (ih hrest h₁.good).bind hC.trans fun vs m₂ h₂ hvs => ?_
    exact .pure h₂.good (hC.refl m₂) (List.forall_mem_cons.2 ⟨hC.holds_mono h₂.grown hv, hvs⟩)

/-- As for items, with the entries that are already there carried along. -/
private theorem entries_meets {items : List (Expr × Expr)}
    (hitems : ∀ entry ∈ items, entry.1.Every C.tree ∧ entry.2.Every C.tree)
    {done : Entries MapKey Value} (hm : C.Good m)
    (hdone : ∀ entry ∈ done, C.Holds m.heap.size entry.2) :
    Meets C C.within m (entries eval items done) fun frames all =>
      ∀ entry ∈ all, C.Holds frames entry.2 := by
  induction items generalizing m done with
  | nil => exact .pure hm (hC.refl m) hdone
  | cons entry rest ih =>
    obtain ⟨⟨hkey, hvalue⟩, hrest⟩ := List.forall_mem_cons.1 hitems
    refine (h.expr hkey hm).bind hC.trans fun keyValue m₁ h₁ _ => ?_
    refine (Meets.at (Q := fun _ _ => True) hC h₁.good (hC.plain hkey.here)
      (MapKey.ofValue_answers keyValue)).bind hC.trans fun key m₂ h₂ _ => ?_
    refine (h.expr hvalue h₂.good).bind hC.trans fun value m₃ h₃ hv => ?_
    refine ih hrest h₃.good (Entries.forall_put hv fun old hold => ?_)
    have hgrown := Nat.le_trans h₁.grown (Nat.le_trans h₂.grown h₃.grown)
    exact hC.holds_mono hgrown (hdone old hold)

/-- Statements in a row end in a signal only if one of them leaks it: the first that does
not go on decides. -/
private theorem sequence_meets {body : List Stmt} (hbody : ∀ s ∈ body, s.Every C.tree)
    (hm : C.Good m) :
    Meets C C.across m (sequence exec body) (C.Ending (Stmt.leaksIn · body)) := by
  induction body generalizing m with
  | nil => exact .pure hm (hC.widen (hC.refl m)) (ending_normal Value.every_nil)
  | cons s rest ih =>
    obtain ⟨hs, hrest⟩ := List.forall_mem_cons.1 hbody
    have hfirst := (h.stmt hs hm).mono (through_widen hC s) fun _ _ hflow => hflow
    refine hfirst.bind hC.trans' fun flow m₁ h₁ hflow => ?_
    have hrefl := hC.widen (hC.refl m₁)
    -- a signal of the first statement is one of them all
    have hends : C.Ending (Stmt.leaksIn · (s :: rest)) m₁.heap.size flow :=
      hflow.mono fun signal hleaks => by rw [Stmt.leaksIn, hleaks, Bool.true_or]
    cases flow with
    | normal v =>
      refine (ih hrest h₁.good).mono id fun _ _ hflow => hflow.mono fun signal hleaks => ?_
      rw [Stmt.leaksIn, hleaks, Bool.or_true]
    | return_ v => exact .pure h₁.good hrefl hends
    | break_ => exact .pure h₁.good hrefl hends
    | continue_ => exact .pure h₁.good hrefl hends

/-- A block is a row of statements in a frame of its own, which is why the names it binds
do not matter outside. -/
theorem block_meets {body : List Stmt} (hbody : ∀ s ∈ body, s.Every C.tree) (hm : C.Good m)
    {bindings : Entries String Value}
    (hbindings : ∀ binding ∈ bindings, C.Holds m.heap.size binding.2) :
    Meets C C.within m (block exec bindings body) (C.Ending (Stmt.leaksIn · body)) :=
  inFrame_meets hC hm
    (sequence_meets hC h hbody (hC.good_entered hm hm.scope hbindings))

/-- A condition gives a truth value or a fault; no value comes out of it that a contract
could speak of. -/
theorem condition_meets {e : Expr} (he : e.Every C.tree) (demand : Demand) (hm : C.Good m) :
    Meets C C.within m (condition eval demand e) fun _ _ => True := by
  refine (h.expr he hm).bind hC.trans fun v m₁ h₁ _ => ?_
  exact Meets.at hC h₁.good (hC.plain he.here) (Value.truth_answers demand v)

-- =========================================================== loops

omit h in
/-- A loop takes the signals of its body, except that it lets `return` pass. -/
theorem repeatWhile_meets {test : Run Bool} {body : Run Flow} {leaks : Signal → Bool}
    (htest : ∀ {m}, C.Good m → Meets C C.within m test fun _ _ => True)
    (hbody : ∀ {m}, C.Good m → Meets C C.within m body (C.Ending leaks)) (rounds : Nat)
    (hm : C.Good m) :
    Meets C C.within m (repeatWhile test body rounds)
      (C.Ending fun signal => signal = .return_ && leaks signal) := by
  induction rounds generalizing m with
  | zero => exact trivial
  | succ rounds ih =>
    refine (htest hm).bind hC.trans fun holds m₁ h₁ _ => ?_
    cases holds with
    | false => exact .pure h₁.good (hC.refl m₁) (ending_normal Value.every_nil)
    | true =>
      refine (hbody h₁.good).bind hC.trans fun flow m₂ h₂ hflow => ?_
      cases flow with
      | normal v => exact ih h₂.good
      | continue_ => exact ih h₂.good
      | break_ => exact .pure h₂.good (hC.refl m₂) (ending_normal Value.every_nil)
      | return_ v =>
        exact .pure h₂.good (hC.refl m₂)
          (ending_signal hflow.value rfl (by rw [hflow.signal .return_ rfl]; rfl))

omit h in
/-- The same for a loop over items, each of which is good when its round begins. -/
private theorem repeatFor_meets {body : Value → Run Flow} {leaks : Signal → Bool}
    (hbody : ∀ {m v}, C.Good m → C.Holds m.heap.size v →
      Meets C C.within m (body v) (C.Ending leaks))
    {items : List Value} (hm : C.Good m) (hitems : ∀ v ∈ items, C.Holds m.heap.size v) :
    Meets C C.within m (repeatFor body items)
      (C.Ending fun signal => signal = .return_ && leaks signal) := by
  induction items generalizing m with
  | nil => exact .pure hm (hC.refl m) (ending_normal Value.every_nil)
  | cons item rest ih =>
    obtain ⟨hitem, hrest⟩ := List.forall_mem_cons.1 hitems
    refine (hbody hm hitem).bind hC.trans fun flow m₁ h₁ hflow => ?_
    have hlater : ∀ v ∈ rest, C.Holds m₁.heap.size v :=
      fun v hv => hC.holds_mono h₁.grown (hrest v hv)
    cases flow with
    | normal v => exact ih h₁.good hlater
    | continue_ => exact ih h₁.good hlater
    | break_ => exact .pure h₁.good (hC.refl m₁) (ending_normal Value.every_nil)
    | return_ v =>
      exact .pure h₁.good (hC.refl m₁)
        (ending_signal hflow.value rfl (by rw [hflow.signal .return_ rfl]; rfl))

-- =========================================================== calls

omit hC h in
/-- Binding parameters brings in nothing but the arguments. -/
theorem parameters_forall {P : Value → Prop} (code : Code) {args : List Value}
    (hargs : ∀ v ∈ args, P v) : ∀ binding ∈ parameters code args, P binding.2 := by
  have hfold (pairs : List (Param × Value)) (hpairs : ∀ pair ∈ pairs, P pair.2)
      (bound : Entries String Value) (hbound : ∀ binding ∈ bound, P binding.2) :
      ∀ binding ∈ pairs.foldl
        (fun bound pair => Entries.put pair.1.name pair.2 bound) bound, P binding.2 := by
    induction pairs generalizing bound with
    | nil => exact hbound
    | cons pair rest ih =>
      obtain ⟨hpair, hrest⟩ := List.forall_mem_cons.1 hpairs
      exact ih hrest _ (Entries.forall_put hpair hbound)
  refine hfold _ (fun pair hpair => ?_) [] (List.forall_mem_nil _)
  exact hargs _ (List.of_mem_zip hpair).2

/-- A call of a function runs its body in a new frame under the function's own, not under
the caller's. A body ends in a signal at most by `return`, and any other is the fault at
the call. -/
private theorem callClosure_meets {pos : Position} {callee : Expr} {operands : List Expr}
    (hcall : C.tree.expr (.call pos callee operands)) (hm : C.Good m) {f : Closure}
    (hf : C.Admits m.heap.size f) {args : List Value}
    (hargs : ∀ v ∈ args, C.Holds m.heap.size v) :
    Meets C C.within m (callClosure setup exec f args pos) C.Holds := by
  have hplain : C.PlainAt pos := hC.plain hcall
  unfold Meets callClosure
  by_cases harity : args.length ≠ f.code.arity
  · rw [if_pos harity]
    exact Meets.fault (Q := C.Holds) hm (hC.refl m) (hplain _ rfl)
  by_cases hdepth : setup.maxDepth ≤ m.depth
  · rw [if_neg harity, if_pos hdepth]
    exact Meets.fault (Q := C.Holds) hm (hC.refl m) (hplain _ rfl)
  rw [if_neg harity, if_neg hdepth]
  -- past both checks: a body in a fresh frame, one call deeper
  have hcalled : C.Good m.called :=
    ⟨hC.call hm.machine (Nat.lt_of_not_le hdepth), hm.scope, hm.frames⟩
  have hbody : Meets C C.within m
      (Run.inCall (Run.inFrame f.frame (parameters f.code args) (sequence exec f.code.body)))
      (C.Ending (Stmt.leaksIn · f.code.body)) := by
    refine inCall_meets hC hm (inFrame_meets hC hcalled ?_)
    exact sequence_meets hC h hf.code.body
      (hC.good_entered hcalled hf.frame (parameters_forall f.code hargs))
  suffices hresult : Meets C C.within m (_ >>= callResult pos) C.Holds from hresult
  refine hbody.bind hC.trans fun flow m₁ h₁ hflow => ?_
  cases flow with
  | return_ v => exact .pure h₁.good (hC.refl m₁) hflow.value
  | normal v => exact .pure h₁.good (hC.refl m₁) Value.every_nil
  -- a signal that got out of the body can only be one that the body leaks
  | break_ =>
    exact .fault h₁.good (hC.refl m₁) (hC.escape hcall hf nofun (hflow.signal .break_ rfl))
  | continue_ =>
    exact .fault h₁.good (hC.refl m₁) (hC.escape hcall hf nofun (hflow.signal .continue_ rfl))

/-- A call of anything: a function, a routine of the host, or a value that cannot be
called. -/
theorem call_meets {pos : Position} {callee : Expr} {operands : List Expr}
    (hcall : C.tree.expr (.call pos callee operands)) (hm : C.Good m) {v : Value}
    (hv : C.Holds m.heap.size v) {args : List Value}
    (hargs : ∀ v ∈ args, C.Holds m.heap.size v) :
    Meets C C.within m (call setup exec v args pos) C.Holds := by
  cases v with
  | native n => exact native_meets hC hm n hargs (hC.plain hcall)
  | function f => exact callClosure_meets hC h hcall hm (Value.every_function.1 hv) hargs
  | _ => exact .fault hm (hC.refl m) (hC.plain hcall _ rfl)

-- ========================================================== places

omit hC h in
/-- The places where an assignment may find fault with values. -/
def PlacePlain (C : Contract) (p : Place) : Prop :=
  C.PlainAt p.pos ∧ ∀ step ∈ p.path, C.PlainAt step.2

/-- Resolving a target evaluates its keys. Only a target that is no place at all is
refused, and the contract must have the fault for it. -/
theorem place_meets : ∀ {target : Expr} {m : Machine}, target.Every C.tree →
    (target.IsPlace = false → ∀ e, C.tree.expr e → C.fault ⟨.invalidTarget, e.pos⟩) →
      C.Good m → Meets C C.within m (place eval target) fun _ p => PlacePlain C p
  | .name pos name, m, ht, _, hm => .pure hm (hC.refl m) ⟨hC.plain ht.here, nofun⟩
  | .index pos collection key, m, ht, hinvalid, hm => by
    have hparts := List.forall_mem_cons.1 ht.parts
    refine (place_meets hparts.1 hinvalid hm).bind hC.trans fun p m₁ h₁ hp => ?_
    refine (h.expr (hparts.2 key List.mem_cons_self) h₁.good).bind hC.trans fun k m₂ h₂ _ => ?_
    refine .pure h₂.good (hC.refl m₂) ⟨hp.1, fun step hstep => ?_⟩
    rcases List.mem_append.1 hstep with hold | hnew
    · exact hp.2 step hold
    · rw [List.mem_singleton.1 hnew]
      exact hC.plain ht.here
  | .literal .., m, ht, hinvalid, hm => .fault hm (hC.refl m) (hinvalid rfl _ ht.here)
  | .list .., m, ht, hinvalid, hm => .fault hm (hC.refl m) (hinvalid rfl _ ht.here)
  | .map .., m, ht, hinvalid, hm => .fault hm (hC.refl m) (hinvalid rfl _ ht.here)
  | .unary .., m, ht, hinvalid, hm => .fault hm (hC.refl m) (hinvalid rfl _ ht.here)
  | .binary .., m, ht, hinvalid, hm => .fault hm (hC.refl m) (hinvalid rfl _ ht.here)
  | .logical .., m, ht, hinvalid, hm => .fault hm (hC.refl m) (hinvalid rfl _ ht.here)
  | .call .., m, ht, hinvalid, hm => .fault hm (hC.refl m) (hinvalid rfl _ ht.here)
  | .function .., m, ht, hinvalid, hm => .fault hm (hC.refl m) (hinvalid rfl _ ht.here)

omit h in
/-- Reading a place is reading its root and going down the path. -/
theorem load_meets (hm : C.Good m) {p : Place} (hp : PlacePlain C p) :
    Meets C C.within m (load p) C.Holds := by
  refine (get_meets hC hm hp.1 p.name).bind hC.trans fun root m₁ h₁ hroot => ?_
  exact .ofExcept hC h₁.good (Value.load_answers hroot hp.2)

omit h in
/-- Writing to a place reads the root again before it is written, so what the right side
did to it is kept. -/
private theorem store_meets (hm : C.Good m) {p : Place} (hp : PlacePlain C p) {value : Value}
    (hvalue : C.Holds m.heap.size value) :
    Meets C C.within m (store p value) fun _ _ => True := by
  refine (get_meets hC hm hp.1 p.name).bind hC.trans fun root m₁ h₁ hroot => ?_
  have hvalue := hC.holds_mono h₁.grown hvalue
  refine (Meets.ofExcept (Q := C.Holds) hC h₁.good
    (Value.store_answers hroot hvalue hp.2)).bind hC.trans fun root m₂ h₂ hroot => ?_
  exact assign_meets hC h₂.good hp.1 p.name hroot

/-- Both forms of an assignment's value: what stands on the right, or that joined to what
the place holds. -/
private theorem assigned_meets {pos : Position} (hpos : C.PlainAt pos) (hm : C.Good m) {p : Place}
    (hp : PlacePlain C p) (op : Option BinaryOp) {value : Expr} (hvalue : value.Every C.tree) :
    Meets C C.within m (assigned eval pos p op value) C.Holds := by
  cases op with
  | none => exact h.expr hvalue hm
  | some op =>
    refine (load_meets hC hm hp).bind hC.trans fun old m₁ h₁ _ => ?_
    refine (h.expr hvalue h₁.good).bind hC.trans fun right m₂ h₂ _ => ?_
    exact Meets.at hC h₂.good hpos (BinaryOp.apply_answers op old right)

-- =========================================================== steps

/-- One layer of an expression meets the contract if what stands in it does. -/
private theorem step_expr_meets {e : Expr} (he : e.Every C.tree) (hm : C.Good m) :
    Meets C C.within m (e.step setup eval exec) C.Holds := by
  have hplain := hC.plain he.here
  cases e with
  | literal pos value => exact .pure hm (hC.refl m) (Literal.value_every value)
  | list pos items =>
    refine (list_meets hC h he.parts hm).bind hC.trans fun vs m₁ h₁ hvs => ?_
    exact .pure h₁.good (hC.refl m₁) (Value.every_list.2 hvs)
  | map pos entries =>
    have hparts := Expr.forall_entry he.parts
    refine (entries_meets hC h hparts hm (List.forall_mem_nil _)).bind hC.trans
      fun all m₁ h₁ hall => ?_
    exact .pure h₁.good (hC.refl m₁) (Value.every_map.2 hall)
  | name pos name => exact get_meets hC hm hplain name
  | unary pos op operand =>
    refine (h.expr (he.parts operand List.mem_cons_self) hm).bind hC.trans fun v m₁ h₁ _ => ?_
    exact Meets.at hC h₁.good hplain (UnaryOp.apply_answers op v)
  | binary pos op left right =>
    obtain ⟨hleft, hright⟩ := List.forall_mem_cons.1 he.parts
    refine (h.expr hleft hm).bind hC.trans fun l m₁ h₁ _ => ?_
    refine (h.expr (hright right List.mem_cons_self) h₁.good).bind hC.trans fun r m₂ h₂ _ => ?_
    exact Meets.at hC h₂.good hplain (BinaryOp.apply_answers op l r)
  | logical pos op left right =>
    obtain ⟨hleft, hright⟩ := List.forall_mem_cons.1 he.parts
    refine (condition_meets hC h hleft _ hm).bind hC.trans fun l m₁ h₁ _ => ?_
    split
    · exact .pure h₁.good (hC.refl m₁) (Value.every_bool l)
    · refine (condition_meets hC h (hright right List.mem_cons_self) _ h₁.good).bind hC.trans
        fun r m₂ h₂ _ => ?_
      exact .pure h₂.good (hC.refl m₂) (Value.every_bool r)
  | call pos callee args =>
    obtain ⟨hcallee, hargs⟩ := List.forall_mem_cons.1 he.parts
    refine (h.expr hcallee hm).bind hC.trans fun v m₁ h₁ hv => ?_
    refine (list_meets hC h hargs h₁.good).bind hC.trans fun vs m₂ h₂ hvs => ?_
    exact call_meets hC h he.here h₂.good (hC.holds_mono h₂.grown hv) hvs
  | index pos collection key =>
    obtain ⟨hcollection, hkey⟩ := List.forall_mem_cons.1 he.parts
    refine (h.expr hcollection hm).bind hC.trans fun c m₁ h₁ hc => ?_
    refine (h.expr (hkey key List.mem_cons_self) h₁.good).bind hC.trans fun k m₂ h₂ _ => ?_
    exact Meets.at hC h₂.good hplain (Value.item_answers (hC.holds_mono h₂.grown hc) k)
  | function pos code => exact closure_meets hC hm (he.code code rfl)

/-- One layer of a statement. Each case names the relation of its own kind of statement: a
declaration binds a name, everything else stays inside. -/
private theorem step_stmt_meets (rounds : Nat) {s : Stmt} (hs : s.Every C.tree) (hm : C.Good m) :
    Meets C (C.through s) m (s.step eval exec rounds) (C.Ending (s.leaks ·)) := by
  have hnormal {leaks : Signal → Bool} (frames : Nat) :
      C.Ending leaks frames (.normal .nil) := ending_normal Value.every_nil
  cases s with
  | let_ pos name value =>
    -- a binding is made on the way, so the steps are widened to `C.across`
    have hvalue := (h.expr (hs.exprs value List.mem_cons_self) hm).mono hC.widen fun _ _ hv => hv
    refine hvalue.bind hC.trans' fun v m₁ h₁ hv => ?_
    refine (define_meets hC h₁.good name hv).bind hC.trans' fun _ m₂ h₂ _ => ?_
    exact .pure h₂.good (hC.widen (hC.refl m₂)) (hnormal _)
  | assign pos target op value =>
    obtain ⟨htarget, hvalue⟩ := List.forall_mem_cons.1 hs.exprs
    refine (place_meets hC h htarget (fun hplace _ he => hC.target hs.here hplace he) hm).bind
      hC.trans fun p m₁ h₁ hp => ?_
    refine (assigned_meets hC h (hC.compound hs.here) h₁.good hp op
      (hvalue value List.mem_cons_self)).bind hC.trans fun v m₂ h₂ hv => ?_
    refine (store_meets hC h₂.good hp hv).bind hC.trans fun _ m₃ h₃ _ => ?_
    exact .pure h₃.good (hC.refl m₃) (hnormal _)
  | expr pos value =>
    refine (h.expr (hs.exprs value List.mem_cons_self) hm).bind hC.trans fun v m₁ h₁ hv => ?_
    exact .pure h₁.good (hC.refl m₁) (ending_normal hv)
  | if_ pos condition yes no =>
    refine (condition_meets hC h (hs.exprs condition List.mem_cons_self) _ hm).bind hC.trans
      fun holds m₁ h₁ _ => ?_
    have hyes : Meets C C.within m₁ (block exec [] yes) (C.Ending (Stmt.leaksIn · yes)) :=
      block_meets hC h (fun s hin => hs.parts s (List.mem_append_left _ hin)) h₁.good
        (List.forall_mem_nil _)
    cases no with
    | none =>
      cases holds with
      | true => exact hyes
      | false => exact .pure h₁.good (hC.refl m₁) (hnormal _)
    | some no =>
      have hno : Meets C C.within m₁ (block exec [] no) (C.Ending (Stmt.leaksIn · no)) :=
        block_meets hC h (fun s hin => hs.parts s (List.mem_append_right _ hin)) h₁.good
          (List.forall_mem_nil _)
      cases holds with
      | true =>
        refine hyes.mono id fun _ _ hflow => hflow.mono fun signal hleaks => ?_
        -- an `if` leaks what either block leaks
        rw [Stmt.leaks, hleaks, Bool.true_or]
      | false =>
        refine hno.mono id fun _ _ hflow => hflow.mono fun signal hleaks => ?_
        rw [Stmt.leaks, hleaks, Bool.or_true]
  | while_ pos condition body =>
    refine repeatWhile_meets hC (fun hm => ?_) (fun hm => ?_) rounds hm
    · exact condition_meets hC h (hs.exprs condition List.mem_cons_self) _ hm
    · exact block_meets hC h hs.parts hm nofun
  | for_ pos name iterable body =>
    have hiterable := hs.exprs iterable List.mem_cons_self
    refine (h.expr hiterable hm).bind hC.trans fun c m₁ h₁ hc => ?_
    refine (Meets.at (Q := fun frames items => ∀ v ∈ items, C.Holds frames v) hC h₁.good
      (hC.plain hiterable.here) (Value.items_answers hc)).bind hC.trans fun items m₂ h₂ hitems => ?_
    refine repeatFor_meets hC (fun hm hv => ?_) h₂.good hitems
    exact block_meets hC h hs.parts hm (List.forall_mem_cons.2 ⟨hv, nofun⟩)
  | function pos code =>
    have hcode := (closure_meets hC hm (hs.code code rfl)).mono hC.widen fun _ _ hv => hv
    refine hcode.bind hC.trans' fun v m₁ h₁ hv => ?_
    refine (define_meets hC h₁.good _ hv).bind hC.trans' fun _ m₂ h₂ _ => ?_
    exact .pure h₂.good (hC.widen (hC.refl m₂)) (hnormal _)
  | return_ pos value =>
    cases value with
    | none => exact .pure hm (hC.refl m) (ending_signal Value.every_nil rfl rfl)
    | some value =>
      refine (h.expr (hs.exprs value List.mem_cons_self) hm).bind hC.trans fun v m₁ h₁ hv => ?_
      exact .pure h₁.good (hC.refl m₁) (ending_signal hv rfl rfl)
  | break_ pos => exact .pure hm (hC.refl m) (ending_signal Value.every_nil rfl rfl)
  | continue_ pos => exact .pure hm (hC.refl m) (ending_signal Value.every_nil rfl rfl)
  | block pos body => exact block_meets hC h hs.parts hm nofun

end Parts

-- ====================================================== evaluation

/-- Evaluation meets every lawful contract. -/
theorem meets (hC : C.Lawful setup) (budget : Nat) :
    PartsMeet C (Expr.eval setup budget) (Stmt.exec setup budget) := by
  induction budget with
  | zero =>
    refine ⟨fun _ _ => ?_, fun _ _ => ?_⟩
    · rw [Meets, Expr.eval]
      trivial
    · rw [Meets, Stmt.exec]
      trivial
  | succ budget ih =>
    refine ⟨fun he hm => ?_, fun hs hm => ?_⟩
    · rw [Meets, Expr.eval]
      exact step_expr_meets hC ih he hm
    · rw [Meets, Stmt.exec]
      exact step_stmt_meets hC ih budget hs hm

end Eval

-- ======================================================== programs

/-- Programs meet every lawful contract, if it permits the signals that their
statements leak to be faults. -/
theorem Program.results_meets (hC : C.Lawful setup) {exec : Stmt → Run Flow}
    (hexec : ∀ {s : Stmt} {m : Machine}, s.Every C.tree → C.Good m →
      Meets C (C.through s) m (exec s) (C.Ending (s.leaks ·)))
    {program : Program} (hprogram : program.Every C.tree)
    (huncaught : ∀ s ∈ program, ∀ signal, s.leaks signal = true →
      C.fault ⟨.uncaught signal, s.pos⟩)
    (hm : C.Good m) {last : Value} (hlast : C.Holds m.heap.size last) :
    Meets C C.across m (Program.results exec program last) C.Holds := by
  induction program generalizing m last with
  | nil => exact .pure hm (hC.widen (hC.refl m)) hlast
  | cons s rest ih =>
    obtain ⟨hs, hrest⟩ := List.forall_mem_cons.1 hprogram
    obtain ⟨hcatch, hcatches⟩ := List.forall_mem_cons.1 huncaught
    have hfirst := (hexec hs hm).mono (Eval.through_widen hC s) fun _ _ hflow => hflow
    refine hfirst.bind hC.trans' fun flow m₁ h₁ hflow => ?_
    have hrefl := hC.widen (hC.refl m₁)
    cases flow with
    | normal v =>
      refine ih hrest hcatches h₁.good ?_
      split
      · exact hflow.value
      · exact hC.holds_mono h₁.grown hlast
    | return_ v => exact .fault h₁.good hrefl (hcatch _ (hflow.signal .return_ rfl))
    | break_ => exact .fault h₁.good hrefl (hcatch _ (hflow.signal .break_ rfl))
    | continue_ => exact .fault h₁.good hrefl (hcatch _ (hflow.signal .continue_ rfl))

end Scriptlet
