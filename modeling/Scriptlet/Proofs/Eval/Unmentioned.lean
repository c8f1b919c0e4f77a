/-
Outermost bindings that a program does not mention. A program looks names up, and
binds and assigns names, only as it spells them, and so do the functions that it
calls. So bindings of other names in the outermost frame cannot influence it: without
them it does the same (`Interpreter.evalProgram_unmentioned`).

# Two runs

Two runs are compared moment by moment: one on a machine, the other on the same
machine without the bindings. `Run.Overlooks` says that leaving the bindings out
commutes with a computation, that the bindings are still there afterwards, and that
the machine and the result are still such that the next computation can be compared.
For that, the functions at hand must not mention the names either: no more than the
contract of what is stored asks (`Contract.stored`).

# Two hosts

An interpreter without the prelude has another host, too. Hosts cannot be told apart
as long as no native function is called that they disagree on, so the comparison also
keeps track of the native functions among values (`Value.EveryNative`).
-/
import Scriptlet.Proofs.Eval.Reach
import Scriptlet.Proofs.Eval.Without

namespace Scriptlet

variable {α β : Type}

-- ======================================================== mentions

/-- The name that an expression looks up. -/
def Expr.name? : Expr → Option String
  | .name _ ident => some ident
  | _ => none

/-- None of some names is looked up, assigned or bound in a frame that is there
already. -/
def Tree.Rule.avoiding (names : List String) : Tree.Rule where
  expr e := ∀ name ∈ e.name?, name ∉ names
  stmt s := ∀ name ∈ s.declares?, name ∉ names

/-- What two runs differ in: names that the first one goes without, and the native
functions that both may call. `start` is the heap that the first run starts from. -/
structure Omission where
  names : List String
  native : Native → Prop
  start : Heap
  root : Machine.root < start.size

namespace Omission

variable (O : Omission)

/-- The contract of the first run. -/
def contract : Contract := .stored (.avoiding O.names) (fun _ => True) O.start

/-- The functions that both runs may call. -/
def Admits (f : Closure) : Prop := f.code.Every (.avoiding O.names) ∧ O.start.Accessible f.frame

/-- The values that both runs may compute. -/
structure Fit (v : Value) : Prop where
  functions : v.Every O.Admits
  natives : v.EveryNative O.native

/-- The machines of the second run. -/
structure Apart (m : Machine) : Prop where
  good : O.contract.Good (m.without O.names)
  natives : ∀ (i : Nat) (f : Frame), (m.without O.names).heap[i]? = some f →
    ∀ binding ∈ f.bindings, binding.2.EveryNative O.native

/-- From one machine of the second run to another. -/
structure Follows (m m' : Machine) : Prop where
  apart : O.Apart m'
  only : m'.heap.only O.names = m.heap.only O.names

/-- The setups of two runs: as much room, and hosts that agree on the native functions
that may be called. -/
structure Alike (setup setup' : Setup) : Prop where
  maxDepth : setup'.maxDepth = setup.maxDepth
  call : ∀ f, O.native f → f.call setup'.host = f.call setup.host
  lends : setup.host.Lends O.Admits
  natives : ∀ f, O.native f → ∀ args : List Value, (∀ v ∈ args, v.EveryNative O.native) →
    ∀ transcript v, (f.call setup.host args transcript).1 = .ok v → v.EveryNative O.native

variable {O}

instance : Value.Inherited O.Fit where
  list := ⟨fun h v hv => ⟨Value.Inherited.list.1 h.functions v hv,
      Value.Inherited.list.1 h.natives v hv⟩,
    fun h => ⟨Value.Inherited.list.2 fun v hv => (h v hv).functions,
      Value.Inherited.list.2 fun v hv => (h v hv).natives⟩⟩
  map := ⟨fun h entry hentry => ⟨Value.Inherited.map.1 h.functions entry hentry,
      Value.Inherited.map.1 h.natives entry hentry⟩,
    fun h => ⟨Value.Inherited.map.2 fun entry hentry => (h entry hentry).functions,
      Value.Inherited.map.2 fun entry hentry => (h entry hentry).natives⟩⟩
  nil := ⟨Value.every_nil, .nil⟩
  bool b := ⟨Value.every_bool b, .bool b⟩
  number n := ⟨Value.every_number n, .number n⟩
  string s := ⟨Value.every_string s, .string s⟩

private theorem fit_nil : O.Fit .nil := Value.Inherited.nil

private theorem holds_iff {frames : Nat} {v : Value} :
    O.contract.Holds frames v ↔ v.Every O.Admits := by
  have hadmits : O.contract.Admits frames = O.Admits :=
    funext fun f => propext (Contract.stored_admits frames f)
  rw [Contract.Holds, hadmits]

/-- Where there is no host, nothing else is needed. -/
theorem lawful : O.contract.Lawful ⟨[], 0⟩ :=
  Contract.stored_lawful_of (Host.lends_nil _) (fun _ _ _ _ => trivial)
    (fun _ _ _ _ _ _ _ => trivial) (fun _ _ => trivial) fun _ _ _ _ _ _ _ _ _ => trivial

-- ======================================================== machines

/-- Nothing has happened: the set-aside bindings are what they are. -/
theorem Follows.refl {m : Machine} (hm : O.Apart m) : O.Follows m m := ⟨hm, rfl⟩

/-- What leaves the set-aside bindings alone twice leaves them alone. -/
theorem Follows.trans {m m' m'' : Machine} (h : O.Follows m m') (h' : O.Follows m' m'') :
    O.Follows m m'' :=
  ⟨h'.apart, h'.only.trans h.only⟩

namespace Apart

variable {m : Machine}

/-- There is an outermost frame. -/
theorem root (hm : O.Apart m) : Machine.root < m.heap.size := by
  have hgrown : O.start.size ≤ (m.heap.without O.names).size := hm.good.machine
  rw [Heap.size_without] at hgrown
  exact Nat.lt_of_lt_of_le O.root hgrown

/-- Only the heap counts, and that the frame where the machine stands can be come to. -/
theorem of_heap_eq (hm : O.Apart m) {m' : Machine} (hheap : m'.heap = m.heap)
    (hscope : O.start.Accessible m'.scope) : O.Apart m' := by
  obtain ⟨heap', scope', _, _, _⟩ := m'
  cases hheap
  exact ⟨⟨hm.good.machine, hscope, hm.good.frames⟩, hm.natives⟩

/-- What a name that is not left out means is fit. -/
theorem find? (hm : O.Apart m) {name : String} (hname : name ∉ O.names) {owner : Nat} {v : Value}
    (h : m.heap.find? m.scope name = some (owner, v)) : O.Fit v := by
  rw [← Heap.find?_without hname] at h
  refine ⟨holds_iff.1 (hm.good.find? hm.good.scope h).2, ?_⟩
  obtain ⟨f, hframe, hfound⟩ := Heap.get?_of_find? h
  exact hm.natives owner f hframe _ (Entries.mem_of_get? hfound)

/-- Binding a name that is not left out to a fit value. -/
theorem defined (hm : O.Apart m) {name : String} (hname : name ∉ O.names) (frame : Nat)
    {value : Value} (hvalue : O.Fit value) : O.Follows m (m.defined frame name value) := by
  have hwithout := Machine.defined_without hname m frame value
  refine ⟨⟨?_, ?_⟩, Heap.define_only hname m.heap frame value⟩
  · rw [hwithout]
    refine hm.good.defined (holds_iff.2 hvalue.functions) ?_
    exact Nat.le_trans hm.good.machine (Nat.le_of_eq (Heap.size_define _ _ _ _).symm)
  · rw [hwithout]
    intro i f hf
    rw [Machine.defined, Heap.getElem?_define] at hf
    split at hf
    · obtain ⟨old, hold, rfl⟩ := Option.map_eq_some_iff.1 hf
      exact Entries.forall_put hvalue.natives (hm.natives i old hold)
    · exact hm.natives i f hf

/-- Entering a frame with fit bindings. -/
theorem entered (hm : O.Apart m) {parent : Nat} (hparent : O.start.Accessible parent)
    {bindings : Entries String Value} (hbindings : ∀ binding ∈ bindings, O.Fit binding.2) :
    O.Follows m (m.entered parent bindings) := by
  have hwithout : (m.entered parent bindings).without O.names
      = (m.without O.names).entered parent bindings := m.entered_without hm.root parent bindings
  refine ⟨⟨?_, ?_⟩, Heap.alloc_only m.heap hm.root _ _⟩
  · rw [hwithout]
    exact lawful.good_entered hm.good hparent fun binding hbinding =>
      holds_iff.2 (hbindings binding hbinding).functions
  · rw [hwithout]
    intro i f hf
    rw [Machine.entered, Heap.getElem?_alloc] at hf
    split at hf
    · cases hf
      exact fun binding hbinding => (hbindings binding hbinding).natives
    · exact hm.natives i f hf

end Apart

end Omission

-- ==================================================== computations

/-- On a machine of the second run, `y` does what `x` does on the same machine without
the bindings that are left out; it leaves those alone, and gets to a machine of the
second run, with a result that `Q` holds of. -/
def Run.Overlooks (O : Omission) (x y : Run α) (Q : α → Prop) (m : Machine) : Prop :=
  x (m.without O.names) = (y m).mapState (·.without O.names)
    ∧ match y m with
      | .done a m' => O.Follows m m' ∧ Q a
      | .failed _ m' => O.Follows m m'
      | .exhausted => True

variable {O : Omission} {setup setup' : Setup} {m : Machine}

namespace Run

variable {x y : Run α} {Q : α → Prop} {Q' : β → Prop}

/-- The three endings of a pair of runs that overlook the names, each from what both of
them do. -/
private theorem Overlooks.of_done {a : α} {m' : Machine} (hy : y m = .done a m')
    (hx : x (m.without O.names) = .done a (m'.without O.names)) (hfollows : O.Follows m m')
    (ha : Q a) : Overlooks O x y Q m := by
  unfold Overlooks
  rw [hy]
  exact ⟨hx, hfollows, ha⟩

private theorem Overlooks.of_failed {fault : Fault} {m' : Machine} (hy : y m = .failed fault m')
    (hx : x (m.without O.names) = .failed fault (m'.without O.names))
    (hfollows : O.Follows m m') : Overlooks O x y Q m := by
  unfold Overlooks
  rw [hy]
  exact ⟨hx, hfollows⟩

private theorem Overlooks.of_exhausted (hy : y m = .exhausted)
    (hx : x (m.without O.names) = .exhausted) : Overlooks O x y Q m := by
  unfold Overlooks
  rw [hy]
  exact ⟨hx, trivial⟩

/-- Only what the computations do on these machines counts. -/
theorem Overlooks.congr {x' y' : Run α} (h : Overlooks O x' y' Q m)
    (hx : x (m.without O.names) = x' (m.without O.names)) (hy : y m = y' m) :
    Overlooks O x y Q m := by
  unfold Overlooks
  rw [hx, hy]
  exact h

/-- The three ways in which two computations that are compared may end. -/
theorem Overlooks.cases (h : Overlooks O x y Q m) :
    (∃ a m', y m = .done a m' ∧ x (m.without O.names) = .done a (m'.without O.names)
        ∧ O.Follows m m' ∧ Q a)
      ∨ (∃ fault m', y m = .failed fault m'
        ∧ x (m.without O.names) = .failed fault (m'.without O.names) ∧ O.Follows m m')
      ∨ (y m = .exhausted ∧ x (m.without O.names) = .exhausted) := by
  unfold Overlooks at h
  cases hy : y m with
  | done a m' =>
    rw [hy] at h
    exact .inl ⟨a, m', rfl, h⟩
  | failed fault m' =>
    rw [hy] at h
    exact .inr (.inl ⟨fault, m', rfl, h⟩)
  | exhausted =>
    rw [hy] at h
    exact .inr (.inr ⟨rfl, h.1⟩)

/-- A computation on another machine, and then the way back from there. -/
theorem Overlooks.around {x' y' : Run α} {inner : Machine} (h : Overlooks O x y Q inner)
    (back : Machine → Machine)
    (hx : x' (m.without O.names) = (x (inner.without O.names)).mapState back)
    (hy : y' m = (y inner).mapState back)
    (hback : ∀ m', (back m').without O.names = back (m'.without O.names))
    (hfollows : ∀ m', O.Follows inner m' → O.Follows m (back m')) : Overlooks O x' y' Q m := by
  rcases h.cases with ⟨a, m', hy', hx', h, ha⟩ | ⟨fault, m', hy', hx', h⟩ | ⟨hy', hx'⟩
  · rw [hy'] at hy
    rw [hx'] at hx
    refine .of_done hy (hx.trans ?_) (hfollows m' h) ha
    rw [hback]
    rfl
  · rw [hy'] at hy
    rw [hx'] at hx
    refine .of_failed hy (hx.trans ?_) (hfollows m' h)
    rw [hback]
    rfl
  · rw [hy'] at hy
    rw [hx'] at hx
    exact .of_exhausted hy hx

theorem Overlooks.pure (hm : O.Apart m) {a : α} (ha : Q a) :
    Overlooks O (Pure.pure a) (Pure.pure a) Q m :=
  .of_done rfl rfl (.refl hm) ha

theorem Overlooks.fault (hm : O.Apart m) (cause : Cause) (pos : Position) :
    Overlooks O (Run.fault cause pos) (Run.fault cause pos) Q m :=
  .of_failed rfl rfl (.refl hm)

/-- Two pairs in a row. The second starts from machines that are again equal up to the
names. -/
theorem Overlooks.bind {k l : α → Run β} (hx : Overlooks O x y Q m)
    (hk : ∀ a m', O.Follows m m' → Q a → Overlooks O (k a) (l a) Q' m') :
    Overlooks O (x >>= k) (y >>= l) Q' m := by
  rcases hx.cases with ⟨a, m', hy, hx, hfollows, ha⟩ | ⟨fault, m', hy, hx, hfollows⟩ | ⟨hy, hx⟩
  · rcases (hk a m' hfollows ha).cases with
      ⟨b, m'', hl, hk, hfollows', hb⟩ | ⟨fault, m'', hl, hk, hfollows'⟩ | ⟨hl, hk⟩
    · exact .of_done ((bind_of_done hy).trans hl) ((bind_of_done hx).trans hk)
        (hfollows.trans hfollows') hb
    · exact .of_failed ((bind_of_done hy).trans hl) ((bind_of_done hx).trans hk)
        (hfollows.trans hfollows')
    · exact .of_exhausted ((bind_of_done hy).trans hl) ((bind_of_done hx).trans hk)
  · exact .of_failed (bind_of_failed hy) (bind_of_failed hx) hfollows
  · exact .of_exhausted (bind_of_exhausted hy) (bind_of_exhausted hx)

/-- An operation on values is the same in both runs, since neither looks at the
machine. -/
theorem Overlooks.ofExcept (hm : O.Apart m) {result : Except Fault α}
    (h : AnswersAt (fun _ => True) Q result) :
    Overlooks O (Run.ofExcept result) (Run.ofExcept result) Q m := by
  cases result with
  | ok a => exact .of_done rfl rfl (.refl hm) h
  | error fault => exact .of_failed rfl rfl (.refl hm)

theorem Overlooks.at (hm : O.Apart m) (pos : Position) {result : Except Cause α}
    (h : Answers Q result) : Overlooks O (Run.at pos result) (Run.at pos result) Q m :=
  .ofExcept hm (h.at trivial)

-- ========================================================== scopes

/-- A name that is not set aside is found in the same frame with and without the
others. -/
private theorem get_overlooks (hm : O.Apart m) (pos : Position) {name : String}
    (hname : name ∉ O.names) : Overlooks O (Run.get pos name) (Run.get pos name) O.Fit m := by
  have hsame : (m.without O.names).heap.get m.scope name = m.heap.get m.scope name := by
    unfold Heap.get
    rw [show (m.without O.names).heap.find? m.scope name = m.heap.find? m.scope name from
      Heap.find?_without hname m.heap m.scope]
  have hanswers : Answers O.Fit (m.heap.get m.scope name) := by
    unfold Heap.get
    cases hfound : m.heap.find? m.scope name with
    | none => rfl
    | some found => exact hm.find? hname hfound
  exact (Overlooks.at hm pos hanswers).congr
    (congrArg (Run.at pos · (m.without O.names)) hsame) rfl

private theorem define_overlooks (hm : O.Apart m) {name : String} (hname : name ∉ O.names)
    {value : Value} (hvalue : O.Fit value) :
    Overlooks O (Run.define name value) (Run.define name value) (fun _ => True) m := by
  refine .of_done rfl ?_ (hm.defined hname m.scope hvalue) trivial
  show Outcome.done () ((m.without O.names).defined m.scope name value) = _
  rw [← Machine.defined_without hname]
  rfl

/-- Writing finds the same owner in both runs, or fails in both. -/
private theorem assign_overlooks (hm : O.Apart m) (pos : Position) {name : String}
    (hname : name ∉ O.names) {value : Value} (hvalue : O.Fit value) :
    Overlooks O (Run.assign pos name value) (Run.assign pos name value) (fun _ => True) m := by
  have hsame : (m.without O.names).heap.find? (m.without O.names).scope name
      = m.heap.find? m.scope name := Heap.find?_without hname m.heap m.scope
  cases hfound : m.heap.find? m.scope name with
  | none =>
    rw [hfound] at hsame
    have hfailed {n : Machine} (h : n.heap.find? n.scope name = none) :
        Run.assign pos name value n = .failed ⟨.undefined name, pos⟩ n := by
      unfold assign
      simp only [h]
    exact .of_failed (hfailed hfound) (hfailed hsame) (.refl hm)
  | some found =>
    rw [hfound] at hsame
    have hdone {n : Machine} (h : n.heap.find? n.scope name = some found) :
        Run.assign pos name value n = .done () (n.defined found.1 name value) := by
      unfold assign
      simp only [h]
      rfl
    refine .of_done (hdone hfound) ?_ (hm.defined hname found.1 hvalue) trivial
    rw [Machine.defined_without hname]
    exact hdone hsame

/-- A computation in a frame of its own, on whose way back the frame is left. -/
theorem inFrame_overlooks (hm : O.Apart m) {parent : Nat} (hparent : O.start.Accessible parent)
    {bindings : Entries String Value} (hbindings : ∀ binding ∈ bindings, O.Fit binding.2)
    (h : O.Apart (m.entered parent bindings) → Overlooks O x y Q (m.entered parent bindings)) :
    Overlooks O (Run.inFrame parent bindings x) (Run.inFrame parent bindings y) Q m := by
  have hentered := hm.entered hparent hbindings
  have hwithout : (m.entered parent bindings).without O.names
      = (m.without O.names).entered parent bindings := m.entered_without hm.root parent bindings
  have hleft {m' : Machine} (h : O.Follows (m.entered parent bindings) m') :
      O.Follows m { m' with scope := m.scope } :=
    ⟨h.apart.of_heap_eq rfl hm.good.scope, h.only.trans hentered.only⟩
  refine (h hentered.apart).around (fun m' => { m' with scope := m.scope }) ?_
    (inFrame_eq parent bindings y m) (fun _ => rfl) fun m' => hleft
  rw [hwithout]
  exact inFrame_eq parent bindings x (m.without O.names)

private theorem inCall_overlooks (hm : O.Apart m)
    (h : O.Apart m.called → Overlooks O x y Q m.called) :
    Overlooks O (Run.inCall x) (Run.inCall y) Q m := by
  have hcalled : O.Apart m.called := hm.of_heap_eq rfl hm.good.scope
  refine (h hcalled).around _ (inCall_eq x (m.without O.names)) (inCall_eq y m) (fun _ => rfl)
    fun m' hfollows => ?_
  exact ⟨hfollows.apart.of_heap_eq rfl hfollows.apart.good.scope, hfollows.only⟩

-- ======================================================= functions

/-- A function made here has code that avoids the names, and its frame is one that can be
reached. -/
private theorem closure_overlooks (hm : O.Apart m) {code : Code}
    (hcode : code.Every (.avoiding O.names)) :
    Overlooks O (Run.closure code) (Run.closure code) O.Fit m := by
  have hscope : O.start.Accessible m.scope := hm.good.scope
  have hnext : O.Apart { m with fresh := m.fresh + 1 } := hm.of_heap_eq rfl hscope
  exact .of_done rfl rfl ⟨hnext, rfl⟩ ⟨Value.every_function.2 ⟨hcode, hscope⟩, .function _⟩

/-- The hosts agree on the native functions at hand. -/
theorem native_overlooks (hsetup : O.Alike setup setup') (hm : O.Apart m) {f : Native}
    (hf : O.native f) {args : List Value} (hargs : ∀ v ∈ args, O.Fit v) (pos : Position) :
    Overlooks O (Run.native setup.host f args pos) (Run.native setup'.host f args pos) O.Fit m := by
  have hfunctions := Native.call_answers hsetup.lends f (fun v hv => (hargs v hv).functions)
    m.transcript
  have hnatives := hsetup.natives f hf args (fun v hv => (hargs v hv).natives) m.transcript
  have hnext (transcript : Transcript) : O.Follows m { m with transcript } :=
    ⟨hm.of_heap_eq rfl hm.good.scope, rfl⟩
  have hsame : Run.native setup'.host f args pos m = Run.native setup.host f args pos m := by
    unfold native
    rw [hsetup.call f hf]
  suffices h : Overlooks O (Run.native setup.host f args pos) (Run.native setup.host f args pos)
      O.Fit m from h.congr rfl hsame
  unfold Overlooks native Machine.without
  dsimp only
  generalize f.call setup.host args m.transcript = answer at hfunctions hnatives ⊢
  obtain ⟨result, transcript⟩ := answer
  cases result with
  | ok v => exact ⟨rfl, hnext transcript, hfunctions, hnatives v rfl⟩
  | error cause => exact ⟨rfl, hnext transcript⟩

end Run

-- ======================================================= sequences

namespace Eval

open Run (Overlooks)

/-- What the evaluators of the parts have to offer. -/
structure PartsOverlook (O : Omission) (eval eval' : Expr → Run Value)
    (exec exec' : Stmt → Run Flow) : Prop where
  expr : ∀ {e : Expr} {m : Machine}, e.Every (.avoiding O.names) → O.Apart m →
    Overlooks O (eval e) (eval' e) O.Fit m
  stmt : ∀ {s : Stmt} {m : Machine}, s.Every (.avoiding O.names) → O.Apart m →
    Overlooks O (exec s) (exec' s) (fun flow => O.Fit flow.value) m

section Parts

variable {eval eval' : Expr → Run Value} {exec exec' : Stmt → Run Flow}

variable (h : PartsOverlook O eval eval' exec exec')

include h

private theorem list_overlooks {items : List Expr}
    (hitems : ∀ e ∈ items, e.Every (.avoiding O.names))
    (hm : O.Apart m) :
    Overlooks O (list eval items) (list eval' items) (fun vs => ∀ v ∈ vs, O.Fit v) m := by
  induction items generalizing m with
  | nil => exact .pure hm fun _ hv => nomatch hv
  | cons e rest ih =>
    obtain ⟨he, hrest⟩ := List.forall_mem_cons.1 hitems
    refine (h.expr he hm).bind fun v m₁ h₁ hv => ?_
    refine (ih hrest h₁.apart).bind fun vs m₂ h₂ hvs => ?_
    exact .pure h₂.apart (List.forall_mem_cons.2 ⟨hv, hvs⟩)

private theorem entries_overlooks {items : List (Expr × Expr)}
    (hitems : ∀ entry ∈ items, entry.1.Every (.avoiding O.names)
      ∧ entry.2.Every (.avoiding O.names))
    {done : Entries MapKey Value} (hm : O.Apart m) (hdone : ∀ entry ∈ done, O.Fit entry.2) :
    Overlooks O (entries eval items done) (entries eval' items done)
      (fun all => ∀ entry ∈ all, O.Fit entry.2) m := by
  induction items generalizing m done with
  | nil => exact .pure hm hdone
  | cons entry rest ih =>
    obtain ⟨⟨hkey, hvalue⟩, hrest⟩ := List.forall_mem_cons.1 hitems
    refine (h.expr hkey hm).bind fun keyValue m₁ h₁ _ => ?_
    refine (Overlooks.at h₁.apart _ (MapKey.ofValue_answers keyValue)).bind fun key m₂ h₂ _ => ?_
    refine (h.expr hvalue h₂.apart).bind fun value m₃ h₃ hv => ?_
    exact ih hrest h₃.apart (Entries.forall_put hv hdone)

private theorem sequence_overlooks {body : List Stmt}
    (hbody : ∀ s ∈ body, s.Every (.avoiding O.names))
    (hm : O.Apart m) :
    Overlooks O (sequence exec body) (sequence exec' body) (fun flow => O.Fit flow.value) m := by
  induction body generalizing m with
  | nil => exact .pure hm Omission.fit_nil
  | cons s rest ih =>
    obtain ⟨hs, hrest⟩ := List.forall_mem_cons.1 hbody
    refine (h.stmt hs hm).bind fun flow m₁ h₁ hflow => ?_
    cases flow with
    | normal v => exact ih hrest h₁.apart
    | return_ v => exact .pure h₁.apart hflow
    | break_ => exact .pure h₁.apart hflow
    | continue_ => exact .pure h₁.apart hflow

private theorem block_overlooks {body : List Stmt} (hbody : ∀ s ∈ body, s.Every (.avoiding O.names))
    (hm : O.Apart m) {bindings : Entries String Value}
    (hbindings : ∀ binding ∈ bindings, O.Fit binding.2) :
    Overlooks O (block exec bindings body) (block exec' bindings body)
      (fun flow => O.Fit flow.value) m :=
  (Run.inFrame_overlooks hm hm.good.scope hbindings (sequence_overlooks h hbody)).congr rfl rfl

private theorem condition_overlooks {e : Expr} (he : e.Every (.avoiding O.names)) (demand : Demand)
    (hm : O.Apart m) :
    Overlooks O (condition eval demand e) (condition eval' demand e) (fun _ => True) m := by
  refine (h.expr he hm).bind fun v m₁ h₁ _ => ?_
  exact .at h₁.apart _ (Value.truth_answers demand v)

-- =========================================================== loops

omit h in
/-- Both loops make the same rounds, as their tests give the same truth values. -/
private theorem repeatWhile_overlooks {test test' : Run Bool} {body body' : Run Flow}
    (htest : ∀ {m}, O.Apart m → Overlooks O test test' (fun _ => True) m)
    (hbody : ∀ {m}, O.Apart m → Overlooks O body body' (fun flow => O.Fit flow.value) m)
    (rounds : Nat) (hm : O.Apart m) :
    Overlooks O (repeatWhile test body rounds) (repeatWhile test' body' rounds)
      (fun flow => O.Fit flow.value) m := by
  induction rounds generalizing m with
  | zero => exact .of_exhausted rfl rfl
  | succ rounds ih =>
    refine (htest hm).bind fun holds m₁ h₁ _ => ?_
    cases holds with
    | false => exact .pure h₁.apart Omission.fit_nil
    | true =>
      refine (hbody h₁.apart).bind fun flow m₂ h₂ hflow => ?_
      cases flow with
      | normal v => exact ih h₂.apart
      | continue_ => exact ih h₂.apart
      | break_ => exact .pure h₂.apart Omission.fit_nil
      | return_ v => exact .pure h₂.apart hflow

omit h in
private theorem repeatFor_overlooks {body body' : Value → Run Flow}
    (hbody : ∀ {m v}, O.Apart m → O.Fit v →
      Overlooks O (body v) (body' v) (fun flow => O.Fit flow.value) m)
    {items : List Value} (hm : O.Apart m) (hitems : ∀ v ∈ items, O.Fit v) :
    Overlooks O (repeatFor body items) (repeatFor body' items)
      (fun flow => O.Fit flow.value) m := by
  induction items generalizing m with
  | nil => exact .pure hm Omission.fit_nil
  | cons item rest ih =>
    obtain ⟨hitem, hrest⟩ := List.forall_mem_cons.1 hitems
    refine (hbody hm hitem).bind fun flow m₁ h₁ hflow => ?_
    cases flow with
    | normal v => exact ih h₁.apart hrest
    | continue_ => exact ih h₁.apart hrest
    | break_ => exact .pure h₁.apart Omission.fit_nil
    | return_ v => exact .pure h₁.apart hflow

-- =========================================================== calls

omit h in
private theorem callResult_overlooks {flow : Flow} (hflow : O.Fit flow.value) (pos : Position)
    (hm : O.Apart m) : Overlooks O (callResult pos flow) (callResult pos flow) O.Fit m := by
  cases flow with
  | return_ v => exact .pure hm hflow
  | normal v => exact .pure hm Omission.fit_nil
  | break_ => exact .fault hm _ pos
  | continue_ => exact .fault hm _ pos

variable (hsetup : O.Alike setup setup')

include hsetup

/-- The body avoids the names because the function is fit, wherever it was made. -/
private theorem callClosure_overlooks {f : Closure} (hf : O.Admits f) {args : List Value}
    (hargs : ∀ v ∈ args, O.Fit v) (pos : Position) (hm : O.Apart m) :
    Overlooks O (callClosure setup exec f args pos) (callClosure setup' exec' f args pos)
      O.Fit m := by
  by_cases harity : args.length ≠ f.code.arity
  · have hfault := Overlooks.fault (Q := O.Fit) hm
      (.arity f.code.title (.exact f.code.arity) args.length) pos
    refine hfault.congr ?_ ?_
    · rw [callClosure, if_pos harity]
    · rw [callClosure, if_pos harity]
  by_cases hdepth : setup.maxDepth ≤ m.depth
  · refine (Overlooks.fault hm (.recursionLimit setup.maxDepth f.code.title) pos).congr ?_ ?_
    · have hdepth' : setup.maxDepth ≤ (m.without O.names).depth := hdepth
      rw [callClosure, if_neg harity, if_pos hdepth']
    · rw [callClosure, if_neg harity, hsetup.maxDepth, if_pos hdepth]
  have hbody : Overlooks O
      (Run.inCall (Run.inFrame f.frame (parameters f.code args) (sequence exec f.code.body)))
      (Run.inCall (Run.inFrame f.frame (parameters f.code args) (sequence exec' f.code.body)))
      (fun flow => O.Fit flow.value) m := by
    refine Run.inCall_overlooks hm fun hcalled => ?_
    refine Run.inFrame_overlooks hcalled hf.2 (parameters_forall f.code hargs) ?_
    exact sequence_overlooks h hf.1.body
  have hresult := hbody.bind fun flow m₁ h₁ hflow => callResult_overlooks hflow pos h₁.apart
  refine hresult.congr ?_ ?_
  · have hdepth' : ¬ setup.maxDepth ≤ (m.without O.names).depth := hdepth
    rw [callClosure, if_neg harity, if_neg hdepth']
    rfl
  · rw [callClosure, if_neg harity, hsetup.maxDepth, if_neg hdepth]
    rfl

private theorem call_overlooks {v : Value} (hv : O.Fit v) {args : List Value}
    (hargs : ∀ v ∈ args, O.Fit v) (pos : Position) (hm : O.Apart m) :
    Overlooks O (call setup exec v args pos) (call setup' exec' v args pos) O.Fit m := by
  cases v with
  | native f =>
    cases hv.natives with
    | native hf => exact Run.native_overlooks hsetup hm hf hargs pos
  | function f =>
    exact callClosure_overlooks h hsetup (Value.every_function.1 hv.functions) hargs pos hm
  | _ => exact .fault hm _ pos

-- ========================================================== places

omit hsetup

/-- A target avoids the names in its root as well as in its keys. -/
private theorem place_overlooks : ∀ {target : Expr} {m : Machine}, target.Every
    (.avoiding O.names) →
    O.Apart m →
      Overlooks O (place eval target) (place eval' target) (fun p => p.name ∉ O.names) m
  | .name _ name, _, ht, hm => .pure hm (ht.here name rfl)
  | .index _ collection key, _, ht, hm => by
    obtain ⟨hcollection, hkey⟩ := List.forall_mem_cons.1 ht.parts
    refine (place_overlooks hcollection hm).bind fun p m₁ h₁ hp => ?_
    refine (h.expr (hkey key List.mem_cons_self) h₁.apart).bind fun k m₂ h₂ _ => ?_
    exact .pure h₂.apart hp
  | .literal .., _, _, hm | .list .., _, _, hm | .map .., _, _, hm | .unary .., _, _, hm
  | .binary .., _, _, hm | .logical .., _, _, hm | .call .., _, _, hm
  | .function .., _, _, hm => .fault hm _ _

omit h in
private theorem load_overlooks {p : Place} (hp : p.name ∉ O.names) (hm : O.Apart m) :
    Overlooks O (load p) (load p) O.Fit m := by
  refine (Run.get_overlooks hm p.pos hp).bind fun root m₁ h₁ hroot => ?_
  exact .ofExcept h₁.apart (Value.load_answers hroot fun _ _ => trivial)

omit h in
private theorem store_overlooks {p : Place} (hp : p.name ∉ O.names) {value : Value}
    (hvalue : O.Fit value) (hm : O.Apart m) :
    Overlooks O (store p value) (store p value) (fun _ => True) m := by
  refine (Run.get_overlooks hm p.pos hp).bind fun root m₁ h₁ hroot => ?_
  refine (Overlooks.ofExcept h₁.apart (Value.store_answers hroot hvalue fun _ _ => trivial)).bind
    fun root m₂ h₂ hroot => ?_
  exact Run.assign_overlooks h₂.apart p.pos hp hroot

private theorem assigned_overlooks (pos : Position) {p : Place} (hp : p.name ∉ O.names)
    (op : Option BinaryOp) {value : Expr} (hvalue : value.Every (.avoiding O.names))
    (hm : O.Apart m) :
    Overlooks O (assigned eval pos p op value) (assigned eval' pos p op value) O.Fit m := by
  cases op with
  | none => exact h.expr hvalue hm
  | some op =>
    refine (load_overlooks hp hm).bind fun old m₁ h₁ _ => ?_
    refine (h.expr hvalue h₁.apart).bind fun right m₂ h₂ _ => ?_
    exact .at h₂.apart pos (BinaryOp.apply_answers op old right)

-- =========================================================== steps

include hsetup in
/-- One layer of an expression that does not mention the names. -/
private theorem step_expr_overlooks {e : Expr} (he : e.Every (.avoiding O.names)) (hm : O.Apart m) :
    Overlooks O (e.step setup eval exec) (e.step setup' eval' exec') O.Fit m := by
  cases e with
  | literal pos value => exact .pure hm (Literal.value_inherited value)
  | list pos items =>
    refine (list_overlooks h he.parts hm).bind fun vs m₁ h₁ hvs => ?_
    exact .pure h₁.apart (Value.Inherited.list.2 hvs)
  | map pos entries =>
    have hparts := Expr.forall_entry he.parts
    refine (entries_overlooks h hparts hm (List.forall_mem_nil _)).bind fun all m₁ h₁ hall => ?_
    exact .pure h₁.apart (Value.Inherited.map.2 hall)
  | name pos name => exact Run.get_overlooks hm pos (he.here name rfl)
  | unary pos op operand =>
    refine (h.expr (he.parts operand List.mem_cons_self) hm).bind fun v m₁ h₁ _ => ?_
    exact .at h₁.apart pos (UnaryOp.apply_answers op v)
  | binary pos op left right =>
    obtain ⟨hleft, hright⟩ := List.forall_mem_cons.1 he.parts
    refine (h.expr hleft hm).bind fun l m₁ h₁ _ => ?_
    refine (h.expr (hright right List.mem_cons_self) h₁.apart).bind fun r m₂ h₂ _ => ?_
    exact .at h₂.apart pos (BinaryOp.apply_answers op l r)
  | logical pos op left right =>
    obtain ⟨hleft, hright⟩ := List.forall_mem_cons.1 he.parts
    refine (condition_overlooks h hleft _ hm).bind fun l m₁ h₁ _ => ?_
    split
    · exact .pure h₁.apart (Value.Inherited.bool l)
    · refine (condition_overlooks h (hright right List.mem_cons_self) _ h₁.apart).bind
        fun r m₂ h₂ _ => ?_
      exact .pure h₂.apart (Value.Inherited.bool r)
  | call pos callee args =>
    obtain ⟨hcallee, hargs⟩ := List.forall_mem_cons.1 he.parts
    refine (h.expr hcallee hm).bind fun v m₁ h₁ hv => ?_
    refine (list_overlooks h hargs h₁.apart).bind fun vs m₂ h₂ hvs => ?_
    exact call_overlooks h hsetup hv hvs pos h₂.apart
  | index pos collection key =>
    obtain ⟨hcollection, hkey⟩ := List.forall_mem_cons.1 he.parts
    refine (h.expr hcollection hm).bind fun c m₁ h₁ hc => ?_
    refine (h.expr (hkey key List.mem_cons_self) h₁.apart).bind fun k m₂ h₂ _ => ?_
    exact .at h₂.apart pos (Value.item_answers hc k)
  | function pos code => exact Run.closure_overlooks hm (he.code code rfl)

/-- One layer of a statement that does not mention the names. What it binds is then not
among them, so both heaps change in the same place. -/
private theorem step_stmt_overlooks (rounds : Nat) {s : Stmt} (hs : s.Every (.avoiding O.names))
    (hm : O.Apart m) :
    Overlooks O (s.step eval exec rounds) (s.step eval' exec' rounds)
      (fun flow => O.Fit flow.value) m := by
  cases s with
  | let_ pos name value =>
    refine (h.expr (hs.exprs value List.mem_cons_self) hm).bind fun v m₁ h₁ hv => ?_
    -- the name bound here is none of the names left out
    refine (Run.define_overlooks h₁.apart (hs.here name rfl) hv).bind fun _ m₂ h₂ _ => ?_
    exact .pure h₂.apart Omission.fit_nil
  | assign pos target op value =>
    obtain ⟨htarget, hvalue⟩ := List.forall_mem_cons.1 hs.exprs
    refine (place_overlooks h htarget hm).bind fun p m₁ h₁ hp => ?_
    refine (assigned_overlooks h pos hp op (hvalue value List.mem_cons_self) h₁.apart).bind
      fun v m₂ h₂ hv => ?_
    refine (store_overlooks hp hv h₂.apart).bind fun _ m₃ h₃ _ => ?_
    exact .pure h₃.apart Omission.fit_nil
  | expr pos value =>
    refine (h.expr (hs.exprs value List.mem_cons_self) hm).bind fun v m₁ h₁ hv => ?_
    exact .pure h₁.apart hv
  | if_ pos condition yes no =>
    refine (condition_overlooks h (hs.exprs condition List.mem_cons_self) _ hm).bind
      fun holds m₁ h₁ _ => ?_
    cases holds with
    | true =>
      exact block_overlooks h (fun s hin => hs.parts s (List.mem_append_left _ hin)) h₁.apart
        (List.forall_mem_nil _)
    | false =>
      cases no with
      | none => exact .pure h₁.apart Omission.fit_nil
      | some no =>
        exact block_overlooks h (fun s hin => hs.parts s (List.mem_append_right _ hin)) h₁.apart
          (List.forall_mem_nil _)
  | while_ pos condition body =>
    refine repeatWhile_overlooks (fun hm => ?_) (fun hm => ?_) rounds hm
    · exact condition_overlooks h (hs.exprs condition List.mem_cons_self) _ hm
    · exact block_overlooks h hs.parts hm (List.forall_mem_nil _)
  | for_ pos name iterable body =>
    refine (h.expr (hs.exprs iterable List.mem_cons_self) hm).bind fun c m₁ h₁ hc => ?_
    refine (Overlooks.at h₁.apart iterable.pos (Value.items_answers hc)).bind
      fun items m₂ h₂ hitems => ?_
    refine repeatFor_overlooks (fun hm hv => ?_) h₂.apart hitems
    exact block_overlooks h hs.parts hm (List.forall_mem_singleton.2 hv)
  | function pos code =>
    refine (Run.closure_overlooks hm (hs.code code rfl)).bind fun v m₁ h₁ hv => ?_
    refine (Run.define_overlooks h₁.apart (hs.here _ rfl) hv).bind fun _ m₂ h₂ _ => ?_
    exact .pure h₂.apart Omission.fit_nil
  | return_ pos value =>
    cases value with
    | none => exact .pure hm Omission.fit_nil
    | some value =>
      refine (h.expr (hs.exprs value List.mem_cons_self) hm).bind fun v m₁ h₁ hv => ?_
      exact .pure h₁.apart hv
  | break_ pos => exact .pure hm Omission.fit_nil
  | continue_ pos => exact .pure hm Omission.fit_nil
  | block pos body => exact block_overlooks h hs.parts hm (List.forall_mem_nil _)

end Parts

-- ====================================================== evaluation

/-- Evaluation overlooks the bindings that are left out. -/
theorem parts_overlook (hsetup : O.Alike setup setup') (budget : Nat) :
    PartsOverlook O (Expr.eval setup budget) (Expr.eval setup' budget) (Stmt.exec setup budget)
      (Stmt.exec setup' budget) := by
  induction budget with
  | zero =>
    refine ⟨fun {e m} _ _ => .of_exhausted ?_ ?_, fun {s m} _ _ => .of_exhausted ?_ ?_⟩
    · rw [Expr.eval]
    · rw [Expr.eval]
    · rw [Stmt.exec]
    · rw [Stmt.exec]
  | succ budget ih =>
    refine ⟨fun {e m} he hm => ?_, fun {s m} hs hm => ?_⟩
    · refine (step_expr_overlooks ih hsetup he hm).congr ?_ ?_ <;> rw [Expr.eval]
    · refine (step_stmt_overlooks ih budget hs hm).congr ?_ ?_ <;> rw [Stmt.exec]

end Eval

-- ======================================================== programs

private theorem Program.results_overlooks {eval eval' : Expr → Run Value}
    {exec exec' : Stmt → Run Flow}
    (h : Eval.PartsOverlook O eval eval' exec exec') {program : Program}
    (hprogram : program.Every (.avoiding O.names)) (hm : O.Apart m) {last : Value}
    (hlast : O.Fit last) :
    Run.Overlooks O (results exec program last) (results exec' program last) O.Fit m := by
  induction program generalizing m last with
  | nil => exact .pure hm hlast
  | cons s rest ih =>
    obtain ⟨hs, hrest⟩ := List.forall_mem_cons.1 hprogram
    refine (h.stmt hs hm).bind fun flow m₁ h₁ hflow => ?_
    cases flow with
    | normal v =>
      refine ih hrest h₁.apart ?_
      split
      · exact hflow
      · exact hlast
    | return_ v => exact .fault h₁.apart _ s.pos
    | break_ => exact .fault h₁.apart _ s.pos
    | continue_ => exact .fault h₁.apart _ s.pos

-- ===================================================== evaluations

/-- The state that an outcome leaves, if there is one, meets a condition. -/
def Outcome.Leaves {σ ε : Type} (P : σ → Prop) : Outcome σ ε α → Prop
  | .done _ s => P s
  | .failed _ s => P s
  | .exhausted => True

private theorem Outcome.mapState_congr {σ τ ε : Type} {f g : σ → τ} {outcome : Outcome σ ε α}
    (h : outcome.Leaves fun s => f s = g s) : outcome.mapState f = outcome.mapState g := by
  cases outcome with
  | exhausted => rfl
  | done a s => exact congrArg (Outcome.done a) h
  | failed e s => exact congrArg (Outcome.failed e) h

/-- What holds of the state that an outcome leaves may be weakened. -/
theorem Outcome.Leaves.mono {σ ε : Type} {P P' : σ → Prop} {outcome : Outcome σ ε α}
    (h : outcome.Leaves P) (hP : ∀ s, P s → P' s) : outcome.Leaves P' := by
  cases outcome with
  | exhausted => trivial
  | done a s => exact hP s h
  | failed e s => exact hP s h

namespace Interpreter

variable {i : Interpreter} {program : Program}

/-- An evaluation commutes with leaving the bindings out. -/
theorem evalProgram_overlooks (hsetup : O.Alike setup i.setup) (hi : O.Apart i.atRest.machine)
    (hprogram : program.Every (.avoiding O.names)) (budget : Nat) :
    { i.without O.names with setup }.evalProgram budget program
        = (i.evalProgram budget program).mapState (fun j => { j.without O.names with setup })
      ∧ (i.evalProgram budget program).Leaves fun j =>
        j.setup = i.setup ∧ j.only O.names = i.only O.names := by
  have hparts := Eval.parts_overlook hsetup budget
  have hresults := Program.results_overlooks hparts hprogram hi Omission.fit_nil
  rcases hresults.cases with
    ⟨v, m, hy, hx, hfollows, -⟩ | ⟨fault, m, hy, hx, hfollows⟩ | ⟨hy, hx⟩
  · have hsecond := evalProgram_eq_done.2 ⟨m, hy, rfl⟩
    have hfirst : { i.without O.names with setup }.evalProgram budget program = .done v _ :=
      evalProgram_eq_done.2 ⟨m.without O.names, hx, rfl⟩
    rw [hsecond, hfirst]
    exact ⟨rfl, rfl, hfollows.only⟩
  · have hsecond := evalProgram_eq_failed.2 ⟨fault, m, hy, rfl, rfl⟩
    have hfirst : { i.without O.names with setup }.evalProgram budget program
        = .failed (.fault fault) _ :=
      evalProgram_eq_failed.2 ⟨fault, m.without O.names, hx, rfl, rfl⟩
    rw [hsecond, hfirst]
    exact ⟨rfl, rfl, hfollows.only⟩
  · have hsecond := evalProgram_eq_exhausted.2 hy
    have hfirst : { i.without O.names with setup }.evalProgram budget program = .exhausted :=
      evalProgram_eq_exhausted.2 hx
    rw [hsecond, hfirst]
    exact ⟨rfl, trivial⟩

/-- Without the names of its host's routines, a fresh interpreter has an empty outermost
frame. -/
theorem start_without (host : Host) (maxDepth : Nat) (layout : Layout) :
    ((start host maxDepth layout).without (host.map Routine.name)).machine
      = (start [] maxDepth layout).machine := by
  have hnone : (host.bindings 0 []).filter (fun binding => binding.1 ∉ host.map Routine.name)
      = [] := by
    refine List.filter_eq_nil_iff.2 fun binding hbinding => ?_
    obtain ⟨f, rfl, hname⟩ := (Host.mem_bindings hbinding).resolve_right List.not_mem_nil
    exact fun hkept => of_decide_eq_true hkept hname
  show Machine.mk #[⟨none, (host.bindings 0 []).filter _⟩] _ _ _ _ = _
  rw [hnone]
  rfl

/-- A program does the same without outermost bindings of names that neither it nor any
function at hand mentions, and leaves them alone. -/
theorem evalProgram_without {names : List String} (hroot : Machine.root < i.machine.heap.size)
    (hi : (i.without names).Holds (.avoiding names)) (hprogram : program.Every (.avoiding names))
    (budget : Nat) :
    (i.without names).evalProgram budget program
        = (i.evalProgram budget program).mapState (·.without names)
      ∧ (i.evalProgram budget program).Leaves fun j => j.only names = i.only names := by
  have hsize : Machine.root < (i.machine.heap.without names).size := by
    rwa [Heap.size_without]
  let O : Omission := ⟨names, fun _ => True, i.machine.heap.without names, hsize⟩
  have hany (v : Value) : v.EveryNative O.native := Value.everyNative_of_forall (fun _ => trivial) v
  have hsetup : O.Alike i.setup i.setup :=
    ⟨rfl, fun _ _ => rfl, hi.lent, fun _ _ _ _ _ v _ => hany v⟩
  have hgood : O.contract.Good (i.without names).atRest.machine :=
    Contract.stored_good (m := (i.without names).atRest.machine) hi.stored rfl
  have hapart : O.Apart i.atRest.machine := ⟨hgood, fun _ _ _ _ _ => hany _⟩
  obtain ⟨hsame, hleaves⟩ := evalProgram_overlooks hsetup hapart hprogram budget
  have hsetups : (i.evalProgram budget program).Leaves fun j =>
      { j.without names with setup := i.setup } = j.without names :=
    hleaves.mono fun j hj => congrArg (Interpreter.mk · j.layout _) hj.1.symm
  exact ⟨hsame.trans (Outcome.mapState_congr hsetups), hleaves.mono fun _ => And.right⟩

/-- A program does the same in a fresh interpreter without a host if it mentions none of
its routines, and leaves their bindings alone. -/
theorem evalProgram_hostless {host : Host}
    (hprogram : program.Every (.avoiding (host.map Routine.name))) (maxDepth : Nat)
    (layout : Layout) (budget : Nat) :
    (start [] maxDepth layout).evalProgram budget program
        = ((start host maxDepth layout).evalProgram budget program).mapState
          (fun j => { j.without (host.map Routine.name) with setup := ⟨[], maxDepth⟩ })
      ∧ ((start host maxDepth layout).evalProgram budget program).Leaves fun j =>
        j.only (host.map Routine.name)
          = (start host maxDepth layout).only (host.map Routine.name) := by
  have hsize : Machine.root < (start [] maxDepth layout).machine.heap.size := Nat.one_pos
  let O : Omission :=
    ⟨host.map Routine.name, fun _ => False, (start [] maxDepth layout).machine.heap, hsize⟩
  have hwithout := start_without host maxDepth layout
  have hsetup : O.Alike ⟨[], maxDepth⟩ ⟨host, maxDepth⟩ := ⟨rfl, nofun, Host.lends_nil _, nofun⟩
  have hstored : (start [] maxDepth layout).Holds (.avoiding O.names) :=
    start_holds Host.lends_nil maxDepth layout
  have hgood : O.contract.Good (start [] maxDepth layout).machine :=
    Contract.stored_good hstored.stored rfl
  have hnone : ∀ (n : Nat) (f : Frame), (start [] maxDepth layout).machine.heap[n]? = some f →
      ∀ binding ∈ f.bindings, binding.2.EveryNative O.native := by
    intro n f hf
    rw [start_bindings hf]
    exact List.forall_mem_nil _
  have hapart : O.Apart (start host maxDepth layout).atRest.machine := by
    refine ⟨?_, ?_⟩
    · show O.contract.Good ((start host maxDepth layout).without O.names).machine
      rwa [hwithout]
    · show ∀ (n : Nat) (f : Frame),
        ((start host maxDepth layout).without O.names).machine.heap[n]? = some f → _
      rwa [hwithout]
  obtain ⟨hsame, hleaves⟩ := evalProgram_overlooks hsetup hapart hprogram budget
  have hstart : { (start host maxDepth layout).without O.names with setup := ⟨[], maxDepth⟩ }
      = start [] maxDepth layout := congrArg (Interpreter.mk ⟨[], maxDepth⟩ layout) hwithout
  rw [hstart] at hsame
  exact ⟨hsame, hleaves.mono fun _ => And.right⟩

/-- Outermost bindings that a program does not mention cannot influence it. Take a state
whose outermost frame binds some more names than another one: names that the program does
not mention, nor any function that the state stores or the host lends. Then the program
ends in both or in neither, with the same value or the same failure and the same output,
and the states that it leaves differ in the same bindings. In particular a host, such as
the prelude, does not matter to a program that uses none of its names. -/
theorem evalProgram_unmentioned (program : Program) :
    (∀ (i : Interpreter) (names : List String), Machine.root < i.machine.heap.size →
        (i.without names).Holds (.avoiding names) → program.Every (.avoiding names) →
        ∀ budget,
          (i.without names).evalProgram budget program
              = (i.evalProgram budget program).mapState (·.without names)
            ∧ (i.evalProgram budget program).Leaves fun j => j.only names = i.only names)
      ∧ ∀ (host : Host), program.Every (.avoiding (host.map Routine.name)) →
        ∀ (maxDepth : Nat) (layout : Layout) (budget : Nat),
          (start [] maxDepth layout).evalProgram budget program
              = ((start host maxDepth layout).evalProgram budget program).mapState
                (fun j => { j.without (host.map Routine.name) with setup := ⟨[], maxDepth⟩ })
            ∧ ((start host maxDepth layout).evalProgram budget program).Leaves fun j =>
              j.only (host.map Routine.name)
                = (start host maxDepth layout).only (host.map Routine.name) :=
  ⟨fun _ _ hroot hi hprogram budget => evalProgram_without hroot hi hprogram budget,
    fun _ hprogram maxDepth layout budget => evalProgram_hostless hprogram maxDepth layout budget⟩

/-- A program with a function that looks up what is bound outside of it. -/
def recalling : Program :=
  [.let_ .start "x" (.literal .start (.string "a")),
    .function .start ⟨some "f", [], [.return_ .start (some (.name .start "x"))], .start⟩,
    .expr .start (.call .start (.name .start "f") [])]

private theorem recalling_avoids {names : List String} (hx : "x" ∉ names) (hf : "f" ∉ names) :
    recalling.Every (.avoiding names) := by
  have hname {name : String} (h : name ∉ names) :
      (Expr.name .start name).Every (.avoiding names) := by
    refine .mk ?_ nofun nofun
    rintro _ ⟨⟩
    exact h
  have hcode : (Code.mk (some "f") [] [.return_ .start (some (.name .start "x"))] .start).Every
      (.avoiding names) :=
    .mk trivial (List.forall_mem_singleton.2
      (.mk nofun (List.forall_mem_singleton.2 (hname hx)) nofun nofun))
  refine List.forall_mem_cons.2 ⟨?_, List.forall_mem_cons.2 ⟨?_, List.forall_mem_singleton.2 ?_⟩⟩
  · refine .mk ?_ (List.forall_mem_singleton.2 (.mk nofun nofun nofun)) nofun nofun
    rintro _ ⟨⟩
    exact hx
  · refine .mk ?_ nofun nofun ?_
    · rintro _ ⟨⟩
      exact hf
    · rintro _ ⟨⟩
      exact hcode
  · exact .mk nofun (List.forall_mem_singleton.2
      (.mk nofun (List.forall_mem_singleton.2 (hname hf)) nofun)) nofun nofun

/-- The theorem at a program with a function, whose run is the same with the prelude,
without its names and with no host at all. -/
theorem evalProgram_unmentioned_recalling :
    Machine.root < (start Prelude.host 200 {}).machine.heap.size
      ∧ ((start Prelude.host 200 {}).without (Prelude.host.map Routine.name)).Holds
        (.avoiding (Prelude.host.map Routine.name))
      ∧ recalling.Every (.avoiding (Prelude.host.map Routine.name))
      ∧ ∃ v j, (start Prelude.host 200 {}).evalProgram 20 recalling = .done v j
        ∧ ((start Prelude.host 200 {}).without (Prelude.host.map Routine.name)).evalProgram 20
            recalling = .done v (j.without (Prelude.host.map Routine.name))
        ∧ (start [] 200 {}).evalProgram 20 recalling
          = .done v { j.without (Prelude.host.map Routine.name) with setup := ⟨[], 200⟩ } := by
  have hroot : Machine.root < (start Prelude.host 200 {}).machine.heap.size := Nat.one_pos
  have hholds : ((start Prelude.host 200 {}).without (Prelude.host.map Routine.name)).Holds
      (.avoiding (Prelude.host.map Routine.name)) := by
    refine ⟨?_, Prelude.host_lends _⟩
    rw [start_without]
    exact (start_holds Host.lends_nil 200 {}).stored
  have havoids : recalling.Every (.avoiding (Prelude.host.map Routine.name)) :=
    recalling_avoids (by decide) (by decide)
  refine ⟨hroot, hholds, havoids, ?_⟩
  obtain ⟨hsame, hfresh⟩ := evalProgram_unmentioned recalling
  have hwithout := (hsame _ _ hroot hholds havoids 20).1
  have hbare := (hfresh Prelude.host havoids 200 {} 20).1
  obtain ⟨v, j, hrun⟩ : ∃ v j, (start Prelude.host 200 {}).evalProgram 20 recalling = .done v j :=
    Outcome.exists_done (by decide +kernel)
  rw [hrun] at hwithout hbare
  exact ⟨v, j, hrun, hwithout, hbare⟩

end Interpreter

end Scriptlet
