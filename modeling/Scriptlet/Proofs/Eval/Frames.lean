/-
Frames in good order. A heap is never left with a frame inside a newer one, or with a
function of a frame that does not exist, whatever scripts run on it and whatever the host
does with it in between. So the walk outwards from any frame comes to an outermost one,
and the nearest binding on it is what a name means.

# Frames are older, values are not

Values may be cyclic through the heap: a function that is bound in the frame it was made
in leads back to that frame. No measure on values goes down along a walk. What goes down
is the number of the frame: a frame is made inside one that is there already, and nothing
ever changes what it stands in.

# What the host can do

A host has the functions that it got from evaluations and from looking names up, and no
others (`Hosted`). It may evaluate programs in any frame, bind and assign in any frame, and
make new frames. That the functions it binds belong to frames that exist is not asked of
it; it follows from where it has them from.
-/
import Mathlib.Logic.Relation
import Scriptlet.Proofs.Eval.Names
import Scriptlet.Proofs.Eval.Reach

namespace Scriptlet

-- ======================================================= older frames

namespace Heap

/-- Every frame stands in one that was made before it. -/
def Older (heap : Heap) : Prop := ∀ i parent, heap.parent i = some parent → parent < i

/-- Only frames that exist stand in others. -/
theorem lt_size_of_parent {heap : Heap} {i parent : Nat} (h : heap.parent i = some parent) :
    i < heap.size := by
  obtain ⟨frame, hframe, -⟩ := Option.bind_eq_some_iff.1 h
  exact (Array.getElem?_eq_some_iff.1 hframe).1

/-- All frames of the first heap are in the second, inside the same frames. -/
structure Grows (heap heap' : Heap) : Prop where
  size : heap.size ≤ heap'.size
  parent : ∀ i < heap.size, heap'.parent i = heap.parent i

/-- A heap grows to itself. -/
theorem Grows.refl (heap : Heap) : heap.Grows heap := ⟨Nat.le_refl _, fun _ _ => rfl⟩

/-- Growth in two steps is growth. -/
theorem Grows.trans {heap heap' heap'' : Heap} (h : heap.Grows heap') (h' : heap'.Grows heap'') :
    heap.Grows heap'' where
  size := Nat.le_trans h.size h'.size
  parent i hi := (h'.parent i (Nat.lt_of_lt_of_le hi h.size)).trans (h.parent i hi)

/-- Binding a name leaves all parents alone. -/
theorem Older.define {heap : Heap} (h : heap.Older) (frame : Nat) (name : String) (value : Value) :
    (heap.define frame name value).Older :=
  fun i parent hparent => h i parent (parent_define heap frame name value i ▸ hparent)

/-- A new frame is newer than all that it can be made in. -/
theorem Older.alloc {heap : Heap} (h : heap.Older) {parent : Nat} (hparent : parent < heap.size)
    (bindings : Entries String Value) : (heap.alloc (some parent) bindings).Older := by
  intro i outer houter
  by_cases hi : i = heap.size
  · subst hi
    unfold Heap.parent at houter
    rw [getElem?_alloc, if_pos rfl] at houter
    cases houter
    exact hparent
  · have hbound := lt_size_of_parent houter
    rw [size_alloc] at hbound
    have hold : i < heap.size := by omega
    exact h i outer (parent_alloc heap (some parent) bindings hold ▸ houter)

/-- An assignment that succeeds binds the name in some frame. -/
theorem exists_owner {heap heap' : Heap} {frame : Nat} {name : String} {value : Value}
    (h : heap.assign frame name value = .ok heap') :
    ∃ owner, heap.define owner name value = heap' := by
  unfold assign at h
  cases hfound : heap.find? frame name with
  | none =>
    rw [hfound] at h
    cases h
  | some found =>
    rw [hfound] at h
    exact ⟨found.1, Except.ok.inj h⟩

end Heap

-- ====================================================== good order

/-- The frames of a machine are in order: the current one exists, every other stands in
one that exists and was made before it, and every function that is bound anywhere, alone
or inside a value, is of a frame that exists. -/
structure Machine.WellFormed (m : Machine) : Prop where
  scope : m.scope < m.heap.size
  older : ∀ i parent, m.heap.parent i = some parent → parent < i ∧ parent < m.heap.size
  known : m.Binds fun f => f.frame < m.heap.size

namespace Machine

variable {m m' : Machine}

private theorem Retains.grows {changing : Option Nat} (h : m.Retains changing m') :
    m.heap.Grows m'.heap :=
  ⟨h.grown, h.parent⟩

private theorem older_of_heap (h : m.heap.Older) (i parent : Nat)
    (hparent : m.heap.parent i = some parent) : parent < i ∧ parent < m.heap.size :=
  ⟨h i parent hparent, Nat.lt_trans (h i parent hparent) (Heap.lt_size_of_parent hparent)⟩

private theorem WellFormed.heap_older (hm : m.WellFormed) : m.heap.Older :=
  fun i parent hparent => (hm.older i parent hparent).1

/-- A machine with only the outermost frame, where no functions of scripts are bound. -/
theorem start_wellFormed {bindings : Entries String Value}
    (h : ∀ binding ∈ bindings, binding.2.functions = []) : (start bindings).WellFormed := by
  have honly {i : Nat} {frame : Frame} (hframe : (start bindings).heap[i]? = some frame) :
      frame = ⟨none, bindings⟩ := by
    obtain rfl : i = 0 := Nat.lt_one_iff.1 (Array.getElem?_eq_some_iff.1 hframe).1
    exact (Option.some.inj hframe).symm
  refine ⟨Nat.one_pos, fun i parent hparent => ?_, fun i frame hframe binding hbinding f hf => ?_⟩
  · obtain ⟨frame, hframe, hinside⟩ := Option.bind_eq_some_iff.1 hparent
    rw [honly hframe] at hinside
    cases hinside
  · rw [honly hframe] at hbinding
    rw [h binding hbinding] at hf
    cases hf

/-- Binding a value whose functions are all of frames that exist. -/
theorem WellFormed.defined (hm : m.WellFormed) (frame : Nat) (name : String) {value : Value}
    (hvalue : value.Every fun f => f.frame < m.heap.size) :
    (m.defined frame name value).WellFormed := by
  have hsize : (m.defined frame name value).heap.size = m.heap.size := Heap.size_define ..
  refine ⟨hsize ▸ hm.scope, older_of_heap (hm.heap_older.define frame name value),
    fun i f hf binding hbinding => ?_⟩
  rw [hsize]
  unfold Machine.defined at hf
  rw [Heap.getElem?_define] at hf
  split at hf
  · obtain ⟨old, hold, rfl⟩ := Option.map_eq_some_iff.1 hf
    rcases Entries.mem_put hbinding with rfl | hbinding
    · exact hvalue
    · exact hm.known i old hold binding hbinding
  · exact hm.known i f hf binding hbinding

/-- A new frame inside one that exists. -/
theorem WellFormed.child (hm : m.WellFormed) {parent : Nat} (hparent : parent < m.heap.size) :
    WellFormed { m with heap := m.heap.alloc (some parent) [] } := by
  have hsize : (m.heap.alloc (some parent) []).size = m.heap.size + 1 := Heap.size_alloc ..
  refine ⟨hsize ▸ Nat.lt_succ_of_lt hm.scope,
    older_of_heap (hm.heap_older.alloc hparent []), fun i f hf binding hbinding => ?_⟩
  dsimp only at hf ⊢
  rw [Heap.getElem?_alloc] at hf
  split at hf
  · cases hf
    cases hbinding
  · rw [hsize]
    exact (hm.known i f hf binding hbinding).mono fun _ => Nat.lt_succ_of_lt

/-- What a name means has only functions of frames that exist. -/
theorem WellFormed.get (hm : m.WellFormed) {frame : Nat} {name : String} {v : Value}
    (h : m.heap.get frame name = .ok v) : v.Every fun f => f.frame < m.heap.size := by
  unfold Heap.get at h
  cases hfound : m.heap.find? frame name with
  | none =>
    rw [hfound] at h
    cases h
  | some found =>
    rw [hfound] at h
    cases h
    obtain ⟨f, hf, hbound⟩ := Heap.get?_of_find? hfound
    exact hm.known _ f hf _ (Entries.mem_of_get? hbound)

end Machine

-- ======================================================== contract

/-- The contract that keeps frames in order, on heaps with at least so many frames. Frames
count if they exist. -/
def Contract.ordered (frames : Nat) : Contract where
  live n i := i < max n frames
  machine m := frames ≤ m.heap.size ∧ m.heap.Older
  within := Machine.Retains none
  across := fun m => m.Retains (some m.scope)

namespace Contract

variable {frames : Nat} {setup : Setup} {m : Machine}

private theorem ordered_admits {n : Nat} {f : Closure} :
    (ordered frames).Admits n f ↔ f.frame < max n frames :=
  ⟨fun h => h.frame, fun h => ⟨Tree.every_any.ofCode f.code, h⟩⟩

/-- Each move of the machine keeps the order: frames are added at the end of the heap,
under a frame that is there. -/
private theorem ordered_lawful (hhost : ∀ n, setup.host.Lends fun f => f.frame < max n frames) :
    (ordered frames).Lawful setup where
  refl := Machine.retains_kept.refl
  trans := Machine.retains_kept.trans
  widen := Machine.retains_kept.widen
  trans' := Machine.retains_kept.trans'
  live_mono hle h := Nat.lt_of_lt_of_le h (by omega)
  live_old h _ _ := Nat.lt_of_lt_of_le h (Nat.le_max_left _ _)
  live_new _ := Nat.lt_of_lt_of_le (Nat.lt_succ_self _) (Nat.le_max_left _ _)
  define name value hm := by
    refine ⟨⟨?_, hm.2.define _ name value⟩, Machine.retains_kept.define _ name value⟩
    exact Nat.le_trans hm.1 (Nat.le_of_eq (Heap.size_define ..).symm)
  assign value hm hfound := by
    refine ⟨⟨?_, hm.2.define _ _ value⟩, Machine.retains_kept.assign value hfound⟩
    exact Nat.le_trans hm.1 (Nat.le_of_eq (Heap.size_define ..).symm)
  -- a new frame stands behind every frame there is, its parent included
  enter {m parent} bindings hm hlive := by
    have hsize : (m.entered parent bindings).heap.size = m.heap.size + 1 := Heap.size_alloc ..
    have hparent : parent < m.heap.size :=
      Nat.lt_of_lt_of_le hlive (Nat.max_le.2 ⟨Nat.le_refl _, hm.1⟩)
    exact ⟨hsize ▸ Nat.le_succ_of_le hm.1, hm.2.alloc hparent bindings⟩
  leave _ hmoved hm' := ⟨hm', Machine.retains_kept.leave hmoved⟩
  call hm _ := hm
  return_ _ hmoved hm' := ⟨hm', Machine.retains_kept.return_ hmoved⟩
  make hm := ⟨hm, Machine.retains_kept.make _⟩
  write transcript hm := ⟨hm, Machine.retains_kept.write _ transcript⟩
  host n := by
    have hadmits : (ordered frames).Admits n = fun f => f.frame < max n frames :=
      funext fun f => propext ordered_admits
    rw [hadmits]
    exact hhost n
  plain _ _ _ := trivial
  compound _ _ _ := trivial
  target _ _ _ := trivial
  escape _ _ _ _ := trivial

/-- Machines in good order are those that the contract asks for. -/
theorem ordered_good (hm : m.WellFormed) : (ordered m.heap.size).Good m := by
  have hlive {i : Nat} (hi : i < m.heap.size) : i < max m.heap.size m.heap.size :=
    Nat.lt_of_lt_of_le hi (Nat.le_max_left _ _)
  refine ⟨⟨Nat.le_refl _, hm.heap_older⟩, hlive hm.scope, fun i f _ hf => ⟨?_, ?_⟩⟩
  · intro parent hparent
    have haround : m.heap.parent i = some parent := by
      rw [Heap.parent, hf]
      exact hparent
    exact hlive (hm.older i parent haround).2
  · exact fun binding hbinding => (hm.known i f hf binding hbinding).mono fun _ hframe =>
      ordered_admits.2 (hlive hframe)

private theorem Good.lt_size (hm : (ordered frames).Good m) {i : Nat}
    (h : i < max m.heap.size frames) :
    i < m.heap.size :=
  Nat.lt_of_lt_of_le h (Nat.max_le.2 ⟨Nat.le_refl _, hm.machine.1⟩)

private theorem Good.wellFormed (hm : (ordered frames).Good m) : m.WellFormed := by
  refine ⟨hm.lt_size hm.scope, Machine.older_of_heap hm.machine.2,
    fun i f hf binding hbinding => ?_⟩
  have hi : i < m.heap.size := (Array.getElem?_eq_some_iff.1 hf).1
  have hsound := hm.frames i f (Nat.lt_of_lt_of_le hi (Nat.le_max_left _ _)) hf
  exact (hsound.bindings binding hbinding).mono fun _ hadmits =>
    hm.lt_size (ordered_admits.1 hadmits)

end Contract

-- ===================================================== evaluations

/-- Routines that hand out no functions but those they are given and those at hand. -/
def Host.LendsOnly (host : Host) (hand : List Closure) : Prop :=
  ∀ p : Closure → Prop, (∀ f ∈ hand, p f) → host.Lends p

/-- Runs a program in a frame. In the outermost one this is `Program.run`. -/
def Program.runIn (setup : Setup) (budget frame : Nat) (program : Program) : Run Value := fun m =>
  results (Stmt.exec setup budget) program .nil { m with scope := frame, depth := 0 }

/-- However a computation ends, the frames are in order, all that were there are there
still, and what it gives has only functions of frames that exist. -/
def Run.KeepsOrder {α : Type} (value : α → Value) (m : Machine) (x : Run α) : Prop :=
  match x m with
  | .done a m' => m'.WellFormed ∧ m.heap.Grows m'.heap
      ∧ (value a).Every fun f => f.frame < m'.heap.size
  | .failed _ m' => m'.WellFormed ∧ m.heap.Grows m'.heap
  | .exhausted => True

private theorem Run.Meets.keepsOrder {α : Type} {m : Machine} {R : Machine → Machine → Prop}
    {x : Run α}
    {Q : Nat → α → Prop} {value : α → Value}
    (h : Meets (Contract.ordered m.heap.size) R m x Q) (hR : ∀ {m'}, R m m' → m.heap.Grows m'.heap)
    (hQ : ∀ n a, Q n a → (Contract.ordered m.heap.size).Holds n (value a)) :
    x.KeepsOrder value m := by
  unfold KeepsOrder
  cases hx : x m with
  | exhausted => trivial
  | failed fault m' =>
    obtain ⟨hstep, -⟩ := h.failed hx
    exact ⟨hstep.good.wellFormed, hR hstep.moved⟩
  | done a m' =>
    obtain ⟨hstep, ha⟩ := h.done hx
    exact ⟨hstep.good.wellFormed, hR hstep.moved, (hQ _ a ha).mono fun _ hf =>
      hstep.good.lt_size (Contract.ordered_admits.1 hf)⟩

section Evaluations

variable {setup : Setup} {m : Machine} (hm : m.WellFormed)
  (hlent : ∀ n, m.heap.size ≤ n → setup.host.Lends (·.frame < n)) (budget : Nat)

include hlent in
private theorem Contract.lawful_of_lent : (Contract.ordered m.heap.size).Lawful setup :=
  Contract.ordered_lawful fun _ => hlent _ (Nat.le_max_right _ _)

include hm hlent

/-- A program keeps the frames in order, in whatever frame it is run. -/
theorem Program.runIn_keepsOrder {frame : Nat} (hframe : frame < m.heap.size) (program : Program) :
    (program.runIn setup budget frame).KeepsOrder id m := by
  have hC := Contract.lawful_of_lent hlent
  have hat : Machine.WellFormed { m with scope := frame, depth := 0 } :=
    ⟨hframe, hm.older, hm.known⟩
  have hgood : (Contract.ordered m.heap.size).Good { m with scope := frame, depth := 0 } :=
    Contract.ordered_good hat
  have hlast : (Contract.ordered m.heap.size).Holds m.heap.size .nil := Value.every_nil
  have hany : program.Every .any := fun s _ => Tree.every_any.ofStmt s
  have hmeets := Program.results_meets hC (Eval.meets hC budget).stmt hany
    (fun _ _ _ _ => trivial) hgood hlast
  exact hmeets.keepsOrder (m := { m with scope := frame, depth := 0 }) Machine.Retains.grows
    fun _ _ h => h

end Evaluations

-- ======================================================= the host

/-- A machine in the hands of a host, with the functions of scripts that the host has. -/
structure Hosted where
  machine : Machine
  hand : List Closure

namespace Hosted

/-- A machine whose only frame holds the routines of a host. -/
def fresh (host : Host) : Hosted := ⟨.start (host.bindings 0 []), []⟩

/-- What can happen to a machine between one look at it and the next. A program is
evaluated in a frame, and succeeds or fails; a name is looked up, bound or assigned in a
frame; a frame is made inside another. Values that the host binds have functions it has
in hand. -/
inductive Step : Hosted → Hosted → Prop where
  | evaluated {m m' : Machine} {hand : List Closure} {setup : Setup} {budget frame : Nat}
      {program : Program} {v : Value} (there : frame < m.heap.size)
      (lent : setup.host.LendsOnly hand) (run : program.runIn setup budget frame m = .done v m') :
      Step ⟨m, hand⟩ ⟨m', v.functions ++ hand⟩
  | failed {m m' : Machine} {hand : List Closure} {setup : Setup} {budget frame : Nat}
      {program : Program} {fault : Fault} (there : frame < m.heap.size)
      (lent : setup.host.LendsOnly hand)
      (run : program.runIn setup budget frame m = .failed fault m') : Step ⟨m, hand⟩ ⟨m', hand⟩
  | looked {m : Machine} {hand : List Closure} {frame : Nat} {name : String} {v : Value}
      (found : m.heap.get frame name = .ok v) : Step ⟨m, hand⟩ ⟨m, v.functions ++ hand⟩
  | define {m : Machine} {hand : List Closure} (frame : Nat) (name : String) {value : Value}
      (held : ∀ f ∈ value.functions, f ∈ hand) :
      Step ⟨m, hand⟩ ⟨m.defined frame name value, hand⟩
  | assign {m : Machine} {hand : List Closure} {frame : Nat} {name : String} {value : Value}
      {heap : Heap} (held : ∀ f ∈ value.functions, f ∈ hand)
      (assigned : m.heap.assign frame name value = .ok heap) :
      Step ⟨m, hand⟩ ⟨{ m with heap }, hand⟩
  | child {m : Machine} {hand : List Closure} {parent : Nat} (there : parent < m.heap.size) :
      Step ⟨m, hand⟩ ⟨{ m with heap := m.heap.alloc (some parent) [] }, hand⟩

/-- The frames are in order, those of the functions at hand included. -/
structure WellFormed (s : Hosted) : Prop where
  machine : s.machine.WellFormed
  hand : ∀ f ∈ s.hand, f.frame < s.machine.heap.size

private theorem fresh_wellFormed (host : Host) : (fresh host).WellFormed := by
  refine ⟨Machine.start_wellFormed fun binding hbinding => ?_, nofun⟩
  obtain ⟨f, rfl, -⟩ := (Host.mem_bindings hbinding).resolve_right List.not_mem_nil
  rfl

variable {s s' : Hosted}

/-- Routines that hand out only functions at hand hand out only functions of frames that
exist, as long as they are given such. -/
theorem WellFormed.lends (hs : s.WellFormed) {host : Host} (h : host.LendsOnly s.hand) (n : Nat)
    (hn : s.machine.heap.size ≤ n) : host.Lends (·.frame < n) :=
  h _ fun f hf => Nat.lt_of_lt_of_le (hs.hand f hf) hn

/-- Every step keeps the frames in order and all frames that were there. -/
theorem Step.keeps (h : Step s s') (hs : s.WellFormed) :
    s'.WellFormed ∧ s.machine.heap.Grows s'.machine.heap := by
  have hdefine (frame : Nat) (name : String) {value : Value}
      (held : ∀ f ∈ value.functions, f ∈ s.hand) :
      WellFormed ⟨s.machine.defined frame name value, s.hand⟩
        ∧ s.machine.heap.Grows (s.machine.defined frame name value).heap := by
    have hgrows := (Machine.Retains.defined s.machine frame name value).grows
    exact ⟨⟨hs.machine.defined frame name fun f hf => hs.hand f (held f hf),
      fun f hf => Nat.lt_of_lt_of_le (hs.hand f hf) hgrows.size⟩, hgrows⟩
  cases h with
  | @evaluated m m' hand setup budget frame program v there lent run =>
    have hkeeps := Program.runIn_keepsOrder hs.machine (hs.lends lent) budget there program
    rw [Run.KeepsOrder, run] at hkeeps
    obtain ⟨hm', hgrows, hv⟩ := hkeeps
    refine ⟨⟨hm', fun f hf => ?_⟩, hgrows⟩
    rcases List.mem_append.1 hf with hf | hf
    · exact hv f hf
    · exact Nat.lt_of_lt_of_le (hs.hand f hf) hgrows.size
  | @failed m m' hand setup budget frame program fault there lent run =>
    have hkeeps := Program.runIn_keepsOrder hs.machine (hs.lends lent) budget there program
    rw [Run.KeepsOrder, run] at hkeeps
    exact ⟨⟨hkeeps.1, fun f hf => Nat.lt_of_lt_of_le (hs.hand f hf) hkeeps.2.size⟩, hkeeps.2⟩
  | @looked m hand frame name v found =>
    refine ⟨⟨hs.machine, fun f hf => ?_⟩, .refl _⟩
    rcases List.mem_append.1 hf with hf | hf
    · exact hs.machine.get found f hf
    · exact hs.hand f hf
  | @define m hand frame name value held => exact hdefine frame name held
  | @assign m hand frame name value heap held assigned =>
    -- an assignment defines the name again in the frame that has it
    obtain ⟨owner, rfl⟩ := Heap.exists_owner assigned
    exact hdefine owner name held
  | @child m hand parent there =>
    have hsize : (m.heap.alloc (some parent) []).size = m.heap.size + 1 := Heap.size_alloc ..
    refine ⟨⟨hs.machine.child there, fun f hf => ?_⟩, ?_⟩
    · exact hsize ▸ Nat.lt_succ_of_lt (hs.hand f hf)
    · exact ⟨hsize ▸ Nat.le_succ _, fun i hi => Heap.parent_alloc _ _ _ hi⟩

/-- So does every row of steps. -/
theorem keeps (h : Relation.ReflTransGen Step s s') (hs : s.WellFormed) :
    s'.WellFormed ∧ s.machine.heap.Grows s'.machine.heap := by
  induction h with
  | refl => exact ⟨hs, .refl _⟩
  | tail _ hstep ih =>
    obtain ⟨hs', hgrows⟩ := hstep.keeps ih.1
    exact ⟨hs', ih.2.trans hgrows⟩

end Hosted

-- ======================================================= the walk

namespace Heap

/-- The walk outwards from a frame, up to an outermost one. -/
inductive Walk (heap : Heap) : Nat → List Nat → Prop where
  | outermost {frame : Nat} {f : Frame} (there : heap[frame]? = some f) (alone : f.parent = none) :
      Walk heap frame [frame]
  | inside {frame parent : Nat} {f : Frame} {walk : List Nat} (there : heap[frame]? = some f)
      (around : f.parent = some parent) (further : Walk heap parent walk) :
      Walk heap frame (frame :: walk)

/-- The first frame of a walk that binds a name, with what it binds it to. -/
def nearest? (heap : Heap) (name : String) (walk : List Nat) : Option (Nat × Value) :=
  walk.findSome? fun i =>
    heap[i]?.bind fun f => (Entries.get? name f.bindings).map fun value => (i, value)

/-- Where frames are older than those inside them, what is found for a name is the
nearest binding on the walk. -/
theorem Walk.find? {heap : Heap} (hheap : heap.Older) {frame : Nat} {walk : List Nat}
    (h : heap.Walk frame walk) (name : String) :
    heap.find? frame name = heap.nearest? name walk := by
  induction h with
  | @outermost frame f there alone =>
    rw [Heap.find?, nearest?]
    simp only [there, alone, List.findSome?_cons, List.findSome?_nil, Option.bind_some]
    cases Entries.get? name f.bindings <;> rfl
  | @inside frame parent f walk there around further ih =>
    have holder : parent < frame := hheap frame parent (by rw [Heap.parent, there]; exact around)
    rw [Heap.find?, nearest?]
    simp only [there, around, List.findSome?_cons, Option.bind_some, if_pos holder]
    cases Entries.get? name f.bindings with
    | some value => rfl
    | none => exact ih

end Heap

/-- Every walk outwards has an end. -/
theorem Machine.WellFormed.exists_walk {m : Machine} (hm : m.WellFormed) {frame : Nat}
    (hframe : frame < m.heap.size) : ∃ walk, m.heap.Walk frame walk := by
  induction frame using Nat.strongRecOn with
  | ind frame ih =>
    have hthere : m.heap[frame]? = some m.heap[frame] := Array.getElem?_eq_getElem hframe
    cases hparent : m.heap[frame].parent with
    | none => exact ⟨[frame], .outermost hthere hparent⟩
    | some parent =>
      have haround : m.heap.parent frame = some parent := by
        rw [Heap.parent, hthere]
        exact hparent
      obtain ⟨hlt, hsize⟩ := hm.older frame parent haround
      obtain ⟨walk, hwalk⟩ := ih parent hlt hsize
      exact ⟨frame :: walk, .inside hthere hparent hwalk⟩

namespace Hosted

/-- Whatever was done with a fresh machine, its frames are in order: every frame stands in
one that was made before it, and those that the current frame, the frames and the functions
in bound values refer to exist. No frame ever stands in another one than it was made in. So
from every frame the walk outwards ends, and what is looked up or assigned is the nearest
binding on it. -/
theorem reached_wellFormed {host : Host} {s : Hosted}
    (h : Relation.ReflTransGen Step (fresh host) s) :
    s.machine.WellFormed
      ∧ (∀ s', Relation.ReflTransGen Step s s' → s.machine.heap.Grows s'.machine.heap)
      ∧ ∀ frame < s.machine.heap.size, ∃ walk, s.machine.heap.Walk frame walk
        ∧ (∀ name, s.machine.heap.get frame name
          = match s.machine.heap.nearest? name walk with
            | some (_, v) => .ok v
            | none => .error (.undefined name))
        ∧ ∀ name value, s.machine.heap.assign frame name value
          = match s.machine.heap.nearest? name walk with
            | some (owner, _) => .ok (s.machine.heap.define owner name value)
            | none => .error (.undefined name) := by
  have hs := (keeps h (fresh_wellFormed host)).1
  refine ⟨hs.machine, fun s' hfurther => (keeps hfurther hs).2, fun frame hframe => ?_⟩
  obtain ⟨walk, hwalk⟩ := hs.machine.exists_walk hframe
  have hfind (name : String) := hwalk.find? hs.machine.heap_older name
  refine ⟨walk, hwalk, fun name => ?_, fun name value => ?_⟩
  · rw [← hfind]
    rfl
  · rw [← hfind]
    rfl

/-- A function that returns itself. -/
def knot : Closure := ⟨0, ⟨some "f", [], [.return_ .start (some (.name .start "f"))], .start⟩, 0⟩

/-- A program that binds the function where it was made, also inside a list, and calls it. -/
def tying : Program :=
  [.function .start knot.code, .let_ .start "all" (.list .start [.name .start "f"]),
    .expr .start (.call .start (.name .start "f") [])]

/-- The machine of the prelude after it ran that program. -/
def tied : Machine where
  heap := #[⟨none, Prelude.host.bindings 0 []
    ++ [("f", .function knot), ("all", .list [.function knot])]⟩, ⟨some 0, []⟩]
  scope := 0
  depth := 0
  fresh := 1
  transcript := {}

/-- A program that fails after it bound a function. -/
def failing : Program :=
  [.function .start ⟨some "g", [], [], .start⟩, .expr .start (.name .start "nowhere")]

/-- What that program leaves in a new frame, where the host has bound the knot before. -/
def left : Machine where
  heap := tied.heap.push
    ⟨some 0, [("f", .function knot), ("g", .function ⟨1, ⟨some "g", [], [], .start⟩, 2⟩)]⟩
  scope := 2
  depth := 0
  fresh := 2
  transcript := {}

/-- The knot is tied, bound by the host in a new frame, and a program fails in that frame:
the functions there refer to the outermost frame and to the new one, and the walk from it
has an end. -/
theorem reached_wellFormed_knot :
    ∃ s, Relation.ReflTransGen Step (fresh Prelude.host) s ∧ s.machine.WellFormed
      ∧ (s.machine.heap.get 2 "all").toOption.map (·.functions.map Closure.frame) = some [0]
      ∧ (s.machine.heap.get 2 "g").toOption.map (·.functions.map Closure.frame) = some [2]
      ∧ ∃ walk, s.machine.heap.Walk 2 walk := by
  have hlent (hand : List Closure) : Prelude.host.LendsOnly hand := fun p _ => Prelude.host_lends p
  have htied : tying.runIn ⟨Prelude.host, 200⟩ 10 0 (fresh Prelude.host).machine
      = .done (.function knot) tied := by
    cbv
  have hfailing : failing.runIn ⟨Prelude.host, 200⟩ 10 2
      (Machine.defined { tied with heap := tied.heap.alloc (some 0) [] } 2 "f" (.function knot))
      = .failed ⟨.undefined "nowhere", .start⟩ left := by
    cbv
  have hroot : 0 < tied.heap.size := by decide
  have hheld : ∀ f ∈ (Value.function knot).functions, f ∈ [knot] := fun _ hf => hf
  have hsteps : Relation.ReflTransGen Step (fresh Prelude.host) ⟨left, [knot]⟩ :=
    .tail (.tail (.tail (.single (.evaluated Nat.one_pos (hlent []) htied))
      (.child hroot)) (.define 2 "f" hheld)) (.failed (by decide) (hlent _) hfailing)
  obtain ⟨hm, -, hwalk⟩ := reached_wellFormed hsteps
  obtain ⟨walk, hwalk, -⟩ := hwalk 2 (by decide)
  exact ⟨⟨left, [knot]⟩, hsteps, hm, by cbv, by cbv, walk, hwalk⟩

end Hosted

end Scriptlet
