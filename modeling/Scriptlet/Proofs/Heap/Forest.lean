/-
Looking up and binding in a forest of frames. However the frames were made and changed, a
name means its binding in the nearest frame outwards that has one, and it is undefined if
there is none. Frames are shared by all frames inside them, so a change to one binding is
seen from many places; here it is said from which, for every forest and whatever shadows
what.

# From where a frame is seen

A frame is seen under a name from all frames from which the way outwards comes to it before
any other frame that binds the name (`Heap.Sees`). To bind a name in a frame changes what
the name means in the frames that see it, and nowhere else (`Heap.find?_define_of_sees`,
`Heap.find?_define_of_not_sees`). An assignment binds the name in its nearest frame, and so
is one case of this: the frames that see that one are those whose nearest it is.
-/
import Scriptlet.Proofs.Eval.Assignment

namespace Scriptlet

namespace Heap

variable {heap heap' : Heap} {f g owner : Nat} {name : String} {value : Value}

-- ======================================================== forests

/-- The forests of frames: none at first, then one more outside of all others or inside one
of them, or the same frames after a name was bound in one or assigned from one. An
assignment that fails gives no other forest. -/
inductive Built : Heap → Prop where
  | empty : Built #[]
  | new {heap : Heap} (before : Built heap) : Built (heap.alloc none [])
  | child {heap : Heap} {parent : Nat} (before : Built heap) (there : parent < heap.size) :
      Built (heap.alloc (some parent) [])
  | define {heap : Heap} {frame : Nat} {name : String} {value : Value} (before : Built heap)
      (there : frame < heap.size) : Built (heap.define frame name value)
  | assign {heap heap' : Heap} {frame : Nat} {name : String} {value : Value} (before : Built heap)
      (assigned : heap.assign frame name value = .ok heap') : Built heap'

/-- A frame without a parent may be added at any time. -/
theorem Older.new (h : heap.Older) (bindings : Entries String Value) :
    (heap.alloc none bindings).Older := by
  intro i parent hparent
  by_cases hi : i = heap.size
  · subst hi
    unfold Heap.parent at hparent
    rw [getElem?_alloc, if_pos rfl] at hparent
    cases hparent
  · have hbound := lt_size_of_parent hparent
    rw [size_alloc] at hbound
    have hold : i < heap.size := by omega
    exact h i parent (parent_alloc heap none bindings hold ▸ hparent)

/-- Frames stand in older ones. -/
theorem Built.older (h : heap.Built) : heap.Older := by
  induction h with
  | empty => exact fun _ _ hparent => nomatch hparent
  | new _ ih => exact ih.new []
  | child _ there ih => exact ih.alloc there []
  | define _ _ ih => exact ih.define _ _ _
  | assign _ assigned ih =>
    obtain ⟨owner, rfl⟩ := exists_owner assigned
    exact ih.define _ _ _

-- ======================================================== look-ups

/-- From the frame `g`, the way outwards comes to the frame `f` before it comes to any other
that binds the name. -/
inductive Sees (heap : Heap) (name : String) : Nat → Nat → Prop where
  | here (frame : Nat) : Sees heap name frame frame
  | outward {g parent f : Nat} (unbound : heap.binding? g name = none)
      (around : heap.parent g = some parent) (further : Sees heap name parent f) :
      Sees heap name g f

/-- The nearest frame that binds a name is the one that is seen and binds it. -/
theorem nearest_iff :
    heap.Nearest name g owner value ↔ heap.Sees name g owner ∧ heap.binding? owner name = some value := by
  constructor
  · intro h
    refine ⟨?_, h.binding?⟩
    induction h with
    | here _ => exact .here _
    | outward unbound around _ ih => exact .outward unbound around ih
  · rintro ⟨hsees, hbound⟩
    induction hsees with
    | here _ => exact .here hbound
    | outward unbound around _ ih => exact .outward unbound around (ih hbound)

/-- Where frames stand in older ones, the nearest binding is what is found. -/
theorem Nearest.find? (hheap : heap.Older) (h : heap.Nearest name g owner value) :
    heap.find? g name = some (owner, value) := by
  induction h with
  | here bound => rw [find?_eq, bound]
  | outward unbound around _ ih =>
    rw [find?_eq, unbound, around]
    exact (if_pos (hheap _ _ around)).trans ih

/-- Looking a name up is finding the nearest frame that binds it, if there is one. -/
private theorem get_eq_ok_iff (hheap : heap.Older) :
    heap.get g name = .ok value ↔ ∃ owner, heap.Nearest name g owner value := by
  unfold get
  cases hfound : heap.find? g name with
  | none =>
    refine iff_of_false nofun ?_
    rintro ⟨owner, hnearest⟩
    rw [hnearest.find? hheap] at hfound
    cases hfound
  | some found =>
    obtain ⟨owner, v⟩ := found
    constructor
    · intro h
      cases h
      exact ⟨owner, nearest_of_find? hfound⟩
    · rintro ⟨_, hnearest⟩
      rw [hnearest.find? hheap] at hfound
      cases hfound
      rfl

private theorem get_eq_error_iff (hheap : heap.Older) {cause : Cause} :
    heap.get g name = .error cause ↔
      cause = .undefined name ∧ ¬ ∃ owner value, heap.Nearest name g owner value := by
  unfold get
  cases hfound : heap.find? g name with
  | none =>
    have hnone : ¬ ∃ owner value, heap.Nearest name g owner value := by
      rintro ⟨owner, v, hnearest⟩
      rw [hnearest.find? hheap] at hfound
      cases hfound
    exact ⟨fun h => ⟨(Except.error.inj h).symm, hnone⟩, fun h => by rw [h.1]⟩
  | some found =>
    refine iff_of_false nofun fun h => ?_
    exact h.2 ⟨found.1, found.2, nearest_of_find? hfound⟩

-- ========================================================= binding

/-- A frame that sees another one for a name sees what is bound there anew. -/
private theorem find?_define_of_sees (hheap : heap.Older) (hf : f < heap.size)
    (h : heap.Sees name g f) (value : Value) :
    (heap.define f name value).find? g name = some (f, value) := by
  induction h with
  | here frame => rw [find?_eq, binding?_define heap hf, if_pos ⟨rfl, rfl⟩]
  | @outward g parent f unbound around _ ih =>
    have hbinding := binding?_define heap hf name value g name
    by_cases hg : g = f
    · subst hg
      rw [find?_eq, hbinding, if_pos ⟨rfl, rfl⟩]
    · rw [if_neg fun hboth => hg hboth.1, unbound] at hbinding
      rw [find?_eq, hbinding, parent_define, around]
      exact (if_pos (hheap g parent around)).trans (ih hf)

private theorem find?_define_of_ne (hf : f < heap.size) {other : String} (h : other ≠ name)
    (value : Value) (g : Nat) :
    (heap.define f name value).find? g other = heap.find? g other := by
  refine find?_congr (fun i => ?_) (parent_define heap f name value) g
  rw [binding?_define heap hf, if_neg fun hboth => h hboth.2]

/-- From where the frame is not seen, a name means what it meant before. -/
theorem find?_define_of_not_sees (hf : f < heap.size) (h : ¬ heap.Sees name g f)
    (value : Value) : (heap.define f name value).find? g name = heap.find? g name := by
  induction g using Nat.strongRecOn with
  | ind g ih =>
    have hg : g ≠ f := by
      rintro rfl
      exact h (.here g)
    rw [find?_eq, find?_eq heap, binding?_define heap hf, if_neg fun hboth => hg hboth.1,
      parent_define]
    cases hbound : heap.binding? g name with
    | some v => rfl
    | none =>
      cases hparent : heap.parent g with
      | none => rfl
      | some parent =>
        dsimp only
        split
        · exact ih parent ‹_› fun hfurther => h (.outward hbound hparent hfurther)
        · rfl

private theorem get_congr {other : String} (h : heap'.find? g other = heap.find? g other) :
    heap'.get g other = heap.get g other := by
  rw [get, get, h]

/-- An assignment that succeeds binds the name where it was found. -/
theorem assign_eq_ok_iff :
    heap.assign f name value = .ok heap' ↔
      ∃ owner old, heap.find? f name = some (owner, old) ∧ heap.define owner name value = heap' := by
  unfold assign
  cases heap.find? f name with
  | none => exact iff_of_false nofun nofun
  | some found =>
    constructor
    · intro h
      exact ⟨found.1, found.2, rfl, Except.ok.inj h⟩
    · rintro ⟨_, _, hfound, rfl⟩
      cases hfound
      rfl

/-- Scripts assign as the heap does, and an assignment that fails leaves everything as it
was. -/
theorem assign_run (pos : Position) (name : String) (value : Value) (m : Machine) :
    Run.assign pos name value m
      = match m.heap.assign m.scope name value with
        | .ok heap => .done () { m with heap }
        | .error cause => .failed ⟨cause, pos⟩ m := by
  unfold Run.assign assign
  dsimp only
  cases m.heap.find? m.scope name with
  | none => rfl
  | some found => rfl

-- ========================================================== laws

/-- The same frame is the nearest from both that binds the name. -/
def Shares (heap : Heap) (name : String) (f g : Nat) : Prop :=
  ∃ owner value, heap.Nearest name f owner value ∧ heap.Nearest name g owner value

/-- From some frames, and only from them, the name has come to mean the value; whatever
else is looked up from anywhere has the same answer in both forests. -/
def Changes (heap : Heap) (name : String) (p : Nat → Prop) (value : Value) (heap' : Heap) :
    Prop :=
  (∀ g, p g → heap'.get g name = .ok value)
    ∧ ∀ g other, ¬ (other = name ∧ p g) → heap'.get g other = heap.get g other

/-- Binding a name in a frame is seen from exactly those frames whose walk comes to it
before any other that binds the name. -/
private theorem changes_define (hheap : heap.Older) (hf : f < heap.size) (name : String)
    (value : Value) :
    heap.Changes name (heap.Sees name · f) value (heap.define f name value) := by
  refine ⟨fun g hsees => ?_, fun g other h => get_congr ?_⟩
  · rw [get, find?_define_of_sees hheap hf hsees]
  · by_cases hother : other = name
    · subst hother
      exact find?_define_of_not_sees hf (fun hsees => h ⟨rfl, hsees⟩) value
    · exact find?_define_of_ne hf hother value g

/-- Writing to a name is seen from all frames that found it where it was written. -/
private theorem changes_assign (hheap : heap.Older) (h : heap.assign f name value = .ok heap') :
    heap.Changes name (heap.Shares name f) value heap' := by
  obtain ⟨owner, old, hfound, rfl⟩ := assign_eq_ok_iff.1 h
  have hnearest := nearest_of_find? hfound
  have hbound := hnearest.binding?
  obtain ⟨hchanged, hrest⟩ := changes_define hheap (lt_size_of_binding? hbound) name value
  -- a frame shares the binding if and only if it sees the frame that has it
  have hshares (g : Nat) : heap.Shares name f g ↔ heap.Sees name g owner := by
    constructor
    · rintro ⟨owner', v, hf, hg⟩
      have hsame := (hf.find? hheap).symm.trans hfound
      cases hsame
      exact (nearest_iff.1 hg).1
    · exact fun hsees => ⟨owner, old, hnearest, nearest_iff.2 ⟨hsees, hbound⟩⟩
  exact ⟨fun g hg => hchanged g ((hshares g).1 hg),
    fun g other hg => hrest g other fun hboth => hg ⟨hboth.1, (hshares g).2 hboth.2⟩⟩

private theorem assign_isOk_iff (f : Nat) (name : String) (value : Value) :
    (∃ heap', heap.assign f name value = .ok heap') ↔ ∃ old, heap.get f name = .ok old := by
  unfold assign get
  cases heap.find? f name with
  | none => exact iff_of_false nofun nofun
  | some found => exact iff_of_true ⟨_, rfl⟩ ⟨_, rfl⟩

/-- Looking up, assigning and binding in any forest, from all its frames. A name means its
binding in the nearest frame that has one, and is undefined if there is none. It can be
assigned where it means something, and nothing happens where it does not; an assignment
changes what it means from the frames that share the binding, and no names of any frame.
Binding it in a frame changes what it means from the frames that see that one, and puts it
behind the names of the frame if it is new to it. -/
theorem built_lookups (h : heap.Built) :
    (∀ f name value, heap.get f name = .ok value ↔ ∃ owner, heap.Nearest name f owner value)
      ∧ (∀ f name cause, heap.get f name = .error cause ↔
          cause = .undefined name ∧ ¬ ∃ owner value, heap.Nearest name f owner value)
      ∧ (∀ f name value,
          (∃ heap', heap.assign f name value = .ok heap') ↔ ∃ old, heap.get f name = .ok old)
      ∧ (∀ (m : Machine) pos name value, m.heap = heap →
          (¬ ∃ old, heap.get m.scope name = .ok old) →
            Run.assign pos name value m = .failed ⟨.undefined name, pos⟩ m)
      ∧ (∀ f name value heap', heap.assign f name value = .ok heap' →
          heap.Changes name (heap.Shares name f) value heap'
            ∧ ∀ g, heap'.names g = heap.names g)
      ∧ ∀ f < heap.size, ∀ name value,
          heap.Changes name (heap.Sees name · f) value (heap.define f name value)
            ∧ (heap.define f name value).names f
                = (if name ∈ heap.names f then heap.names f else heap.names f ++ [name])
            ∧ ∀ g, g ≠ f → (heap.define f name value).names g = heap.names g := by
  have hheap := h.older
  refine ⟨fun f name value => get_eq_ok_iff hheap, fun f name cause => get_eq_error_iff hheap,
    assign_isOk_iff, ?_, fun f name value heap' hassign => ?_, fun f hf name value => ?_⟩
  · rintro m pos name value rfl hundefined
    rw [assign_run, assign]
    cases hfound : m.heap.find? m.scope name with
    | none => rfl
    | some found =>
      refine absurd ⟨found.2, ?_⟩ hundefined
      rw [get, hfound]
  · refine ⟨changes_assign hheap hassign, ?_⟩
    -- the owner has the name already, so no frame gets a new one
    obtain ⟨owner, old, hfound, rfl⟩ := assign_eq_ok_iff.1 hassign
    exact names_define_of_mem heap (mem_names_of_find? hfound) value
  · exact ⟨changes_define hheap hf name value, names_define heap hf name value,
      fun g hg => names_define_of_ne heap hg.symm name value⟩

/-- Five frames, one of them outside of the others: the outermost binds a name, one two
steps further in binds it again, and another stands beside these two. -/
def shadowed : Heap :=
  let frames : Heap := #[⟨none, []⟩, ⟨some 0, []⟩, ⟨some 1, []⟩, ⟨some 0, []⟩, ⟨none, []⟩]
  (frames.define 0 "x" .nil).define 2 "x" (.bool true)

private theorem shadowed_built : shadowed.Built :=
  .define (.define (.new (.child (.child (.child (.new .empty) (by decide)) (by decide))
    (by decide))) (by decide)) (by decide)

/-- An assignment from the frame between the two bindings is seen from the frame beside it
and not from behind the inner binding; a new binding there is not seen from beside; and
from the frame outside there is nothing to be seen at all. -/
theorem built_lookups_shadowed :
    shadowed.Built
      ∧ (∃ heap', shadowed.assign 1 "x" (.bool false) = .ok heap'
        ∧ heap'.get 3 "x" = .ok (.bool false) ∧ heap'.get 2 "x" = shadowed.get 2 "x"
        ∧ heap'.names 1 = [])
      ∧ (shadowed.define 1 "x" (.bool false)).get 1 "x" = .ok (.bool false)
      ∧ (shadowed.define 1 "x" (.bool false)).get 3 "x" = shadowed.get 3 "x"
      ∧ (shadowed.define 1 "x" (.bool false)).names 1 = ["x"]
      ∧ shadowed.get 4 "x" = .error (.undefined "x") := by
  obtain ⟨hget, herror, hassigns, -, hassigned, hdefined⟩ := built_lookups shadowed_built
  have hroot : shadowed.Nearest "x" 0 0 .nil := .here rfl
  have hmiddle : shadowed.Nearest "x" 1 0 .nil := .outward rfl rfl hroot
  have hbeside : shadowed.Nearest "x" 3 0 .nil := .outward rfl rfl hroot
  obtain ⟨heap', hassign⟩ := (hassigns 1 "x" (.bool false)).2 ⟨_, (hget 1 "x" .nil).2 ⟨0, hmiddle⟩⟩
  obtain ⟨⟨hshared, helsewhere⟩, hnames⟩ := hassigned 1 "x" (.bool false) heap' hassign
  obtain ⟨⟨hseen, hunseen⟩, hadded, -⟩ := hdefined 1 (by decide) "x" (.bool false)
  have hinner : ¬ shadowed.Shares "x" 1 2 := by
    rintro ⟨owner, v, hone, htwo⟩
    have howner := hmiddle.find? shadowed_built.older
    rw [hone.find? shadowed_built.older] at howner
    cases howner
    cases htwo with
    | outward unbound _ _ => cases unbound
  have haside : ¬ shadowed.Sees "x" 3 1 := by
    intro h
    cases h with
    | outward _ around further =>
      cases around
      cases further with
      | outward unbound _ _ => cases unbound
  have hnowhere : ¬ ∃ owner v, shadowed.Nearest "x" 4 owner v := by
    rintro ⟨owner, v, h⟩
    cases h with
    | here bound => cases bound
    | outward _ around _ => cases around
  exact ⟨shadowed_built,
    ⟨heap', hassign, hshared 3 ⟨0, .nil, hmiddle, hbeside⟩,
      helsewhere 2 "x" fun h => hinner h.2, hnames 1⟩,
    hseen 1 (.here 1), hunseen 3 "x" fun h => haside h.2, hadded,
    (herror 4 "x" _).2 ⟨rfl, hnowhere⟩⟩

end Heap

end Scriptlet
