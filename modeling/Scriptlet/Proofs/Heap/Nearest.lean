/-
What a name means is its nearest binding. `Heap.find?` walks outwards, and everything that
is known of its answers is known from two inductions along that walk: what it finds is the
binding of the nearest frame that has one (`Heap.nearest_of_find?`), and it looks at nothing
but the bindings of the one name and at the frames around frames (`Heap.find?_map`).

# What the moves change

A name that is bound in a frame changes that one binding and no frame's place, and a new
frame leaves the others as they are.
-/
import Scriptlet.Heap
import Scriptlet.Proofs.Value.Functions

namespace Scriptlet

namespace Heap

-- =========================================================== moves

/-- What binding a name and adding a frame do to the parts of a heap. -/
@[simp] theorem size_define (heap : Heap) (frame : Nat) (name : String) (value : Value) :
    (heap.define frame name value).size = heap.size := Array.size_modify

@[simp] theorem size_alloc (heap : Heap) (parent : Option Nat)
    (bindings : Entries String Value) : (heap.alloc parent bindings).size = heap.size + 1 :=
  Array.size_push _

/-- A frame after a name was bound somewhere. -/
theorem getElem?_define (heap : Heap) (frame i : Nat) (name : String) (value : Value) :
    (heap.define frame name value)[i]?
      = if frame = i then
          heap[i]?.map fun f => { f with bindings := Entries.put name value f.bindings }
        else heap[i]? :=
  Array.getElem?_modify

/-- A frame after a new one was made. -/
theorem getElem?_alloc (heap : Heap) (parent : Option Nat) (bindings : Entries String Value)
    (i : Nat) :
    (heap.alloc parent bindings)[i]?
      = if i = heap.size then some ⟨parent, bindings⟩ else heap[i]? :=
  Array.getElem?_push

/-- Binding a name gives no frame another parent. -/
@[simp] theorem parent_define (heap : Heap) (frame : Nat) (name : String) (value : Value) (i : Nat) :
    (heap.define frame name value).parent i = heap.parent i := by
  unfold parent
  rw [getElem?_define]
  split
  · cases heap[i]? <;> rfl
  · rfl

/-- Neither does adding a frame, to those that are there. -/
theorem parent_alloc (heap : Heap) (parent : Option Nat) (bindings : Entries String Value) {i : Nat}
    (hi : i < heap.size) : (heap.alloc parent bindings).parent i = heap.parent i := by
  unfold Heap.parent
  rw [getElem?_alloc, if_neg (Nat.ne_of_lt hi)]

-- ======================================================== bindings

/-- What a frame itself binds a name to. -/
def binding? (heap : Heap) (frame : Nat) (name : String) : Option Value :=
  heap[frame]?.bind fun f => Entries.get? name f.bindings

/-- The nearest frame from `frame` outwards that binds a name, and what it binds it to. -/
inductive Nearest (heap : Heap) (name : String) : Nat → Nat → Value → Prop where
  | here {frame : Nat} {v : Value} (bound : heap.binding? frame name = some v) :
      Nearest heap name frame frame v
  | outward {frame parent owner : Nat} {v : Value} (unbound : heap.binding? frame name = none)
      (around : heap.parent frame = some parent) (further : Nearest heap name parent owner v) :
      Nearest heap name frame owner v

variable {heap heap' : Heap} {frame owner : Nat} {name : String} {v : Value}

/-- What a frame binds by itself, whatever its parents bind. -/
theorem binding?_eq_some :
    heap.binding? frame name = some v
      ↔ ∃ f, heap[frame]? = some f ∧ Entries.get? name f.bindings = some v :=
  Option.bind_eq_some_iff

/-- A frame that binds something is there. -/
theorem lt_size_of_binding? (h : heap.binding? frame name = some v) : frame < heap.size := by
  obtain ⟨f, hframe, -⟩ := binding?_eq_some.1 h
  exact (Array.getElem?_eq_some_iff.1 hframe).1

/-- A name is bound in one frame only when it is bound there. -/
theorem binding?_define (heap : Heap) {frame : Nat} (hframe : frame < heap.size) (name : String)
    (value : Value) (i : Nat) (other : String) :
    (heap.define frame name value).binding? i other
      = if i = frame ∧ other = name then some value else heap.binding? i other := by
  unfold binding?
  rw [getElem?_define]
  by_cases hi : frame = i
  · subst hi
    rw [if_pos rfl, Array.getElem?_eq_getElem hframe, Option.map_some, Option.bind_some,
      Entries.get?_put]
    by_cases hother : other = name
    · rw [if_pos hother, if_pos ⟨rfl, hother⟩]
    · rw [if_neg hother, if_neg fun hboth => hother hboth.2, Option.bind_some]
  · rw [if_neg hi, if_neg fun hboth => hi hboth.1.symm]

/-- The frame of the nearest binding has that binding. -/
theorem Nearest.binding? (h : heap.Nearest name frame owner v) :
    heap.binding? owner name = some v := by
  induction h with
  | here bound => exact bound
  | outward _ _ _ ih => exact ih

-- ======================================================== look-ups

/-- What is found for a name: what the frame itself binds it to, or else what is found from
the frame around it. -/
theorem find?_eq (heap : Heap) (frame : Nat) (name : String) :
    heap.find? frame name
      = match heap.binding? frame name, heap.parent frame with
        | some v, _ => some (frame, v)
        | none, some parent => if parent < frame then heap.find? parent name else none
        | none, none => none := by
  rw [find?, binding?, parent]
  cases heap[frame]? with
  | none => rfl
  | some f =>
    simp only [Option.bind_some]
    cases Entries.get? name f.bindings with
    | some v => rfl
    | none => cases f.parent <;> rfl

/-- What is found for a name is its nearest binding. -/
theorem nearest_of_find? (h : heap.find? frame name = some (owner, v)) :
    heap.Nearest name frame owner v := by
  induction frame using Nat.strongRecOn with
  | ind frame ih =>
    rw [find?_eq] at h
    cases hbound : heap.binding? frame name with
    | some value =>
      simp only [hbound] at h
      cases h
      exact .here hbound
    | none =>
      simp only [hbound] at h
      cases hparent : heap.parent frame with
      | none =>
        rw [hparent] at h
        cases h
      | some parent =>
        simp only [hparent] at h
        split at h
        · exact .outward hbound hparent (ih parent ‹_› h)
        · cases h

/-- The frame that a name is found in binds it. -/
theorem get?_of_find? (h : heap.find? frame name = some (owner, v)) :
    ∃ f, heap[owner]? = some f ∧ Entries.get? name f.bindings = some v :=
  binding?_eq_some.1 (nearest_of_find? h).binding?

/-- Where the values that a name is bound to are changed, what is found for it is changed
alike. -/
theorem find?_map (g : Value → Value)
    (hbinding : ∀ i, heap'.binding? i name = (heap.binding? i name).map g)
    (hparent : ∀ i, heap'.parent i = heap.parent i) (frame : Nat) :
    heap'.find? frame name = (heap.find? frame name).map fun found => (found.1, g found.2) := by
  induction frame using Nat.strongRecOn with
  | ind frame ih =>
    rw [find?_eq, find?_eq heap, hbinding, hparent]
    cases heap.binding? frame name with
    | some v => rfl
    | none =>
      cases heap.parent frame with
      | none => rfl
      | some parent =>
        dsimp only [Option.map_none]
        split
        · exact ih parent ‹_›
        · rfl

/-- What is found for a name depends on the bindings of that name alone. -/
theorem find?_congr (hbinding : ∀ i, heap'.binding? i name = heap.binding? i name)
    (hparent : ∀ i, heap'.parent i = heap.parent i) (frame : Nat) :
    heap'.find? frame name = heap.find? frame name := by
  have hid (i : Nat) : heap'.binding? i name = (heap.binding? i name).map id :=
    (hbinding i).trans (congrFun Option.map_id _).symm
  rw [find?_map id hid hparent]
  cases heap.find? frame name <;> rfl

end Heap

end Scriptlet
