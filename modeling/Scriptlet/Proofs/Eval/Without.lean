/-
States without some of their outermost bindings. A frame can be seen without what
it binds under certain names, and a state without what its outermost frame binds
under them. What a script does with other names is the same either way: they mean
the same (`Heap.find?_without`), and binding one of them, or entering a frame, comes
to the same before and after the bindings are left out. What is left out stays as it
is (`Heap.only`).
-/
import Scriptlet.Interpreter
import Scriptlet.Proofs.Eval.Contract

namespace Scriptlet

variable {names : List String} {name : String}

-- ========================================================= entries

namespace Entries

variable {κ α : Type} [DecidableEq κ] (keep : κ → Bool) {key : κ}

private theorem get?_filter (hkey : keep key = true) (entries : Entries κ α) :
    get? key (entries.filter fun entry => keep entry.1) = get? key entries := by
  induction entries with
  | nil => rfl
  | cons entry rest ih =>
    obtain ⟨k, v⟩ := entry
    by_cases hk : k = key
    · rw [List.filter_cons_of_pos (by rw [hk]; exact hkey), get?, get?, if_pos hk, if_pos hk]
    · rw [get?, if_neg hk, List.filter_cons]
      split
      · rw [get?, if_neg hk, ih]
      · exact ih

/-- Entries that are kept may be put before or after the others are dropped. -/
private theorem put_filter_of_pos (hkey : keep key = true) (value : α) (entries : Entries κ α) :
    (put key value entries).filter (fun entry => keep entry.1)
      = put key value (entries.filter fun entry => keep entry.1) := by
  induction entries with
  | nil => exact List.filter_cons_of_pos hkey
  | cons entry rest ih =>
    obtain ⟨k, v⟩ := entry
    by_cases hk : k = key
    · subst hk
      have hfront (v : α) : ((k, v) :: rest).filter (fun entry => keep entry.1)
          = (k, v) :: rest.filter fun entry => keep entry.1 := List.filter_cons_of_pos hkey
      rw [put, if_pos rfl, hfront, hfront, put, if_pos rfl]
    · rw [put, if_neg hk, List.filter_cons, List.filter_cons]
      split
      · rw [put, if_neg hk, ih]
      · exact ih

/-- Putting an entry that is dropped again changes nothing that is kept. -/
private theorem put_filter_of_neg (hkey : keep key = false) (value : α) (entries : Entries κ α) :
    (put key value entries).filter (fun entry => keep entry.1)
      = entries.filter fun entry => keep entry.1 := by
  have hdrop (v : α) (rest : Entries κ α) :
      ((key, v) :: rest).filter (fun entry => keep entry.1)
        = rest.filter fun entry => keep entry.1 :=
    List.filter_cons_of_neg (by rw [hkey]; exact Bool.false_ne_true)
  induction entries with
  | nil => exact hdrop value []
  | cons entry rest ih =>
    obtain ⟨k, v⟩ := entry
    by_cases hk : k = key
    · subst hk
      rw [put, if_pos rfl, hdrop, hdrop]
    · rw [put, if_neg hk, List.filter_cons, List.filter_cons, ih]

end Entries

-- ========================================================== states

/-- The frame without what it binds under some names. -/
def Frame.without (names : List String) (f : Frame) : Frame :=
  { f with bindings := f.bindings.filter fun binding => binding.1 ∉ names }

/-- The heap without what its outermost frame binds under some names. -/
def Heap.without (names : List String) (heap : Heap) : Heap :=
  heap.modify Machine.root (Frame.without names)

/-- What the outermost frame binds under some names. -/
def Heap.only (names : List String) (heap : Heap) : Entries String Value :=
  match heap[Machine.root]? with
  | some f => f.bindings.filter fun binding => binding.1 ∈ names
  | none => []

/-- The machine without what its outermost frame binds under some names. -/
def Machine.without (names : List String) (m : Machine) : Machine :=
  { m with heap := m.heap.without names }

/-- The interpreter without what its outermost frame binds under some names. -/
def Interpreter.without (names : List String) (i : Interpreter) : Interpreter :=
  { i with machine := i.machine.without names }

/-- What the outermost frame of an interpreter binds under some names. -/
def Interpreter.only (names : List String) (i : Interpreter) : Entries String Value :=
  i.machine.heap.only names

-- =========================================================== moves

namespace Heap

/-- Names are taken out of a frame; the frame stays. -/
@[simp] theorem size_without (heap : Heap) : (heap.without names).size = heap.size :=
  Array.size_modify

/-- Only the root loses anything. -/
private theorem getElem?_without (heap : Heap) (i : Nat) :
    (heap.without names)[i]?
      = if Machine.root = i then heap[i]?.map (Frame.without names) else heap[i]? :=
  Array.getElem?_modify

private theorem parent_without (heap : Heap) (i : Nat) :
    (heap.without names).parent i = heap.parent i := by
  unfold parent
  rw [getElem?_without]
  split
  · cases heap[i]? <;> rfl
  · rfl

private theorem binding?_without (hname : name ∉ names) (heap : Heap) (i : Nat) :
    (heap.without names).binding? i name = heap.binding? i name := by
  unfold binding?
  rw [getElem?_without]
  split
  · cases heap[i]? with
    | none => rfl
    | some f =>
      exact Entries.get?_filter (fun name => name ∉ names) (decide_eq_true hname) f.bindings
  · rfl

/-- Other names mean the same. -/
theorem find?_without (hname : name ∉ names) (heap : Heap) (frame : Nat) :
    (heap.without names).find? frame name = heap.find? frame name :=
  find?_congr (binding?_without hname heap) (parent_without heap) frame

/-- Binding another name commutes with taking the names out. -/
private theorem define_without (hname : name ∉ names) (heap : Heap) (frame : Nat) (value : Value) :
    (heap.define frame name value).without names
      = (heap.without names).define frame name value := by
  refine Array.ext_getElem? fun i => ?_
  rw [getElem?_without, getElem?_define, getElem?_define, getElem?_without]
  by_cases hroot : Machine.root = i
  · rw [if_pos hroot, if_pos hroot]
    by_cases hframe : frame = i
    · rw [if_pos hframe, if_pos hframe, Option.map_map, Option.map_map]
      refine congrArg (Option.map · heap[i]?) (funext fun f => congrArg (Frame.mk f.parent) ?_)
      exact Entries.put_filter_of_pos (fun name => name ∉ names) (decide_eq_true hname) value
        f.bindings
    · rw [if_neg hframe, if_neg hframe]
  · rw [if_neg hroot, if_neg hroot]

/-- Binding another name leaves the bindings of the names as they are. -/
theorem define_only (hname : name ∉ names) (heap : Heap) (frame : Nat) (value : Value) :
    (heap.define frame name value).only names = heap.only names := by
  unfold only
  rw [getElem?_define]
  by_cases hframe : frame = Machine.root
  · rw [if_pos hframe]
    cases heap[Machine.root]? with
    | none => rfl
    | some f =>
      exact Entries.put_filter_of_neg (fun name => name ∈ names) (decide_eq_false hname) value
        f.bindings
  · rw [if_neg hframe]

/-- A new frame is not the root, so it keeps all it is given. -/
private theorem alloc_without (heap : Heap) (hroot : Machine.root < heap.size) (parent : Option Nat)
    (bindings : Entries String Value) :
    (heap.alloc parent bindings).without names = (heap.without names).alloc parent bindings := by
  refine Array.ext_getElem? fun i => ?_
  rw [getElem?_without, getElem?_alloc, getElem?_alloc, getElem?_without, size_without]
  by_cases hnew : i = heap.size
  · rw [if_neg (by omega), if_pos hnew, if_pos hnew]
  · rw [if_neg hnew, if_neg hnew]

/-- For the same reason a new frame adds nothing to the bindings of the names. -/
theorem alloc_only (heap : Heap) (hroot : Machine.root < heap.size) (parent : Option Nat)
    (bindings : Entries String Value) :
    (heap.alloc parent bindings).only names = heap.only names := by
  unfold only
  rw [getElem?_alloc, if_neg (by omega)]

end Heap

namespace Machine

/-- The moves of the machine commute with taking names out of its root, each from the same
fact about the heap. -/
theorem defined_without (hname : name ∉ names) (m : Machine) (frame : Nat) (value : Value) :
    (m.defined frame name value).without names = (m.without names).defined frame name value :=
  congrArg (fun heap => { m with heap }) (Heap.define_without hname m.heap frame value)

theorem entered_without (m : Machine) (hroot : root < m.heap.size) (parent : Nat)
    (bindings : Entries String Value) :
    (m.entered parent bindings).without names = (m.without names).entered parent bindings := by
  unfold entered without
  rw [Heap.alloc_without _ hroot, Heap.size_without]

end Machine

end Scriptlet
