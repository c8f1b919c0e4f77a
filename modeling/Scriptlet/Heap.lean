/-
Scopes. A frame binds names and may stand inside another frame; the heap holds
all frames by number, and functions refer to the frame they were made in by its
number, so a frame lives on for the functions that need it. A name means its
binding in the nearest frame around it that has one.

A frame's parent is older than the frame, which is why the walk outwards ends;
`find?` walks only to older frames.
-/
import Scriptlet.Fault

namespace Scriptlet

/-- A scope: its bindings and the scope around it. -/
structure Frame where
  parent : Option Nat
  bindings : Entries String Value

/-- All scopes, oldest first. -/
abbrev Heap := Array Frame

namespace Heap

/-- A new frame inside `parent` with the given bindings; its number is the
heap's old size. -/
def alloc (heap : Heap) (parent : Option Nat) (bindings : Entries String Value) : Heap :=
  heap.push ⟨parent, bindings⟩

/-- The nearest frame from `frame` outwards that binds `name`, with the value. -/
def find? (heap : Heap) (frame : Nat) (name : String) : Option (Nat × Value) :=
  match heap[frame]? with
  | none => none
  | some f =>
      match Entries.get? name f.bindings with
      | some value => some (frame, value)
      | none =>
          match f.parent with
          | none => none
          | some parent => if parent < frame then find? heap parent name else none
termination_by frame

/-- What `name` means in a frame. -/
def get (heap : Heap) (frame : Nat) (name : String) : Except Cause Value :=
  match heap.find? frame name with
  | some (_, value) => .ok value
  | none => .error (.undefined name)

/-- Binds `name` in this frame, whatever the frames around it bind. -/
def define (heap : Heap) (frame : Nat) (name : String) (value : Value) : Heap :=
  heap.modify frame fun f => { f with bindings := Entries.put name value f.bindings }

/-- Changes the binding that `name` means in a frame. -/
def assign (heap : Heap) (frame : Nat) (name : String) (value : Value) : Except Cause Heap :=
  match heap.find? frame name with
  | some (owner, _) => .ok (heap.define owner name value)
  | none => .error (.undefined name)

/-- The names that a frame itself binds, in the order of their first
definition. -/
def names (heap : Heap) (frame : Nat) : List String :=
  match heap[frame]? with
  | some f => Entries.keys f.bindings
  | none => []

/-- Whether a frame itself binds `name`. -/
def binds (heap : Heap) (frame : Nat) (name : String) : Bool :=
  match heap[frame]? with
  | some f => Entries.has name f.bindings
  | none => false

/-- The frame around a frame. -/
def parent (heap : Heap) (frame : Nat) : Option Nat := (heap[frame]?).bind (·.parent)

end Heap

end Scriptlet
