/-
Values, frames and machines with the positions in their functions moved. Only functions
carry positions, in their code, and their identities stay, so this is the relabelling that
has other positions and nothing else (`Relabelling.moving`). What is known of relabellings
is carried over by what is said here: a value, a frame, a heap or a machine is moved as it
is relabelled.
-/
import Scriptlet.Proofs.Relabelled.Value

namespace Scriptlet

variable (f : Position → Position)

-- ========================================================== values

def Closure.moved (c : Closure) : Closure := { c with code := c.code.moved f }

mutual

/-- The value with the positions in its functions moved. -/
def Value.moved (f : Position → Position) : Value → Value
  | .list items => .list (Value.movedItems f items)
  | .map entries => .map (Value.movedEntries f entries)
  | .function c => .function (c.moved f)
  | .nil => .nil
  | .bool b => .bool b
  | .number n => .number n
  | .string s => .string s
  | .native n => .native n

def Value.movedItems (f : Position → Position) : List Value → List Value
  | [] => []
  | v :: rest => v.moved f :: Value.movedItems f rest

def Value.movedEntries (f : Position → Position) : List (MapKey × Value) → List (MapKey × Value)
  | [] => []
  | (key, v) :: rest => (key, v.moved f) :: Value.movedEntries f rest

end

/-- Other positions, and the same identities. -/
def Relabelling.moving : Relabelling where
  pos := f
  id i := i
  gap := 0
  injective _ _ h := h

mutual

/-- Moving positions is a relabelling that leaves identities alone, so all that is known
of relabellings is known of it. -/
theorem Value.relabelled_moving (f : Position → Position) :
    ∀ v : Value, v.relabelled (.moving f) = v.moved f
  | .nil | .bool _ | .number _ | .string _ | .native _ | .function _ => rfl
  | .list items => congrArg Value.list (Value.relabelledItems_moving f items)
  | .map entries => congrArg Value.map (Value.relabelledEntries_moving f entries)

private theorem Value.relabelledItems_moving (f : Position → Position) :
    ∀ items : List Value, Value.relabelledItems (.moving f) items = Value.movedItems f items
  | [] => rfl
  | v :: rest => by
    rw [Value.relabelledItems, Value.movedItems, Value.relabelled_moving f v,
      Value.relabelledItems_moving f rest]

private theorem Value.relabelledEntries_moving (f : Position → Position) :
    ∀ entries : List (MapKey × Value),
      Value.relabelledEntries (.moving f) entries = Value.movedEntries f entries
  | [] => rfl
  | (key, v) :: rest => by
    rw [Value.relabelledEntries, Value.movedEntries, Value.relabelled_moving f v,
      Value.relabelledEntries_moving f rest]

end

theorem Value.relabelled_moving_eq : Value.relabelled (.moving f) = Value.moved f :=
  funext (Value.relabelled_moving f)

-- ========================================================= machine

def Frame.moved (frame : Frame) : Frame :=
  { frame with bindings := Entries.mapValues (Value.moved f) frame.bindings }

def Heap.moved (heap : Heap) : Heap := heap.map (Frame.moved f)

def Machine.moved (m : Machine) : Machine := { m with heap := m.heap.moved f }

/-- A moved machine is the relabelled one: its frames hold moved values, and its numbers
are as before. -/
theorem Machine.relabelled_moving (m : Machine) : m.relabelled (.moving f) = m.moved f := by
  have hframe : Frame.relabelled (.moving f) = Frame.moved f := by
    funext frame
    rw [Frame.relabelled, Frame.moved, Value.relabelled_moving_eq]
  rw [Machine.relabelled, Machine.moved, Heap.relabelled, Heap.moved, hframe]
  rfl

end Scriptlet
