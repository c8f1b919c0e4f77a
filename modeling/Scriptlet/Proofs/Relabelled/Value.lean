/-
Values, frames and machines with their functions relabelled. A function has an identity,
which is all that it is compared by, and its code has positions, which only faults report.
No operation on values looks at either in any other way, so every operation gives the
relabelled result on relabelled operands.

# Fixed functions

A value is left as it is if and only if every function inside it is
(`Value.relabelled_eq_self_iff`). So identities that have been given out can be kept while
those to come are moved, and conversely what every relabelling of numbers from some one on
leaves alone has only functions below it.
-/
import Scriptlet.Machine
import Scriptlet.Operator
import Scriptlet.Proofs.Heap.Nearest
import Scriptlet.Proofs.Moved.Tree
import Scriptlet.Proofs.Value.Equality

namespace Scriptlet

/-- Other positions in code and other identities of functions, and how far the identities of
functions that are still to be made are moved. -/
structure Relabelling where
  pos : Position → Position
  id : Nat → Nat
  gap : Nat
  injective : Function.Injective id

-- ========================================================= entries

/-- Entries with their values changed. -/
def Entries.mapValues {κ α β : Type} (g : α → β) (entries : Entries κ α) : Entries κ β :=
  entries.map fun entry => (entry.1, g entry.2)

section Entries

variable {κ α β : Type} [DecidableEq κ] (g : α → β)

/-- Changing the values of entries leaves their keys alone, so it commutes with looking up
and putting. -/
theorem Entries.get?_mapValues (key : κ) (entries : Entries κ α) :
    (entries.mapValues g).get? key = (entries.get? key).map g := by
  induction entries with
  | nil => rfl
  | cons entry rest ih =>
    obtain ⟨k, v⟩ := entry
    show Entries.get? key ((k, g v) :: Entries.mapValues g rest) = _
    rw [Entries.get?, Entries.get?]
    split
    · rfl
    · exact ih

/-- Putting a value in under a key and relabelling can be done in either order. -/
theorem Entries.put_mapValues (key : κ) (value : α) (entries : Entries κ α) :
    (entries.mapValues g).put key (g value) = (entries.put key value).mapValues g := by
  induction entries with
  | nil => rfl
  | cons entry rest ih =>
    obtain ⟨k, v⟩ := entry
    show Entries.put key (g value) ((k, g v) :: Entries.mapValues g rest) = _
    rw [Entries.put, Entries.put]
    split
    · rfl
    · rw [ih]
      rfl

omit [DecidableEq κ] in
/-- The keys are not touched, so whatever is decided by keys alone, such as whether an
entry is new, is decided alike. -/
theorem Entries.keys_mapValues (entries : Entries κ α) :
    (entries.mapValues g).keys = entries.keys := by
  simp [Entries.keys, Entries.mapValues]

end Entries

variable (R : Relabelling)

-- ========================================================== values

/-- The function with another identity and with other positions in its code. -/
def Closure.relabelled (R : Relabelling) (c : Closure) : Closure :=
  { c with id := R.id c.id, code := c.code.moved R.pos }

mutual

/-- The value with its functions relabelled. -/
def Value.relabelled (R : Relabelling) : Value → Value
  | .list items => .list (Value.relabelledItems R items)
  | .map entries => .map (Value.relabelledEntries R entries)
  | .function c => .function (c.relabelled R)
  | .nil => .nil
  | .bool b => .bool b
  | .number n => .number n
  | .string s => .string s
  | .native n => .native n

def Value.relabelledItems (R : Relabelling) : List Value → List Value
  | [] => []
  | v :: rest => v.relabelled R :: Value.relabelledItems R rest

def Value.relabelledEntries (R : Relabelling) : List (MapKey × Value) → List (MapKey × Value)
  | [] => []
  | (key, v) :: rest => (key, v.relabelled R) :: Value.relabelledEntries R rest

end

/-- The mutual definition goes through items by itself; these two say that it maps over
them. -/
@[simp] theorem Value.relabelledItems_eq_map (items : List Value) :
    Value.relabelledItems R items = items.map (Value.relabelled R) := by
  induction items with
  | nil => rfl
  | cons v rest ih => rw [Value.relabelledItems, ih, List.map_cons]

@[simp] theorem Value.relabelledEntries_eq_mapValues (entries : List (MapKey × Value)) :
    Value.relabelledEntries R entries = Entries.mapValues (Value.relabelled R) entries := by
  induction entries with
  | nil => rfl
  | cons entry rest ih =>
    obtain ⟨key, v⟩ := entry
    rw [Value.relabelledEntries, ih]
    rfl

-- ========================================== operations on values

/-- What a value shows to the operations other than equality is the same after
relabelling: its type, its text and what it is as a key. -/
@[simp] theorem Value.relabelled_type (v : Value) : (v.relabelled R).type = v.type := by
  cases v <;> rfl

/-- A literal has no function in it, so a relabelling finds nothing to change. -/
@[simp] theorem Literal.value_relabelled (l : Literal) : l.value.relabelled R = l.value := by
  cases l <;> rfl

@[simp] theorem MapKey.value_relabelled (key : MapKey) : key.value.relabelled R = key.value := by
  cases key <;> rfl

/-- Whether a value can be a key, and which key it is, does not depend on the numbers and
places of functions: a function is never one. -/
@[simp] theorem MapKey.ofValue_relabelled (v : Value) :
    MapKey.ofValue (v.relabelled R) = MapKey.ofValue v := by
  cases v <;> rfl

@[simp] theorem Value.ofChar_relabelled (c : Char) :
    (Value.ofChar c).relabelled R = Value.ofChar c := rfl

mutual

/-- Equality asks functions for their identities, and those are relabelled one to one. -/
theorem Value.eq_relabelled (R : Relabelling) :
    ∀ a b : Value, (a.relabelled R).eq (b.relabelled R) = a.eq b
  | .nil, b => by cases b <;> rfl
  | .bool x, b => by cases b <;> rfl
  | .number x, b => by cases b <;> rfl
  | .string x, b => by cases b <;> rfl
  | .native x, b => by cases b <;> rfl
  | .function x, b => by
    cases b with
    | function y =>
      rw [Bool.eq_iff_iff]
      exact beq_iff_eq.trans (R.injective.eq_iff.trans beq_iff_eq.symm)
    | _ => rfl
  | .list items, b => by
    cases b with
    | list others => exact Value.eqItems_relabelled R items others
    | _ => rfl
  | .map entries, b => by
    cases b with
    | map others =>
      show (_ && _) = (_ && _)
      rw [Value.eqEntries_relabelled R entries others]
      simp [Entries.mapValues]
    | _ => rfl

private theorem Value.eqItems_relabelled (R : Relabelling) :
    ∀ as bs : List Value,
      Value.eqItems (Value.relabelledItems R as) (Value.relabelledItems R bs) = Value.eqItems as bs
  | [], [] => rfl
  | [], _ :: _ => rfl
  | _ :: _, [] => rfl
  | a :: as, b :: bs => by
    rw [Value.relabelledItems, Value.relabelledItems, Value.eqItems, Value.eqItems,
      Value.eq_relabelled R a b, Value.eqItems_relabelled R as bs]

private theorem Value.eqEntries_relabelled (R : Relabelling) :
    ∀ as bs : List (MapKey × Value),
      Value.eqEntries (Value.relabelledEntries R as) (Value.relabelledEntries R bs)
        = Value.eqEntries as bs
  | [], _ => rfl
  | (key, a) :: as, bs => by
    rw [Value.relabelledEntries, Value.eqEntries, Value.eqEntries,
      Value.eqEntries_relabelled R as bs, Value.relabelledEntries_eq_mapValues,
      Entries.get?_mapValues]
    cases Entries.get? key bs with
    | none => rfl
    | some b =>
      show ((a.relabelled R).eq (b.relabelled R) && _) = (a.eq b && _)
      rw [Value.eq_relabelled R a b]

end

mutual

/-- A function is shown by its name. -/
private theorem Value.quoted_relabelled (R : Relabelling) : ∀ v : Value,
    (v.relabelled R).quoted = v.quoted
  | .nil | .bool _ | .number _ | .string _ | .native _ => rfl
  | .function c => by
    rw [Value.relabelled, Value.quoted, Value.quoted, Closure.relabelled, Code.moved_title]
  | .list items => by
    rw [Value.relabelled, Value.quoted, Value.quoted, Value.quotedItems_relabelled R items]
  | .map entries => by
    rw [Value.relabelled, Value.quoted, Value.quoted, Value.quotedEntries_relabelled R entries]

private theorem Value.quotedItems_relabelled (R : Relabelling) :
    ∀ items : List Value,
      Value.quotedItems (Value.relabelledItems R items) = Value.quotedItems items
  | [] => rfl
  | v :: rest => by
    rw [Value.relabelledItems, Value.quotedItems, Value.quotedItems, Value.quoted_relabelled R v,
      Value.quotedItems_relabelled R rest]

private theorem Value.quotedEntries_relabelled (R : Relabelling) :
    ∀ entries : List (MapKey × Value),
      Value.quotedEntries (Value.relabelledEntries R entries) = Value.quotedEntries entries
  | [] => rfl
  | (key, v) :: rest => by
    rw [Value.relabelledEntries, Value.quotedEntries, Value.quotedEntries,
      Value.quoted_relabelled R v, Value.quotedEntries_relabelled R rest]

end

@[simp] theorem Value.display_relabelled (v : Value) : (v.relabelled R).display = v.display := by
  cases v with
  | string s => rfl
  | _ => exact Value.quoted_relabelled R _

@[simp] theorem Sequence.position_relabelled (what : Sequence) (key : Value) (length : Nat) :
    what.position (key.relabelled R) length = what.position key length := by
  cases key <;> rfl

/-- Indexing relabelled collections by relabelled keys gives the relabelled item or the
same cause. -/
theorem Value.item_relabelled (collection key : Value) :
    (collection.relabelled R).item (key.relabelled R)
      = (collection.item key).map (Value.relabelled R) := by
  cases collection with
  | list items =>
    simp only [Value.relabelled, Value.relabelledItems_eq_map, Value.item,
      Sequence.position_relabelled, List.length_map]
    cases Sequence.position .list key items.length with
    | error cause => rfl
    | ok i =>
      refine congrArg Except.ok ?_
      show (items.map (Value.relabelled R)).getD i (Value.relabelled R .nil) = _
      rw [List.getD_eq_getElem?_getD, List.getD_eq_getElem?_getD, List.getElem?_map]
      cases items[i]? <;> rfl
  | string s =>
    simp only [Value.relabelled, Value.item, Sequence.position_relabelled]
    cases Sequence.position .string key s.toList.length with
    | error cause => rfl
    | ok i =>
      refine congrArg Except.ok ?_
      cases s.toList[i]? <;> rfl
  | map entries =>
    simp only [Value.relabelled, Value.relabelledEntries_eq_mapValues, Value.item,
      MapKey.ofValue_relabelled]
    cases MapKey.ofValue key with
    | error cause => rfl
    | ok k =>
      dsimp only [bind, Except.bind]
      rw [Entries.get?_mapValues]
      cases Entries.get? k entries <;> rfl
  | _ => rfl

/-- What is stored is relabelled with the collection it is stored in; the key only picks
the slot. -/
private theorem Value.withItem_relabelled (collection key value : Value) :
    (collection.relabelled R).withItem (key.relabelled R) (value.relabelled R)
      = (collection.withItem key value).map (Value.relabelled R) := by
  cases collection with
  | list items =>
    simp only [Value.relabelled, Value.relabelledItems_eq_map, Value.withItem,
      Sequence.position_relabelled, List.length_map]
    cases Sequence.position .list key items.length with
    | error cause => rfl
    | ok i =>
      refine congrArg Except.ok ?_
      rw [Value.relabelled, Value.relabelledItems_eq_map, List.map_set]
  | map entries =>
    simp only [Value.relabelled, Value.relabelledEntries_eq_mapValues, Value.withItem,
      MapKey.ofValue_relabelled]
    cases MapKey.ofValue key with
    | error cause => rfl
    | ok k =>
      refine congrArg Except.ok ?_
      rw [Entries.put_mapValues, Value.relabelled, Value.relabelledEntries_eq_mapValues]
  | _ => rfl

/-- A loop over a relabelled value makes the same rounds. -/
theorem Value.items_relabelled (v : Value) :
    (v.relabelled R).items = v.items.map (List.map (Value.relabelled R)) := by
  cases v with
  | list items => simp [Value.relabelled, Value.items, Except.map]
  | map entries =>
    simp [Value.relabelled, Value.items, Except.map, Entries.keys_mapValues]
  | string s => simp [Value.relabelled, Value.items, Except.map]
  | _ => rfl

@[simp] theorem Value.truth_relabelled (demand : Demand) (v : Value) :
    (v.relabelled R).truth demand = v.truth demand := by
  cases v <;> rfl

/-- No operator looks at a function except to compare it. -/
theorem UnaryOp.apply_relabelled (op : UnaryOp) (v : Value) :
    op.apply (v.relabelled R) = (op.apply v).map (Value.relabelled R) := by
  cases op with
  | negate => cases v <;> rfl
  | not =>
    simp only [UnaryOp.apply, Value.truth_relabelled]
    cases v.truth .negation <;> rfl

private theorem BinaryOp.arithmetic_relabelled (op : BinaryOp)
    (g : Float → Float → Except Cause Float)
    (left right : Value) :
    op.arithmetic g (left.relabelled R) (right.relabelled R)
      = (op.arithmetic g left right).map (Value.relabelled R) := by
  cases left <;> cases right <;> first | rfl | skip
  rename_i a b
  simp only [Value.relabelled, BinaryOp.arithmetic]
  cases g a b <;> rfl

private theorem BinaryOp.order_relabelled (op : BinaryOp) (numbers : Float → Float → Bool)
    (strings : String → String → Bool) (left right : Value) :
    op.order numbers strings (left.relabelled R) (right.relabelled R)
      = (op.order numbers strings left right).map (Value.relabelled R) := by
  cases left <;> cases right <;> rfl

/-- The operators follow a relabelling, the comparisons included, as equality of functions
is that of their numbers and a relabelling keeps different numbers apart. -/
theorem BinaryOp.apply_relabelled (op : BinaryOp) (left right : Value) :
    op.apply (left.relabelled R) (right.relabelled R)
      = (op.apply left right).map (Value.relabelled R) := by
  cases op with
  | add =>
    cases left <;> cases right <;> rfl
  | sub | mul | div | mod | pow => exact BinaryOp.arithmetic_relabelled R _ _ left right
  | equal | notEqual =>
    simp only [BinaryOp.apply, Value.eq_relabelled]
    rfl
  | less | lessEqual | greater | greaterEqual => exact BinaryOp.order_relabelled R _ _ _ left right

-- ================================================ fixed functions

/-- What a relabelling leaves alone has only functions that it leaves alone. -/
theorem Value.relabelled_eq_self_iff (v : Value) :
    v.relabelled R = v ↔ v.Every fun f => f.relabelled R = f := by
  induction v using Value.induct with
  | list items ih =>
    rw [Value.relabelled, Value.relabelledItems_eq_map, Value.list.injEq, map_eq_self_iff,
      Value.every_list]
    exact forall₂_congr ih
  | map entries ih =>
    rw [Value.relabelled, Value.relabelledEntries_eq_mapValues, Value.map.injEq, Entries.mapValues,
      map_eq_self_iff, Value.every_map]
    refine forall₂_congr fun entry hentry => Iff.trans ?_ (ih entry hentry)
    exact Prod.ext_iff.trans (and_iff_right rfl)
  | function f => rw [Value.relabelled, Value.function.injEq, Value.every_function]
  | _ => exact iff_of_true rfl nofun

-- =========================================================== paths

/-- The fault at another position. -/
def Fault.moved (f : Position → Position) (fault : Fault) : Fault :=
  { fault with pos := f fault.pos }

/-- A result or the fault that stopped it, moved. -/
def Fault.movedResult {α β : Type} (f : Position → Position) (g : α → β) :
    Except Fault α → Except Fault β
  | .ok a => .ok (g a)
  | .error fault => .error (fault.moved f)

/-- Placing a cause at a moved position is moving the fault. -/
theorem Fault.at_moved (f : Position → Position) {α β : Type} (g : α → β) (pos : Position)
    (result : Except Cause α) :
    Fault.at (f pos) (result.map g) = Fault.movedResult f g (Fault.at pos result) := by
  cases result <;> rfl

/-- Steps in turn are moved if each is. -/
theorem Fault.movedResult_bind {α β γ δ : Type} {f : Position → Position} {g : α → β} {g' : γ → δ}
    {x : Except Fault α} {y : Except Fault β} {k : α → Except Fault γ} {k' : β → Except Fault δ}
    (hx : y = Fault.movedResult f g x) (hk : ∀ a, k' (g a) = Fault.movedResult f g' (k a)) :
    (y >>= k') = Fault.movedResult f g' (x >>= k) := by
  subst hx
  cases x with
  | error fault => rfl
  | ok a => exact hk a

/-- The path with the functions in its keys relabelled, and its steps moved. -/
def Path.relabelled (path : Path) : Path :=
  path.map fun step => (step.1.relabelled R, R.pos step.2)

/-- Reading and writing along a path of relabelled keys. The positions of the path are
moved with it, so that the fault of a step is moved as well. -/
theorem Value.load_relabelled (root : Value) (path : Path) :
    (root.relabelled R).load (path.relabelled R)
      = Fault.movedResult R.pos (Value.relabelled R) (root.load path) := by
  induction path generalizing root with
  | nil => rfl
  | cons step path ih =>
    obtain ⟨key, pos⟩ := step
    refine Fault.movedResult_bind (g := Value.relabelled R) ?_ ih
    rw [Value.item_relabelled, Fault.at_moved]

/-- Storing at a path follows a relabelling, errors included: a fault names the place of
its step, which the relabelling has moved. -/
theorem Value.store_relabelled (root : Value) (path : Path) (value : Value) :
    (root.relabelled R).store (path.relabelled R) (value.relabelled R)
      = Fault.movedResult R.pos (Value.relabelled R) (root.store path value) := by
  induction path generalizing root with
  | nil => rfl
  | cons step path ih =>
    obtain ⟨key, pos⟩ := step
    have hitem : Fault.at (R.pos pos) ((root.relabelled R).item (key.relabelled R))
        = Fault.movedResult R.pos (Value.relabelled R) (Fault.at pos (root.item key)) := by
      rw [Value.item_relabelled, Fault.at_moved]
    have hput (inner : Value) :
        Fault.at (R.pos pos) ((root.relabelled R).withItem (key.relabelled R) (inner.relabelled R))
          = Fault.movedResult R.pos (Value.relabelled R)
            (Fault.at pos (root.withItem key inner)) := by
      rw [Value.withItem_relabelled, Fault.at_moved]
    cases path with
    | nil => exact hput value
    | cons next path =>
      refine Fault.movedResult_bind hitem fun inner => ?_
      exact Fault.movedResult_bind (ih inner) hput

/-- Which functions are in a key is not looked at. -/
theorem Value.item_key_relabelled (collection key : Value) :
    collection.item (key.relabelled R) = collection.item key := by
  cases collection <;>
    simp only [Value.item, Sequence.position_relabelled, MapKey.ofValue_relabelled]

private theorem Value.withItem_key_relabelled (collection key value : Value) :
    collection.withItem (key.relabelled R) value = collection.withItem key value := by
  cases collection <;>
    simp only [Value.withItem, Sequence.position_relabelled, MapKey.ofValue_relabelled]

/-- With the positions kept, keys may be relabelled by themselves: a function is never
found as a key. -/
theorem Value.load_keys_relabelled (hpos : R.pos = id) (root : Value) (path : Path) :
    root.load (path.relabelled R) = root.load path := by
  induction path generalizing root with
  | nil => rfl
  | cons step path ih =>
    obtain ⟨key, pos⟩ := step
    show (do
      let inner ← Fault.at (R.pos pos) (root.item (key.relabelled R))
      inner.load (Path.relabelled R path)) = _
    simp only [ih, hpos, Value.item_key_relabelled]
    rfl

/-- Where no place is moved, the keys on the path may be relabelled by themselves: no item
is found under a function. -/
theorem Value.store_keys_relabelled (hpos : R.pos = id) (root : Value) (path : Path)
    (value : Value) : root.store (path.relabelled R) value = root.store path value := by
  induction path generalizing root with
  | nil => rfl
  | cons step path ih =>
    obtain ⟨key, pos⟩ := step
    cases path with
    | nil =>
      show Fault.at (R.pos pos) (root.withItem (key.relabelled R) value) = _
      rw [hpos, Value.withItem_key_relabelled]
      rfl
    | cons next path =>
      show (do
        let inner ← Fault.at (R.pos pos) (root.item (key.relabelled R))
        let inner ← inner.store (Path.relabelled R (next :: path)) value
        Fault.at (R.pos pos) (root.withItem (key.relabelled R) inner)) = _
      simp only [ih, hpos, Value.item_key_relabelled, Value.withItem_key_relabelled]
      rfl

-- ========================================================= machine

def Frame.relabelled (frame : Frame) : Frame :=
  { frame with bindings := Entries.mapValues (Value.relabelled R) frame.bindings }

def Heap.relabelled (heap : Heap) : Heap := heap.map (Frame.relabelled R)

/-- The machine with its functions relabelled, and those still to be made ahead by the gap. -/
def Machine.relabelled (m : Machine) : Machine :=
  { m with heap := m.heap.relabelled R, fresh := m.fresh + R.gap }

/-- Relabelling changes what frames hold and leaves their number and their parents. -/
@[simp] theorem Heap.relabelled_size (heap : Heap) : (heap.relabelled R).size = heap.size :=
  Array.size_map

@[simp] theorem Heap.relabelled_getElem? (heap : Heap) (i : Nat) :
    (heap.relabelled R)[i]? = heap[i]?.map (Frame.relabelled R) :=
  Array.getElem?_map

private theorem Heap.parent_relabelled (heap : Heap) (i : Nat) :
    (heap.relabelled R).parent i = heap.parent i := by
  unfold Heap.parent
  rw [Heap.relabelled_getElem?]
  cases heap[i]? <;> rfl

/-- A look-up in one frame, found by name alone. -/
private theorem Heap.binding?_relabelled (heap : Heap) (i : Nat) (name : String) :
    (heap.relabelled R).binding? i name = (heap.binding? i name).map (Value.relabelled R) := by
  unfold Heap.binding?
  rw [Heap.relabelled_getElem?]
  cases heap[i]? with
  | none => rfl
  | some f => exact Entries.get?_mapValues _ name f.bindings

/-- Hence a name is found in the same frame as before, with its value relabelled. -/
theorem Heap.find?_relabelled (heap : Heap) (frame : Nat) (name : String) :
    (heap.relabelled R).find? frame name
      = (heap.find? frame name).map fun found => (found.1, found.2.relabelled R) :=
  Heap.find?_map (Value.relabelled R) (Heap.binding?_relabelled R heap · name)
    (Heap.parent_relabelled R heap) frame

/-- Looking a name up walks through the same frames before and after a relabelling. -/
theorem Heap.get_relabelled (heap : Heap) (frame : Nat) (name : String) :
    (heap.relabelled R).get frame name = (heap.get frame name).map (Value.relabelled R) := by
  unfold Heap.get
  rw [Heap.find?_relabelled]
  cases heap.find? frame name <;> rfl

theorem Heap.define_relabelled (heap : Heap) (frame : Nat) (name : String) (value : Value) :
    (heap.relabelled R).define frame name (value.relabelled R)
      = (heap.define frame name value).relabelled R := by
  apply Array.ext_getElem?
  intro i
  simp only [Heap.define, Heap.relabelled_getElem?, Array.getElem?_modify]
  split
  · cases heap[i]? with
    | none => rfl
    | some fr => simp [Frame.relabelled, Entries.put_mapValues]
  · rfl

/-- A new frame gets the same number in the relabelled heap, which has as many frames. -/
theorem Heap.alloc_relabelled (heap : Heap) (parent : Option Nat)
    (bindings : Entries String Value) :
    (heap.relabelled R).alloc parent (bindings.mapValues (Value.relabelled R))
      = (heap.alloc parent bindings).relabelled R := by
  simp [Heap.alloc, Heap.relabelled, Frame.relabelled]

end Scriptlet
