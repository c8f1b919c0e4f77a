/-
Items of collections. A list or a string is indexed by a whole number from
zero, a map by a key. Reading and replacing an item, and the items a loop
visits, are defined here for every value; what cannot be done gives a cause.
-/
import Scriptlet.Fault

namespace Scriptlet

-- ============================================================ keys

/-- The bits that stand for a number in a key: its own, except that zero has the
same whatever its sign. -/
def MapKey.bits (n : Float) : UInt64 := if n == Number.zero then 0 else n.toBits

/-- The key that a value stands for in a map. -/
def MapKey.ofValue : Value → Except Cause MapKey
  | .string s => .ok (.string s)
  | .number n => if n.isNaN then .error .nanKey else .ok (.number (MapKey.bits n))
  | .bool b => .ok (.bool b)
  | .nil => .ok .nil
  | v => .error (.notKey v.type)

-- ======================================================= positions

/-- The position that a value stands for in a sequence of the given length. -/
def Sequence.position (what : Sequence) (key : Value) (length : Nat) : Except Cause Nat :=
  match key with
  | .number n =>
      match Number.toInt? n with
      | none => .error (.indexNotInteger what n)
      | some i =>
          if 0 ≤ i && i < length then .ok i.toNat else .error (.indexOutOfRange what n length)
  | v => .error (.indexNotNumber what v.type)

/-- A single character as a string. -/
def Value.ofChar (c : Char) : Value := .string (String.ofList [c])

-- =========================================================== items

namespace Value

/-- The item of a collection under a key. -/
def item (collection key : Value) : Except Cause Value :=
  match collection with
  | .list items => do
      let i ← Sequence.position .list key items.length
      return items.getD i .nil
  | .string s => do
      let chars := s.toList
      let i ← Sequence.position .string key chars.length
      return ((chars[i]?).map ofChar).getD .nil
  | .map entries => do
      let k ← MapKey.ofValue key
      match Entries.get? k entries with
      | some v => return v
      | none => throw (.keyNotFound k)
  | v => .error (.notIndexable v.type)

/-- The collection with another item under a key. A list keeps its length; a map
may gain a key. -/
def withItem (collection key value : Value) : Except Cause Value :=
  match collection with
  | .list items => do
      let i ← Sequence.position .list key items.length
      return .list (items.set i value)
  | .map entries => do
      let k ← MapKey.ofValue key
      return .map (Entries.put k value entries)
  | v => .error (.notAssignable v.type)

/-- What a loop over a value visits: the items of a list, the keys of a map, the
characters of a string. -/
def items (v : Value) : Except Cause (List Value) :=
  match v with
  | .list items => .ok items
  | .map entries => .ok ((Entries.keys entries).map MapKey.value)
  | .string s => .ok (s.toList.map ofChar)
  | v => .error (.notIterable v.type)

/-- The truth value that is demanded of a value. -/
def truth (demand : Demand) : Value → Except Cause Bool
  | .bool b => .ok b
  | v => .error (.notBool demand v.type)

end Value

end Scriptlet
