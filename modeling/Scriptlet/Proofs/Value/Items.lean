/-
Length, items and indexing. What a loop visits, what `len` counts and what an index reads
are three walks over the same collection, and they agree. A list or a string holds its items
by position: a key reads an item if it is equal to a number below the length
(`Value.item_sequence_iff`). A map holds its items by key, and every key that a loop visits
reads the value that stands with it (`Value.Keyed.walks`).

# From numbers to positions

A position is counted, and a number is not; a loop may visit more items than there are
whole numbers to read them by. Up to two to the fifty-third every length is a number, and
the numbers that mean a position are those equal to it (`Number.toInt?_eq_some_iff`).
-/
import Scriptlet.Proofs.Value.Keys

namespace Scriptlet

-- ====================================================== positions

/-- Only numbers mean positions: those of whole amounts that are in range. -/
theorem Sequence.position_eq_ok_iff {what : Sequence} {key : Value} {length i : Nat} :
    what.position key length = .ok i
      ↔ ∃ x, key = .number x ∧ Number.toInt? x = some (i : Int) ∧ i < length := by
  constructor
  · intro h
    have hlt := Sequence.position_lt h
    cases key with
    | number x =>
      refine ⟨x, rfl, ?_, hlt⟩
      simp only [position] at h
      cases hx : Number.toInt? x with
      | none =>
        rw [hx] at h
        cases h
      | some j =>
        simp only [hx] at h
        split at h
        · rename_i hrange
          cases h
          simp only [Bool.and_eq_true, decide_eq_true_eq] at hrange
          rw [Int.toNat_of_nonneg hrange.1]
        · cases h
    | _ => cases h
  · rintro ⟨x, rfl, hx, hlt⟩
    simp [position, hx, hlt]

namespace Value

variable {c key v : Value} {visited : List Value}

-- ===================================================== sequences

/-- What stands in a list or in a string, in order. -/
def sequence? : Value → Option (List Value)
  | .list items => some items
  | .string s => some (s.toList.map ofChar)
  | _ => none

/-- Lists and strings are the values that are visited by position. -/
theorem sequence?_of_type (h : c.type = .list ∨ c.type = .string) :
    ∃ visited, c.sequence? = some visited := by
  cases c with
  | list items => exact ⟨items, rfl⟩
  | string s => exact ⟨_, rfl⟩
  | _ => rcases h with h | h <;> cases h

/-- A loop visits the items in order. -/
theorem items_sequence (h : c.sequence? = some visited) : c.items = .ok visited := by
  cases c <;> cases h <;> rfl

/-- Their number is the length. -/
theorem len_sequence (h : c.sequence? = some visited) :
    Prelude.len c = .ok (.number (Float.ofNat visited.length)) := by
  cases c <;> cases h
  · rw [List.length_map, String.length_toList]
    rfl
  · rfl

/-- An index reads what stands at the position that its key means. -/
theorem item_sequence (h : c.sequence? = some visited) (key : Value) :
    ∃ what : Sequence, c.item key
      = (what.position key visited.length).bind fun i => .ok (visited[i]?.getD .nil) := by
  cases c with
  | list items =>
    cases h
    exact ⟨.list, rfl⟩
  | string s =>
    cases h
    refine ⟨.string, ?_⟩
    simp only [List.length_map, List.getElem?_map]
    rfl
  | _ => cases h

/-- A key reads an item if it is the number of its position. -/
theorem item_sequence_iff (h : c.sequence? = some visited) :
    c.item key = .ok v
      ↔ ∃ x, ∃ i : Nat, key = .number x ∧ Number.toInt? x = some (i : Int)
        ∧ visited[i]? = some v := by
  obtain ⟨what, hitem⟩ := item_sequence h key
  rw [hitem]
  constructor
  · intro hok
    cases hposition : what.position key visited.length with
    | error cause =>
      rw [hposition] at hok
      cases hok
    | ok i =>
      obtain ⟨x, rfl, hx, hlt⟩ := Sequence.position_eq_ok_iff.1 hposition
      rw [hposition] at hok
      cases hok
      refine ⟨x, i, rfl, hx, ?_⟩
      rw [List.getElem?_eq_getElem hlt, Option.getD_some]
  · rintro ⟨x, i, rfl, hx, hv⟩
    have hlt : i < visited.length := (List.getElem?_eq_some_iff.1 hv).1
    rw [Sequence.position_eq_ok_iff.2 ⟨x, rfl, hx, hlt⟩, Except.bind, hv, Option.getD_some]

/-- Up to two to the fifty-third, the keys that read an item are the numbers equal to one
below the length. -/
theorem item_sequence_ok_iff (h : c.sequence? = some visited) (hn : visited.length ≤ 2 ^ 53)
    (key : Value) : (∃ v, c.item key = .ok v)
      ↔ ∃ i < visited.length, key.eq (.number (Float.ofNat i)) = true := by
  constructor
  · rintro ⟨v, hv⟩
    obtain ⟨x, i, rfl, hx, hi⟩ := (item_sequence_iff h).1 hv
    have hlt : i < visited.length := (List.getElem?_eq_some_iff.1 hi).1
    exact ⟨i, hlt, (Number.toInt?_eq_some_iff (Nat.le_trans (Nat.le_of_lt hlt) hn)).1 hx⟩
  · rintro ⟨i, hlt, heq⟩
    cases key with
    | number x =>
      have hx := (Number.toInt?_eq_some_iff (Nat.le_trans (Nat.le_of_lt hlt) hn)).2 heq
      exact ⟨visited[i], (item_sequence_iff h).2 ⟨x, i, rfl, hx, List.getElem?_eq_getElem hlt⟩⟩
    | _ => cases heq

/-- What a loop visits is read by the numbers from zero on. -/
theorem item_sequence_position (h : c.sequence? = some visited) (hn : visited.length ≤ 2 ^ 53)
    {i : Nat} (hlt : i < visited.length) :
    c.item (.number (Float.ofNat i)) = .ok visited[i] :=
  (item_sequence_iff h).2 ⟨_, i, rfl,
    Number.toInt?_ofNat (Nat.le_trans (Nat.le_of_lt hlt) hn), List.getElem?_eq_getElem hlt⟩

/-- An index into a string reads one of its characters, and never anything else. -/
theorem item_string {s : String} (h : (Value.string s).item key = .ok v) :
    ∃ c ∈ s.toList, v = ofChar c := by
  have hchars : (Value.string s).sequence? = some (s.toList.map ofChar) := rfl
  obtain ⟨-, i, -, -, hi⟩ := (item_sequence_iff hchars).1 h
  obtain ⟨c, hc, rfl⟩ := List.mem_map.1 (List.mem_of_getElem? hi)
  exact ⟨c, hc, rfl⟩

-- ========================================================== maps

/-- A loop over a map visits its keys, and each of them reads the value that stands with
it. -/
theorem Keyed.walks {entries : List (MapKey × Value)} (h : (Value.map entries).Keyed) :
    List.Forall₂ (fun key v => (Value.map entries).item key = .ok v)
      ((Entries.keys entries).map MapKey.value) (Entries.values entries) := by
  obtain ⟨hnodup, hmade, -⟩ := keyed_map.1 h
  rw [Entries.keys, Entries.values, List.map_map, List.forall₂_map_left_iff,
    List.forall₂_map_right_iff, List.forall₂_same]
  intro entry hentry
  have hkey := MapKey.ofValue_value (hmade _ (Entries.mem_keys hentry))
  exact item_map_eq_ok_iff.2 ⟨entry.1, hkey, Entries.get?_of_mem hnodup hentry⟩

end Value

end Scriptlet
