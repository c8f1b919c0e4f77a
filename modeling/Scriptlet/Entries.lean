/-
Entries: keys with values, in the order in which the keys first came. Scopes
bind names this way, and maps hold their items this way. Putting a value under
a key that is there already changes the value and leaves the order alone.
-/
namespace Scriptlet

/-- Keys with their values, oldest first. -/
abbrev Entries (κ α : Type) := List (κ × α)

namespace Entries

variable {κ α : Type} [DecidableEq κ]

/-- The value under a key. -/
def get? (key : κ) : Entries κ α → Option α
  | [] => none
  | (k, v) :: rest => if k = key then some v else get? key rest

/-- Puts a value under a key, in place if the key is there, at the end if not. -/
def put (key : κ) (value : α) : Entries κ α → Entries κ α
  | [] => [(key, value)]
  | (k, v) :: rest => if k = key then (k, value) :: rest else (k, v) :: put key value rest

/-- The keys in order. -/
def keys (entries : Entries κ α) : List κ := entries.map (·.1)

/-- The values in order. -/
def values (entries : Entries κ α) : List α := entries.map (·.2)

/-- Whether a key is there. -/
def has (key : κ) (entries : Entries κ α) : Bool := (entries.get? key).isSome

-- ============================================================ laws

/-- What was put is what is found, and nothing else changes. -/
theorem get?_put (key other : κ) (value : α) (entries : Entries κ α) :
    (entries.put key value).get? other = if other = key then some value else entries.get? other := by
  induction entries with
  | nil =>
    by_cases h : other = key
    · simp [put, get?, h]
    · simp [put, get?, h, Ne.symm h]
  | cons entry rest ih =>
    obtain ⟨k, v⟩ := entry
    by_cases hk : k = key
    · by_cases ho : other = key
      · simp [put, get?, hk, ho]
      · simp [put, get?, hk, ho, Ne.symm ho]
    · by_cases ho : k = other
      · subst ho; simp [put, get?, hk]
      · simp [put, get?, hk, ho, ih]

/-- The key that was put comes last if it is new; otherwise the keys stay as
they were. -/
theorem keys_put (key : κ) (value : α) (entries : Entries κ α) :
    (entries.put key value).keys =
      if entries.has key then entries.keys else entries.keys ++ [key] := by
  induction entries with
  | nil => simp [put, keys, has, get?]
  | cons entry rest ih =>
    obtain ⟨k, v⟩ := entry
    by_cases hk : k = key
    · simp [put, keys, has, get?, hk]
    · simp only [keys, has] at ih
      simp only [put, keys, has, get?, hk, if_false, List.map_cons, ih]
      split <;> simp_all

/-- A new key comes last. -/
theorem put_of_not_mem {key : κ} (value : α) {entries : Entries κ α} (h : key ∉ entries.keys) :
    entries.put key value = entries ++ [(key, value)] := by
  induction entries with
  | nil => rfl
  | cons entry rest ih =>
    obtain ⟨k, v⟩ := entry
    have hk : key ≠ k := List.ne_of_not_mem_cons h
    have hrest : key ∉ Entries.keys rest := List.not_mem_of_not_mem_cons h
    rw [put, if_neg hk.symm, ih hrest]
    rfl

end Entries

end Scriptlet
