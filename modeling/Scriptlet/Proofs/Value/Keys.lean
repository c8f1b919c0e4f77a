/-
Keys of maps and equality. A value is a key by its bits, and two values are one key if and
only if they are equal (`MapKey.eq_iff_eq`). So what a map holds is found under every value
that is equal to its key, whichever way one looks: by index, by asking the map, or by
searching the list of its keys (`Value.Keyed.found`).

# Keys that were made

Keys hold bits, and there are bits that no value is a key by: those of negative zero and
of not a number. A map with such a key would show a key that it cannot be indexed by. That
every key was made of a value (`MapKey.Made`) is therefore asked of maps at every depth,
together with that it comes once (`Value.Keyed`).
-/
import Scriptlet.Proofs.Eval.Names
import Scriptlet.Proofs.Number.Whole
import Scriptlet.Proofs.Value.Lens

namespace Scriptlet

-- ========================================================= numbers

namespace MapKey

private theorem bits_of_zero {x : Float} (h : (x == Number.zero) = true) : bits x = 0 := by
  rw [bits, if_pos h]

private theorem bits_of_ne_zero {x : Float} (h : ¬(x == Number.zero) = true) :
    bits x = x.toBits := by
  rw [bits, if_neg h]

/-- Zero is zero, as a number and by its bits. -/
theorem zero_beq_ofBits_zero : (Float.ofBits 0 == Number.zero) = true := by decide +kernel

/-- Numbers have the same bits as keys if they are equal. -/
theorem bits_eq_iff {x y : Float} (hx : x.isNaN = false) (hy : y.isNaN = false) :
    bits x = bits y ↔ (x == y) = true := by
  -- bits that are those of zero are of no other number
  have hnone {z : Float} (hz : ¬(z == Number.zero) = true) : z.toBits ≠ 0 := by
    intro hbits
    have := Float.ofBits_toBits z
    rw [hbits] at this
    exact hz (this ▸ zero_beq_ofBits_zero)
  by_cases hx0 : (x == Number.zero) = true
  · by_cases hy0 : (y == Number.zero) = true
    · rw [bits_of_zero hx0, bits_of_zero hy0]
      exact iff_of_true rfl (BEq.trans hx0 (BEq.symm hy0))
    · rw [bits_of_zero hx0, bits_of_ne_zero hy0]
      exact iff_of_false (hnone hy0).symm fun heq => hy0 (BEq.trans (BEq.symm heq) hx0)
  · by_cases hy0 : (y == Number.zero) = true
    · rw [bits_of_ne_zero hx0, bits_of_zero hy0]
      exact iff_of_false (hnone hx0) fun heq => hx0 (BEq.trans heq hy0)
    · rw [bits_of_ne_zero hx0, bits_of_ne_zero hy0, Float.toBits_inj]
      constructor
      · rintro rfl
        exact (Number.beq_self_iff x).2 hx
      · intro heq
        -- equal numbers that differ are zeros
        obtain ⟨-, -, rfl | ⟨rfl, -⟩ | ⟨rfl, -⟩⟩ := Float.beq_iff_ne_nan_and_eq.1 heq
        · rfl
        · exact absurd (by decide +kernel) hx0
        · exact absurd (by decide +kernel) hx0

/-- The number that has the bits of a key is that key again. -/
theorem bits_ofBits {x : Float} (hx : x.isNaN = false) :
    (Float.ofBits (bits x)).isNaN = false ∧ bits (Float.ofBits (bits x)) = bits x := by
  by_cases hx0 : (x == Number.zero) = true
  · rw [bits_of_zero hx0]
    exact ⟨by decide +kernel, bits_of_zero zero_beq_ofBits_zero⟩
  · rw [bits_of_ne_zero hx0, Float.ofBits_toBits]
    exact ⟨hx, bits_of_ne_zero hx0⟩

-- ============================================================ keys

/-- A key that some value is. -/
def Made (key : MapKey) : Prop := ∃ v, ofValue v = .ok key

variable {a b : Value} {ka kb key : MapKey}

private theorem ofValue_number {x : Float} (hx : x.isNaN = false) :
    ofValue (.number x) = .ok (.number (bits x)) := by
  rw [ofValue, if_neg (by rw [hx]; exact Bool.false_ne_true)]

/-- The values that are keys. -/
theorem ofValue_cases {v : Value} (h : ofValue v = .ok key) :
    (v = .nil ∧ key = .nil) ∨ (∃ p, v = .bool p ∧ key = .bool p)
      ∨ (∃ s, v = .string s ∧ key = .string s)
      ∨ ∃ x, v = .number x ∧ x.isNaN = false ∧ key = .number (bits x) := by
  cases v with
  | nil =>
    cases h
    exact .inl ⟨rfl, rfl⟩
  | bool p =>
    cases h
    exact .inr (.inl ⟨p, rfl, rfl⟩)
  | string s =>
    cases h
    exact .inr (.inr (.inl ⟨s, rfl, rfl⟩))
  | number x =>
    cases hx : x.isNaN with
    | true =>
      rw [ofValue, if_pos hx] at h
      cases h
    | false =>
      rw [ofValue_number hx] at h
      exact .inr (.inr (.inr ⟨x, rfl, hx, (Except.ok.inj h).symm⟩))
  | list items => cases h
  | map entries => cases h
  | function f => cases h
  | native f => cases h

/-- Values are the same key if and only if they are equal. -/
theorem eq_iff_eq (ha : ofValue a = .ok ka) (hb : ofValue b = .ok kb) :
    ka = kb ↔ a.eq b = true := by
  rcases ofValue_cases ha with ⟨rfl, rfl⟩ | ⟨p, rfl, rfl⟩ | ⟨s, rfl, rfl⟩ | ⟨x, rfl, hx, rfl⟩ <;>
    rcases ofValue_cases hb with ⟨rfl, rfl⟩ | ⟨p', rfl, rfl⟩ | ⟨s', rfl, rfl⟩ | ⟨y, rfl, hy, rfl⟩
  case inr.inr.inr.inr.inr.inr =>
    rw [number.injEq, bits_eq_iff hx hy, Value.eq]
  all_goals simp [Value.eq]

/-- A value that is equal to a key is that key. -/
theorem ofValue_of_eq (ha : ofValue a = .ok key) (h : b.eq a = true) : ofValue b = .ok key := by
  rcases ofValue_cases ha with ⟨rfl, rfl⟩ | ⟨p, rfl, rfl⟩ | ⟨s, rfl, rfl⟩ | ⟨x, rfl, hx, rfl⟩ <;>
    cases b <;> simp only [Value.eq, Bool.false_eq_true] at h
  case inl.nil => rfl
  case inr.inl.bool p' => rw [beq_iff_eq.1 h]; rfl
  case inr.inr.inl.string s' => rw [beq_iff_eq.1 h]; rfl
  case inr.inr.inr.number y =>
    have hy : y.isNaN = false := (Number.beq_self_iff y).1 (BEq.trans h (BEq.symm h))
    rw [ofValue_number hy, (bits_eq_iff hy hx).2 h]

/-- The value of a key is that key, if any value is. -/
theorem ofValue_value (h : key.Made) : ofValue key.value = .ok key := by
  obtain ⟨v, hv⟩ := h
  rcases ofValue_cases hv with ⟨rfl, rfl⟩ | ⟨p, rfl, rfl⟩ | ⟨s, rfl, rfl⟩ | ⟨x, rfl, hx, rfl⟩
  · rfl
  · rfl
  · rfl
  · obtain ⟨hnumber, hbits⟩ := bits_ofBits hx
    rw [value, ofValue_number hnumber, hbits]

/-- It makes no difference on which side of a comparison a key stands. -/
theorem eq_comm_of_ofValue (ha : ofValue a = .ok key) (b : Value) : a.eq b = b.eq a := by
  rcases ofValue_cases ha with ⟨rfl, rfl⟩ | ⟨p, rfl, rfl⟩ | ⟨s, rfl, rfl⟩ | ⟨x, rfl, hx, rfl⟩ <;>
    cases b <;> simp only [Value.eq]
  case inr.inl.bool q => exact Bool.beq_comm
  case inr.inr.inl.string t => exact BEq.comm
  case inr.inr.inr.number y => exact BEq.comm

/-- What is equal to the value of a key is what is that key. -/
theorem value_eq_iff (h : key.Made) {x : Value} :
    key.value.eq x = true ↔ ofValue x = .ok key := by
  have hkey := ofValue_value h
  constructor
  · intro heq
    rw [eq_comm_of_ofValue hkey] at heq
    exact ofValue_of_eq hkey heq
  · intro hx
    exact (eq_iff_eq hkey hx).1 rfl

end MapKey

-- ============================================================ atoms

/-- A value that is no collection. -/
def Value.Atom : Value → Prop
  | .list _ | .map _ => False
  | .nil | .bool _ | .number _ | .string _ | .function _ | .native _ => True

/-- A literal is an atom, and so is what a key stands for. -/
theorem Literal.value_atom (l : Literal) : l.value.Atom := by cases l <;> trivial

theorem MapKey.value_atom (key : MapKey) : key.value.Atom := by cases key <;> trivial

-- =================================================== keys of a map

/-- A key still comes once when something was put under it. -/
theorem Entries.nodup_keys_put {κ α : Type} [DecidableEq κ] {entries : Entries κ α}
    (h : entries.keys.Nodup) (key : κ) (value : α) : (entries.put key value).keys.Nodup := by
  rw [keys_put]
  split
  · exact h
  · rename_i hnew
    rw [← List.concat_eq_append]
    exact h.concat fun hmem => hnew ((has_iff_mem_keys key entries).2 hmem)

namespace Value

/-- A value is one of the keys of a map. -/
def IsKeyOf (x : Value) (entries : List (MapKey × Value)) : Prop :=
  ∃ key ∈ Entries.keys entries, MapKey.ofValue x = .ok key

private theorem isKeyOf_iff {x : Value} {key : MapKey} (hkey : MapKey.ofValue x = .ok key)
    {entries : List (MapKey × Value)} : x.IsKeyOf entries ↔ key ∈ Entries.keys entries := by
  constructor
  · rintro ⟨other, hmem, hother⟩
    cases hkey.symm.trans hother
    exact hmem
  · exact fun hmem => ⟨key, hmem, hkey⟩

/-- In every map inside a value each key comes once, and was made of a value. -/
def Keyed (v : Value) : Prop :=
  ∀ entries, v.Contains (.map entries) →
    (Entries.keys entries).Nodup ∧ ∀ key ∈ Entries.keys entries, key.Made

variable {entries : List (MapKey × Value)} {v x : Value}

/-- What it is to be keyed, for each kind of value that can fail to be. -/
@[simp] theorem keyed_list {items : List Value} :
    (Value.list items).Keyed ↔ ∀ v ∈ items, v.Keyed := by
  refine ⟨fun h v hv entries hinside => h entries (.item hv hinside),
    fun h entries hinside => ?_⟩
  cases hinside with
  | item mem inside => exact h _ mem entries inside

@[simp] theorem keyed_map :
    (Value.map entries).Keyed ↔ (Entries.keys entries).Nodup
      ∧ (∀ key ∈ Entries.keys entries, key.Made) ∧ ∀ entry ∈ entries, entry.2.Keyed := by
  constructor
  · intro h
    obtain ⟨hnodup, hmade⟩ := h entries .here
    exact ⟨hnodup, hmade, fun entry hentry others hinside => h others (.entry hentry hinside)⟩
  · rintro ⟨hnodup, hmade, hparts⟩ others hinside
    cases hinside with
    | here => exact ⟨hnodup, hmade⟩
    | entry mem inside => exact hparts _ mem others inside

/-- Values that are no collections have no maps inside. -/
theorem keyed_of_atom (h : v.Atom) : v.Keyed := by
  intro entries hinside
  cases hinside with
  | here => exact h.elim
  | item mem inside => exact h.elim
  | entry mem inside => exact h.elim

/-- Another entry under a key that some value is. -/
theorem keyed_put (h : (Value.map entries).Keyed) (hv : v.Keyed) {key : MapKey}
    (hkey : key.Made) : (Value.map (Entries.put key v entries)).Keyed := by
  obtain ⟨hnodup, hmade, hparts⟩ := keyed_map.1 h
  refine keyed_map.2 ⟨?_, ?_, Entries.forall_put hv hparts⟩
  · exact Entries.nodup_keys_put hnodup _ _
  · intro other hother
    rw [Entries.keys_put] at hother
    split at hother
    · exact hmade other hother
    · rcases List.mem_append.1 hother with hold | hnew
      · exact hmade other hold
      · exact List.mem_singleton.1 hnew ▸ hkey

-- ============================================== three ways to look

/-- What an index into a map reads stands under the key that the index is. -/
theorem item_map_eq_ok_iff : (Value.map entries).item x = .ok v
    ↔ ∃ key, MapKey.ofValue x = .ok key ∧ Entries.get? key entries = some v := by
  constructor
  · intro h
    obtain ⟨key, hkey, -⟩ := Except.ok_of_bind h
    rw [item_map hkey] at h
    cases hfound : Entries.get? key entries with
    | none =>
      rw [hfound] at h
      cases h
    | some w =>
      rw [hfound] at h
      cases h
      exact ⟨key, hkey, hfound⟩
  · rintro ⟨key, hkey, hfound⟩
    rw [item_map hkey, hfound]

/-- A map can be indexed by what is one of its keys. -/
theorem item_map_ok_iff :
    (∃ v, (Value.map entries).item x = .ok v) ↔ x.IsKeyOf entries := by
  constructor
  · rintro ⟨v, hv⟩
    obtain ⟨key, hkey, hfound⟩ := item_map_eq_ok_iff.1 hv
    exact ⟨key, Entries.mem_keys (Entries.mem_of_get? hfound), hkey⟩
  · rintro ⟨key, hmem, hkey⟩
    obtain ⟨v, hv⟩ := Option.isSome_iff_exists.1 ((Entries.has_iff_mem_keys key entries).2 hmem)
    exact ⟨v, item_map_eq_ok_iff.2 ⟨key, hkey, hv⟩⟩

/-- A map holds what is one of its keys. -/
theorem contains_map (entries : List (MapKey × Value)) (x : Value) :
    ∃ found, Prelude.contains (.map entries) x = .ok (.bool found)
      ∧ (found = true ↔ x.IsKeyOf entries) := by
  cases hkey : MapKey.ofValue x with
  | error cause =>
    refine ⟨false, ?_, iff_of_false Bool.false_ne_true ?_⟩
    · simp only [Prelude.contains, hkey]
    · rintro ⟨key, -, hof⟩
      cases hkey.symm.trans hof
  | ok key =>
    refine ⟨Entries.has key entries, ?_, ?_⟩
    · simp only [Prelude.contains, hkey]
    · rw [isKeyOf_iff hkey, Entries.has_iff_mem_keys]

/-- The list of the keys holds what is one of them. -/
theorem contains_keys (hmade : ∀ key ∈ Entries.keys entries, key.Made) (x : Value) :
    ∃ found, Prelude.contains (.list ((Entries.keys entries).map MapKey.value)) x
        = .ok (.bool found)
      ∧ (found = true ↔ x.IsKeyOf entries) := by
  refine ⟨_, rfl, ?_⟩
  rw [List.any_map, List.any_eq_true]
  exact exists_congr fun key => and_congr_right fun hmem => MapKey.value_eq_iff (hmade key hmem)

/-- Whichever way a map is asked for a value, the answer is the same. -/
theorem Keyed.found (h : (Value.map entries).Keyed) (x : Value) :
    ∃ found keys, Prelude.contains (.map entries) x = .ok (.bool found)
      ∧ Prelude.keys (.map entries) = .ok keys
      ∧ Prelude.contains keys x = .ok (.bool found)
      ∧ ((∃ v, (Value.map entries).item x = .ok v) ↔ found = true) := by
  obtain ⟨found, hmap, hfound⟩ := contains_map entries x
  obtain ⟨found', hkeys, hfound'⟩ := contains_keys (keyed_map.1 h).2.1 x
  obtain rfl : found' = found := Bool.eq_iff_iff.2 (hfound'.trans hfound.symm)
  exact ⟨found', _, hmap, rfl, hkeys, item_map_ok_iff.trans hfound.symm⟩

/-- Something can be put under every value that is a key, and then it is found under all
values that are equal to that one. -/
theorem item_of_put {key : MapKey} (hkey : MapKey.ofValue x = .ok key) (v : Value) :
    ∃ m, (Value.map entries).withItem x v = .ok m ∧ ∀ y, y.eq x = true → m.item y = .ok v := by
  refine ⟨_, withItem_map hkey entries v, fun y heq => ?_⟩
  rw [item_map (MapKey.ofValue_of_eq hkey heq), Entries.get?_put, if_pos rfl]

end Value

end Scriptlet
