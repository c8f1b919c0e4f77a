/-
Storing and loading through a path. What is stored is what is loaded afterwards, to
store what is there changes nothing, the last of two stores wins, and whatever stands
elsewhere is as it was. Collections are rebuilt on the way back from the end of the
path, so the laws are those of one step, carried up along the path.

# Slots

A key is a value, and two keys may mean the same: `0` and `-0` are one place in a list
and one key of a map. What a key means in a collection is its slot (`Value.slot`), and
paths diverge where their keys mean different slots (`Value.Diverge`). A key that means
nothing there is told apart from all that do, and is refused after a store for the same
reason as before: a list keeps its length, and a map its other keys.
-/
import Scriptlet.Proofs.Grammar.Content
import Scriptlet.Value.Path

namespace Scriptlet

-- ======================================================== entries

namespace Entries

variable {κ α : Type} [DecidableEq κ] {entries : Entries κ α}

/-- To put what is there changes nothing, not even the order. -/
theorem put_of_get? {key : κ} {value : α} (h : entries.get? key = some value) :
    entries.put key value = entries := by
  induction entries with
  | nil => cases h
  | cons entry rest ih =>
    obtain ⟨k, v⟩ := entry
    simp only [get?] at h
    rw [put]
    split at h
    · cases h
      rw [if_pos ‹_›]
    · rw [if_neg ‹_›, ih h]

/-- The last of two values put under one key stays. -/
theorem put_put (key : κ) (old value : α) (entries : Entries κ α) :
    (entries.put key old).put key value = entries.put key value := by
  induction entries with
  | nil => simp [put]
  | cons entry rest ih =>
    obtain ⟨k, v⟩ := entry
    by_cases hk : k = key
    · simp [put, hk]
    · simp [put, hk, ih]

end Entries

-- ========================================================== slots

/-- What a key means in a collection: a place in a sequence, or a key of a map. -/
inductive Slot where
  | place (i : Nat)
  | key (k : MapKey)
  deriving DecidableEq, Repr

/-- A position is only given inside the sequence. -/
theorem Sequence.position_lt {what : Sequence} {key : Value} {length i : Nat}
    (h : what.position key length = .ok i) : i < length := by
  unfold position at h
  split at h
  · split at h
    · cases h
    · split at h
      · rename_i hbounds
        cases h
        simp only [Bool.and_eq_true, decide_eq_true_eq] at hbounds
        omega
      · cases h
  · cases h

namespace Value

/-- The slot that a key means in a collection. -/
def slot (collection key : Value) : Except Cause Slot :=
  match collection with
  | .list items => (Sequence.position .list key items.length).map .place
  | .string s => (Sequence.position .string key s.toList.length).map .place
  | .map _ => (MapKey.ofValue key).map .key
  | v => .error (.notIndexable v.type)

variable {c c' k k' v w : Value}

/-- What is read under a key depends on its slot alone. -/
theorem item_congr (h : c.slot k = c.slot k') : c.item k = c.item k' := by
  cases c with
  | list items =>
    simp only [slot, item] at h ⊢
    cases hk : Sequence.position .list k items.length <;>
      cases hk' : Sequence.position .list k' items.length <;>
      rw [hk, hk'] at h <;> cases h <;> rfl
  | string s =>
    simp only [slot, item] at h ⊢
    cases hk : Sequence.position .string k s.toList.length <;>
      cases hk' : Sequence.position .string k' s.toList.length <;>
      rw [hk, hk'] at h <;> cases h <;> rfl
  | map entries =>
    simp only [slot, item] at h ⊢
    cases hk : MapKey.ofValue k <;> cases hk' : MapKey.ofValue k' <;>
      rw [hk, hk'] at h <;> cases h <;> rfl
  | _ => rfl

-- ======================================================= one step

private theorem item_list {items : List Value} {i : Nat}
    (hi : Sequence.position .list k items.length = .ok i) :
    (Value.list items).item k = .ok (items.getD i .nil) := by
  simp only [item, hi]
  rfl

/-- Indexing a map is looking up its key. -/
theorem item_map {entries : List (MapKey × Value)} {key : MapKey}
    (hkey : MapKey.ofValue k = .ok key) :
    (Value.map entries).item k
      = match Entries.get? key entries with
        | some v => .ok v
        | none => .error (.keyNotFound key) := by
  simp only [item, hkey]
  rfl

private theorem withItem_list {items : List Value} {i : Nat}
    (hi : Sequence.position .list k items.length = .ok i) (v : Value) :
    (Value.list items).withItem k v = .ok (.list (items.set i v)) := by
  simp only [withItem, hi]
  rfl

/-- Writing to a map is putting under its key. -/
theorem withItem_map {key : MapKey} (hkey : MapKey.ofValue k = .ok key)
    (entries : List (MapKey × Value)) (v : Value) :
    (Value.map entries).withItem k v = .ok (.map (Entries.put key v entries)) := by
  simp only [withItem, hkey]
  rfl

/-- What storing under a key does: it replaces an item of a list, or puts an entry into
a map. -/
theorem withItem_cases (h : c.withItem k v = .ok c') :
    (∃ items i, c = .list items ∧ Sequence.position .list k items.length = .ok i
        ∧ c' = .list (items.set i v))
      ∨ ∃ entries key, c = .map entries ∧ MapKey.ofValue k = .ok key
        ∧ c' = .map (Entries.put key v entries) := by
  cases c with
  | list items =>
    cases hi : Sequence.position .list k items.length with
    | error e =>
      simp only [withItem, hi] at h
      cases h
    | ok i =>
      rw [withItem_list hi] at h
      cases h
      exact .inl ⟨items, i, rfl, hi, rfl⟩
  | map entries =>
    cases hkey : MapKey.ofValue k with
    | error e =>
      simp only [withItem, hkey] at h
      cases h
    | ok key =>
      rw [withItem_map hkey] at h
      cases h
      exact .inr ⟨entries, key, rfl, rfl, rfl⟩
  | _ => cases h

/-- Whether a value can be stored under a key, and if not, why, does not depend on the
value. -/
theorem withItem_eq_error_iff (c k v w : Value) (e : Cause) :
    c.withItem k v = .error e ↔ c.withItem k w = .error e := by
  cases c with
  | list items =>
    simp only [withItem]
    cases Sequence.position .list k items.length with
    | error e => rfl
    | ok i => exact iff_of_false nofun nofun
  | map entries =>
    simp only [withItem]
    cases MapKey.ofValue k with
    | error e => rfl
    | ok key => exact iff_of_false nofun nofun
  | _ => rfl

/-- A store leaves alone what the keys of the collection mean. -/
theorem slot_withItem (h : c.withItem k v = .ok c') (k' : Value) : c'.slot k' = c.slot k' := by
  rcases withItem_cases h with ⟨items, i, rfl, -, rfl⟩ | ⟨entries, key, rfl, -, rfl⟩
  · simp only [slot, List.length_set]
  · rfl

/-- The four laws for one step. What was written is read; writing what was read changes
nothing; the second of two writes counts; and what is elsewhere is left alone. -/
private theorem item_withItem (h : c.withItem k v = .ok c') : c'.item k = .ok v := by
  rcases withItem_cases h with ⟨items, i, rfl, hi, rfl⟩ | ⟨entries, key, rfl, hkey, rfl⟩
  · have hlt := Sequence.position_lt hi
    rw [item_list (by rw [List.length_set, hi]), List.getD_eq_getElem?_getD,
      List.getElem?_set_self hlt]
    rfl
  · rw [item_map hkey, Entries.get?_put, if_pos rfl]

private theorem withItem_item (hitem : c.item k = .ok v) (h : c.withItem k v = .ok c') :
    c' = c := by
  rcases withItem_cases h with ⟨items, i, rfl, hi, rfl⟩ | ⟨entries, key, rfl, hkey, rfl⟩
  · have hlt := Sequence.position_lt hi
    rw [item_list hi, List.getD_eq_getElem?_getD, List.getElem?_eq_getElem hlt] at hitem
    cases hitem
    exact congrArg Value.list (List.set_getElem_self hlt)
  · rw [item_map hkey] at hitem
    cases hget : Entries.get? key entries with
    | none =>
      rw [hget] at hitem
      cases hitem
    | some found =>
      rw [hget] at hitem
      cases hitem
      rw [Entries.put_of_get? hget]

private theorem withItem_withItem (h : c.withItem k v = .ok c') (w : Value) :
    c'.withItem k w = c.withItem k w := by
  rcases withItem_cases h with ⟨items, i, rfl, hi, rfl⟩ | ⟨entries, key, rfl, hkey, rfl⟩
  · rw [withItem_list (by rw [List.length_set, hi]), withItem_list hi, List.set_set]
  · rw [withItem_map hkey, withItem_map hkey, Entries.put_put]

/-- What stands in another slot is as it was. -/
theorem item_withItem_of_ne (h : c.withItem k v = .ok c') (hne : c.slot k ≠ c.slot k') :
    c'.item k' = c.item k' := by
  rcases withItem_cases h with ⟨items, i, rfl, hi, rfl⟩ | ⟨entries, key, rfl, hkey, rfl⟩
  · cases hj : Sequence.position .list k' items.length with
    | error e =>
      simp only [item, List.length_set, hj]
      rfl
    | ok j =>
      have hij : i ≠ j := by
        rintro rfl
        exact hne (by rw [slot, slot, hi, hj])
      rw [item_list (by rw [List.length_set, hj]), item_list hj, List.getD_eq_getElem?_getD,
        List.getElem?_set_ne hij, List.getD_eq_getElem?_getD]
  · cases hother : MapKey.ofValue k' with
    | error e =>
      simp only [item, hother]
      rfl
    | ok other =>
      have hne' : other ≠ key := by
        rintro rfl
        exact hne (by rw [slot, slot, hkey, hother])
      rw [item_map hother, item_map hother, Entries.get?_put, if_neg hne']

-- ========================================================== paths

variable {r r' : Value} {p q : Path} {pos pos' : Position}

/-- A store through more than one step: the step is read, the rest of the path is stored
through, and what comes of that is stored under the step. -/
theorem store_cons (k : Value) (pos : Position) {p : Path} (hp : p ≠ []) (r v : Value) :
    r.store ((k, pos) :: p) v
      = Fault.at pos (r.item k) >>= fun inner => inner.store p v >>= fun inner' =>
        Fault.at pos (r.withItem k inner') := by
  cases p with
  | nil => exact absurd rfl hp
  | cons step rest => rfl

private theorem load_cons (k : Value) (pos : Position) (p : Path) (r : Value) :
    r.load ((k, pos) :: p) = Fault.at pos (r.item k) >>= (·.load p) := rfl

/-- Placing a cause makes no difference to an answer. -/
theorem at_eq_ok {α : Type} {x : Except Cause α} {a : α} (h : Fault.at pos x = .ok a) :
    x = .ok a := by
  cases x with
  | error e => cases h
  | ok b =>
    cases h
    rfl

/-- What a store through more than one step does. -/
theorem store_cons_eq_ok (hp : p ≠ []) (h : r.store ((k, pos) :: p) v = .ok r') :
    ∃ inner inner', r.item k = .ok inner ∧ inner.store p v = .ok inner'
      ∧ r.withItem k inner' = .ok r' := by
  rw [store_cons k pos hp] at h
  obtain ⟨inner, hinner, h⟩ := Except.ok_of_bind h
  obtain ⟨inner', hinner', h⟩ := Except.ok_of_bind h
  exact ⟨inner, inner', at_eq_ok hinner, hinner', at_eq_ok h⟩

private theorem at_eq_error_congr {α : Type} {x y : Except Cause α}
    (h : ∀ e, x = .error e ↔ y = .error e) (fault : Fault) :
    Fault.at pos x = .error fault ↔ Fault.at pos y = .error fault := by
  have herror (z : Except Cause α) :
      Fault.at pos z = .error fault ↔ ∃ e, z = .error e ∧ fault = ⟨e, pos⟩ := by
    cases z with
    | error e => simp [Fault.at, eq_comm]
    | ok a => simp [Fault.at]
  simp only [herror, h]

-- =========================================================== laws

/-- Whether a value can be stored through a path, and if not, why, does not depend on
the value. -/
theorem store_eq_error_iff (r : Value) (p : Path) (v w : Value) (fault : Fault) :
    r.store p v = .error fault ↔ r.store p w = .error fault := by
  induction p generalizing r fault with
  | nil => exact iff_of_false nofun nofun
  | cons step rest ih =>
    obtain ⟨k, pos⟩ := step
    by_cases hrest : rest = []
    · subst hrest
      exact at_eq_error_congr (withItem_eq_error_iff r k v w) fault
    rw [store_cons k pos hrest, store_cons k pos hrest]
    cases r.item k with
    | error e => rfl
    | ok inner =>
      show (inner.store rest v >>= fun inner' => Fault.at pos (r.withItem k inner')) = _
        ↔ (inner.store rest w >>= fun inner' => Fault.at pos (r.withItem k inner')) = _
      cases hv : inner.store rest v with
      | error e => rw [(ih inner e).1 hv]
      | ok a =>
        cases hw : inner.store rest w with
        | error e =>
          rw [(ih inner e).2 hw] at hv
          cases hv
        | ok b => exact at_eq_error_congr (withItem_eq_error_iff r k a b) fault

/-- What was stored is what is loaded. -/
theorem load_store (h : r.store p v = .ok r') : r'.load p = .ok v := by
  induction p generalizing r r' with
  | nil =>
    cases h
    rfl
  | cons step rest ih =>
    obtain ⟨k, pos⟩ := step
    by_cases hrest : rest = []
    · subst hrest
      rw [load_cons, item_withItem (at_eq_ok h)]
      rfl
    · obtain ⟨inner, inner', -, hstore, hwith⟩ := store_cons_eq_ok hrest h
      rw [load_cons, item_withItem hwith]
      exact ih hstore

/-- A step of a path that leads to a value. -/
theorem load_cons_eq_ok (h : r.load ((k, pos) :: p) = .ok v) :
    ∃ inner, r.item k = .ok inner ∧ inner.load p = .ok v := by
  obtain ⟨inner, hinner, h⟩ := Except.ok_of_bind h
  exact ⟨inner, at_eq_ok hinner, h⟩

/-- To store what is there changes nothing. -/
theorem store_load (hload : r.load p = .ok v) (h : r.store p v = .ok r') : r' = r := by
  induction p generalizing r r' with
  | nil =>
    cases hload
    cases h
    rfl
  | cons step rest ih =>
    obtain ⟨k, pos⟩ := step
    obtain ⟨inner, hitem, hinner⟩ := load_cons_eq_ok hload
    by_cases hrest : rest = []
    · subst hrest
      cases hinner
      exact withItem_item hitem (at_eq_ok h)
    · obtain ⟨inner₁, inner', hitem₁, hstore, hwith⟩ := store_cons_eq_ok hrest h
      rw [hitem] at hitem₁
      cases hitem₁
      rw [ih hinner hstore] at hwith
      exact withItem_item hitem hwith

/-- The last of two stores wins. -/
theorem store_store (h : r.store p v = .ok r') (w : Value) : r'.store p w = r.store p w := by
  induction p generalizing r r' with
  | nil => rfl
  | cons step rest ih =>
    obtain ⟨k, pos⟩ := step
    by_cases hrest : rest = []
    · subst hrest
      exact congrArg (Fault.at pos) (withItem_withItem (at_eq_ok h) w)
    · obtain ⟨inner, inner', hitem, hstore, hwith⟩ := store_cons_eq_ok hrest h
      rw [store_cons k pos hrest, store_cons k pos hrest, item_withItem hwith, hitem]
      show (inner'.store rest w >>= _) = (inner.store rest w >>= _)
      rw [ih hstore]
      exact congrArg (inner.store rest w >>= ·)
        (funext fun x => congrArg (Fault.at pos) (withItem_withItem hwith x))

/-- Two paths diverge: up to some step their keys mean the same slots, and there they mean
different slots of the same collection. -/
inductive Diverge : Value → Path → Path → Prop where
  | here {c k k' : Value} {pos pos' : Position} {p q : Path} (different : c.slot k ≠ c.slot k') :
      Diverge c ((k, pos) :: p) ((k', pos') :: q)
  | further {c inner k k' : Value} {pos pos' : Position} {p q : Path}
      (same : c.slot k = c.slot k') (item : c.item k = .ok inner) (rest : Diverge inner p q) :
      Diverge c ((k, pos) :: p) ((k', pos') :: q)

/-- Paths that part ways have a step to part at. -/
theorem Diverge.ne_nil (h : Diverge r p q) : p ≠ [] := by
  cases h <;> simp

/-- What stands elsewhere is as it was. -/
theorem load_store_of_diverge (hdiverge : Diverge r p q) (h : r.store p v = .ok r') :
    r'.load q = r.load q := by
  induction hdiverge generalizing r' with
  | @here c k k' pos pos' p q hne =>
    have hwith : ∃ x, c.withItem k x = .ok r' := by
      by_cases hp : p = []
      · subst hp
        exact ⟨v, at_eq_ok h⟩
      · obtain ⟨_, x, -, -, hwith⟩ := store_cons_eq_ok hp h
        exact ⟨x, hwith⟩
    obtain ⟨x, hwith⟩ := hwith
    rw [load_cons, load_cons, item_withItem_of_ne hwith hne]
  | @further c inner k k' pos pos' p q hsame hitem hrest ih =>
    obtain ⟨inner₁, inner', hitem₁, hstore, hwith⟩ := store_cons_eq_ok hrest.ne_nil h
    rw [hitem] at hitem₁
    cases hitem₁
    have hslots : r'.slot k' = r'.slot k := by
      rw [slot_withItem hwith, slot_withItem hwith, hsame]
    rw [load_cons, load_cons, item_congr hslots, item_withItem hwith, ← item_congr hsame, hitem]
    exact ih hstore

/-- The laws of a store. Whether a value can be stored through a path, and if not, why,
does not depend on the value; what was stored is what is loaded; to store what is there
changes nothing, not even the order of a map; the last of two stores wins; and through a
path that diverges the same is loaded as before, or refused for the same reason. -/
theorem store_lens (r : Value) (p : Path) :
    (∀ v w fault, r.store p v = .error fault ↔ r.store p w = .error fault)
      ∧ (∀ v r', r.store p v = .ok r' → r'.load p = .ok v)
      ∧ (∀ v r', r.load p = .ok v → r.store p v = .ok r' → r' = r)
      ∧ (∀ v w r', r.store p v = .ok r' → r'.store p w = r.store p w)
      ∧ ∀ v r' q, r.store p v = .ok r' → Diverge r p q → r'.load q = r.load q :=
  ⟨store_eq_error_iff r p, fun _ _ => load_store, fun _ _ => store_load,
    fun _ w _ h => store_store h w, fun _ _ _ h hdiverge => load_store_of_diverge hdiverge h⟩

/-- A map in a list in a map. -/
def nested (entries : List (MapKey × Value)) : Value :=
  .map [(.string "rows", .list [.map entries, .nil])]

/-- The path to a key of the innermost map of `nested`, where `zero` is the key of the
list. -/
def inward (zero : Float) (key : String) : Path :=
  [(.string "rows", .start), (.number zero, .start), (.string key, .start)]

/-- A new key at the end of the path, a key beside it, and negative zero as good as
zero on the way there. -/
theorem store_lens_nested :
    (nested [(.string "x", .nil)]).store (inward 0 "y") (.bool true)
        = .ok (nested [(.string "x", .nil), (.string "y", .bool true)])
      ∧ (nested [(.string "x", .nil), (.string "y", .bool true)]).load (inward 0 "y")
        = .ok (.bool true)
      ∧ (nested [(.string "x", .nil), (.string "y", .bool true)]).store (inward 0 "y") .nil
        = (nested [(.string "x", .nil)]).store (inward 0 "y") .nil
      ∧ Diverge (nested [(.string "x", .nil)]) (inward 0 "y") (inward (-0.0) "x")
      ∧ (nested [(.string "x", .nil), (.string "y", .bool true)]).load (inward (-0.0) "x")
        = (nested [(.string "x", .nil)]).load (inward (-0.0) "x")
      ∧ ∃ r', (nested [(.string "x", .nil)]).store (inward (-0.0) "x") .nil = .ok r'
        ∧ r' = nested [(.string "x", .nil)] := by
  have hstore : (nested [(.string "x", .nil)]).store (inward 0 "y") (.bool true)
      = .ok (nested [(.string "x", .nil), (.string "y", .bool true)]) := rfl
  have hzero : (Value.list [.map [(.string "x", .nil)], .nil]).slot (.number 0)
      = .ok (.place 0) := rfl
  have hminus : (Value.list [.map [(.string "x", .nil)], .nil]).slot (.number (-0.0))
      = .ok (.place 0) := rfl
  have hkeys : (Value.map [(.string "x", .nil)]).slot (.string "y")
      ≠ (Value.map [(.string "x", .nil)]).slot (.string "x") := by
    simp [slot, MapKey.ofValue, Except.map]
  have hdiverge : Diverge (nested [(.string "x", .nil)]) (inward 0 "y") (inward (-0.0) "x") :=
    .further rfl rfl (.further (hzero.trans hminus.symm) rfl (.here hkeys))
  obtain ⟨-, hload, -, hlast, haside⟩ := store_lens (nested [(.string "x", .nil)]) (inward 0 "y")
  obtain ⟨-, -, hsame, -, -⟩ := store_lens (nested [(.string "x", .nil)]) (inward (-0.0) "x")
  exact ⟨hstore, hload _ _ hstore, hlast _ _ _ hstore, hdiverge, haside _ _ _ hstore hdiverge,
    _, rfl, hsame _ _ rfl rfl⟩

end Value

end Scriptlet
