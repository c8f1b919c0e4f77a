/-
Equality of values is a partial equivalence: symmetric and transitive, and reflexive on
exactly the values in which no number is missing. Not a number is equal to nothing, and
one anywhere inside a value makes the whole value unequal to itself.

# Maps are compared one way only

Two maps are compared by looking up the keys of the first in the second, so it is not
plain that the second may be compared with the first. It may, because a key comes once
in a map: as many keys, all of them found, are all the keys there are
(`Entries.mem_keys_of_length_eq`). That keys come once is asked of maps at every depth
(`Value.KeysUnique`).

# Numbers

A number is compared by what it is with the sign of zero left out (`Number.comparand`),
and that the comparison is symmetric and transitive is read off that.
-/
import Mathlib.Data.List.Nodup
import Mathlib.Data.List.Perm.Subperm
import Scriptlet.Proofs.Value.Functions

namespace Scriptlet

-- ======================================================== numbers

namespace Number

open Float.Model

/-- What a number is compared by: the number, except that zero has no sign. -/
def comparand (x : Float) : UnpackedFloat :=
  match x.toModel.unpack with
  | .zero _ => .zero .positive
  | other => other

private theorem isNaN_iff (x : Float) : x.isNaN = true ↔ comparand x = .notANumber := by
  show x.toModel.unpack.isNaN = true ↔ _
  unfold comparand
  cases x.toModel.unpack with
  | notANumber => exact iff_of_true rfl rfl
  | infinity s => exact iff_of_false Bool.false_ne_true UnpackedFloat.noConfusion
  | zero s => exact iff_of_false Bool.false_ne_true UnpackedFloat.noConfusion
  | finite s m e pos => exact iff_of_false Bool.false_ne_true UnpackedFloat.noConfusion

private theorem then_eq_iff (m m' : Nat) (e e' : Int) :
    (compare e e').then (compare m m') = .eq ↔ m = m' ∧ e = e' := by
  rw [Ordering.then_eq_eq, Std.compare_eq_iff_eq, Std.compare_eq_iff_eq, and_comm]

/-- Finite numbers are compared by sign, exponent and mantissa. -/
theorem compare_finite_iff (s s' : UnpackedFloat.Sign) {m m' : Nat} (e e' : Int) (pos : 0 < m)
    (pos' : 0 < m') : (UnpackedFloat.finite s m e pos).compare (.finite s' m' e' pos') = some .eq
      ↔ UnpackedFloat.finite s m e pos = .finite s' m' e' pos' := by
  rw [UnpackedFloat.finite.injEq]
  cases s <;> cases s'
  · show some ((compare e e').then (compare m m')).swap = some .eq ↔ _
    rw [Option.some.injEq, Ordering.swap_eq_eq, then_eq_iff]
    exact (and_iff_right rfl).symm
  · exact iff_of_false nofun nofun
  · exact iff_of_false nofun nofun
  · show some ((compare e e').then (compare m m')) = some .eq ↔ _
    rw [Option.some.injEq, then_eq_iff]
    exact (and_iff_right rfl).symm

/-- Numbers are equal if they are compared by the same and are numbers at all. -/
theorem beq_iff (x y : Float) :
    (x == y) = true ↔ comparand x = comparand y ∧ comparand x ≠ .notANumber := by
  show (x.toModel.unpack.compare y.toModel.unpack == some .eq) = true ↔ _
  unfold comparand
  generalize x.toModel.unpack = a
  generalize y.toModel.unpack = b
  rw [beq_iff_eq]
  cases a with
  | notANumber => exact iff_of_false (by cases b <;> nofun) fun h => h.2 rfl
  | infinity s =>
    cases b with
    | infinity s' =>
      cases s <;> cases s' <;> first
        | exact iff_of_true rfl ⟨rfl, UnpackedFloat.noConfusion⟩
        | exact iff_of_false nofun nofun
    | _ => cases s <;> exact iff_of_false nofun nofun
  | zero s =>
    cases b with
    | zero s' => exact iff_of_true rfl ⟨rfl, UnpackedFloat.noConfusion⟩
    | notANumber => exact iff_of_false nofun nofun
    | _ s' => cases s' <;> exact iff_of_false nofun nofun
  | finite s m e pos =>
    cases b with
    | infinity s' => cases s' <;> exact iff_of_false nofun nofun
    | finite s' m' e' pos' =>
      exact (compare_finite_iff s s' e e' pos pos').trans
        (and_iff_left UnpackedFloat.noConfusion).symm
    | _ => cases s <;> exact iff_of_false nofun nofun

instance partialEquivBEq : PartialEquivBEq Float where
  symm {x y} h := by
    obtain ⟨hsame, hnumber⟩ := (beq_iff x y).1 h
    exact (beq_iff y x).2 ⟨hsame.symm, hsame ▸ hnumber⟩
  trans {x y z} h h' := by
    obtain ⟨hsame, hnumber⟩ := (beq_iff x y).1 h
    exact (beq_iff x z).2 ⟨hsame.trans ((beq_iff y z).1 h').1, hnumber⟩

/-- A number is equal to itself unless it is none. -/
theorem beq_self_iff (x : Float) : (x == x) = true ↔ x.isNaN = false := by
  rw [beq_iff, ← Bool.not_eq_true, isNaN_iff]
  exact and_iff_right rfl

end Number

-- ======================================================== entries

namespace Entries

variable {κ α : Type} [DecidableEq κ] {entries others : Entries κ α}

omit [DecidableEq κ] in
/-- The key of an entry is one of the keys. -/
theorem mem_keys {entry : κ × α} (h : entry ∈ entries) : entry.1 ∈ entries.keys :=
  List.mem_map_of_mem h

/-- An entry is found under its key, if that key comes once. -/
theorem get?_of_mem (h : entries.keys.Nodup) {entry : κ × α} (hmem : entry ∈ entries) :
    entries.get? entry.1 = some entry.2 := by
  induction entries with
  | nil => cases hmem
  | cons first rest ih =>
    obtain ⟨k, v⟩ := first
    obtain ⟨hnew, hrest⟩ := List.nodup_cons.1 h
    rcases List.mem_cons.1 hmem with rfl | hmem
    · rw [get?, if_pos rfl]
    · have hin : entry.1 ∈ keys rest := mem_keys hmem
      have hk : k ≠ entry.1 := by
        rintro rfl
        exact hnew hin
      rw [get?, if_neg hk, ih hrest hmem]

omit [DecidableEq κ] in
/-- If each key of the first comes once and is in the second, which is no longer, then the
second has no other keys. -/
theorem mem_keys_of_length_eq (hnodup : entries.keys.Nodup) (hlen : entries.length = others.length)
    (hsub : ∀ key ∈ entries.keys, key ∈ others.keys) {key : κ} (hkey : key ∈ others.keys) :
    key ∈ entries.keys := by
  have hperm : entries.keys.Perm others.keys :=
    (hnodup.subperm hsub).perm_of_length_le (by simp [keys, hlen])
  exact hperm.mem_iff.2 hkey

end Entries

-- ========================================================= values

namespace Value

/-- What holds of values if it passes from the parts of a collection to the collection,
holds of all. -/
@[elab_as_elim]
theorem induct {P : Value → Prop} (nil : P .nil) (bool : ∀ b, P (.bool b))
    (number : ∀ n, P (.number n)) (string : ∀ s, P (.string s))
    (list : ∀ items, (∀ v ∈ items, P v) → P (.list items))
    (map : ∀ entries, (∀ entry ∈ entries, P entry.2) → P (.map entries))
    (function : ∀ f, P (.function f)) (native : ∀ f, P (.native f)) : ∀ v, P v
  | .nil => nil
  | .bool b => bool b
  | .number n => number n
  | .string s => string s
  | .list items => list items fun v _ =>
      induct nil bool number string list map function native v
  | .map entries => map entries fun (key, v) hmem =>
      have hsmaller : sizeOf v < sizeOf entries := by
        have hentry := List.sizeOf_lt_of_mem hmem
        simp only [Prod.mk.sizeOf_spec] at hentry
        omega
      induct nil bool number string list map function native v
  | .function f => function f
  | .native f => native f

/-- A value is the given one or has it inside: as an item, or under a key. -/
inductive Contains : Value → Value → Prop where
  | here {v : Value} : Contains v v
  | item {items : List Value} {v part : Value} (mem : v ∈ items) (inside : Contains v part) :
      Contains (.list items) part
  | entry {entries : List (MapKey × Value)} {entry : MapKey × Value} {part : Value}
      (mem : entry ∈ entries) (inside : Contains entry.2 part) : Contains (.map entries) part

/-- In every map inside a value each key comes once. -/
def KeysUnique (v : Value) : Prop :=
  ∀ entries, v.Contains (.map entries) → (Entries.keys entries).Nodup

/-- A number that is none is inside a value. -/
def HasNaN (v : Value) : Prop := ∃ n, n.isNaN = true ∧ v.Contains (.number n)

/-- Keys come once at every depth, hence inside an item and inside the value of an
entry. -/
theorem KeysUnique.item {items : List Value} (h : (Value.list items).KeysUnique) {v : Value}
    (hv : v ∈ items) : v.KeysUnique :=
  fun entries hinside => h entries (.item hv hinside)

theorem KeysUnique.entry {entries : List (MapKey × Value)} (h : (Value.map entries).KeysUnique)
    {entry : MapKey × Value} (hentry : entry ∈ entries) : entry.2.KeysUnique :=
  fun entries hinside => h entries (.entry hentry hinside)

/-- And in the map itself. -/
theorem KeysUnique.keys {entries : List (MapKey × Value)} (h : (Value.map entries).KeysUnique) :
    (Entries.keys entries).Nodup :=
  h entries .here

/-- What it comes to for each kind of value. -/
@[simp] theorem keysUnique_list {items : List Value} :
    (Value.list items).KeysUnique ↔ ∀ v ∈ items, v.KeysUnique := by
  refine ⟨fun h v hv => h.item hv, fun h entries hinside => ?_⟩
  cases hinside with
  | item mem inside => exact h _ mem entries inside

@[simp] theorem keysUnique_map {entries : List (MapKey × Value)} :
    (Value.map entries).KeysUnique ↔
      (Entries.keys entries).Nodup ∧ ∀ entry ∈ entries, entry.2.KeysUnique := by
  refine ⟨fun h => ⟨h.keys, fun _ hentry => h.entry hentry⟩, fun h others hinside => ?_⟩
  cases hinside with
  | here => exact h.1
  | entry mem inside => exact h.2 _ mem others inside

@[simp] theorem keysUnique_number (n : Float) : (Value.number n).KeysUnique := nofun

@[simp] theorem keysUnique_function (f : Closure) : (Value.function f).KeysUnique := nofun

/-- A missing number is found inside a collection, at whatever depth, or is the value
itself. -/
@[simp] theorem hasNaN_list {items : List Value} :
    (Value.list items).HasNaN ↔ ∃ v ∈ items, v.HasNaN := by
  constructor
  · rintro ⟨n, hn, hinside⟩
    cases hinside with
    | item mem inside => exact ⟨_, mem, n, hn, inside⟩
  · rintro ⟨v, hv, n, hn, hinside⟩
    exact ⟨n, hn, .item hv hinside⟩

@[simp] theorem hasNaN_map {entries : List (MapKey × Value)} :
    (Value.map entries).HasNaN ↔ ∃ entry ∈ entries, entry.2.HasNaN := by
  constructor
  · rintro ⟨n, hn, hinside⟩
    cases hinside with
    | entry mem inside => exact ⟨_, mem, n, hn, inside⟩
  · rintro ⟨entry, hentry, n, hn, hinside⟩
    exact ⟨n, hn, .entry hentry hinside⟩

@[simp] theorem hasNaN_number {n : Float} : (Value.number n).HasNaN ↔ n.isNaN = true := by
  constructor
  · rintro ⟨n', hn, hinside⟩
    cases hinside
    exact hn
  · exact fun hn => ⟨n, hn, .here⟩

-- ======================================================= equality

/-- Lists are equal if they are as long and equal item by item. -/
theorem eq_list_iff (as bs : List Value) :
    (Value.list as).eq (.list bs) = true ↔
      as.length = bs.length ∧ ∀ i (h : i < as.length) (h' : i < bs.length),
        as[i].eq bs[i] = true := by
  rw [eq]
  induction as generalizing bs with
  | nil =>
    cases bs with
    | nil => simp [eqItems]
    | cons b bs => simp [eqItems]
  | cons a as ih =>
    cases bs with
    | nil => simp [eqItems]
    | cons b bs =>
      rw [eqItems, Bool.and_eq_true, ih]
      constructor
      · rintro ⟨hfirst, hlen, hrest⟩
        refine ⟨congrArg (· + 1) hlen, fun i h h' => ?_⟩
        cases i with
        | zero => exact hfirst
        | succ i => exact hrest i (Nat.lt_of_succ_lt_succ h) (Nat.lt_of_succ_lt_succ h')
      · rintro ⟨hlen, hall⟩
        exact ⟨hall 0 (Nat.succ_pos _) (Nat.succ_pos _), Nat.succ.inj hlen,
          fun i h h' => hall (i + 1) (Nat.succ_lt_succ h) (Nat.succ_lt_succ h')⟩

/-- Maps are equal if they have as many entries and what is under a key of the first is
equal to what is under it in the second. -/
theorem eq_map_iff (as bs : List (MapKey × Value)) :
    (Value.map as).eq (.map bs) = true ↔
      as.length = bs.length ∧ ∀ entry ∈ as,
        ∃ b, Entries.get? entry.1 bs = some b ∧ entry.2.eq b = true := by
  have hentries : eqEntries as bs = true ↔ ∀ entry ∈ as,
      ∃ b, Entries.get? entry.1 bs = some b ∧ entry.2.eq b = true := by
    induction as with
    | nil => simp [eqEntries]
    | cons entry rest ih =>
      obtain ⟨key, a⟩ := entry
      rw [eqEntries, Bool.and_eq_true, ih, List.forall_mem_cons]
      refine and_congr_left fun _ => ?_
      cases Entries.get? key bs <;> simp
  rw [eq, Bool.and_eq_true, hentries, beq_iff_eq]

/-- By induction on the first value. For maps the other direction needs that a key of the
second is one of the first, which is counted. -/
private theorem eq_symm {a b : Value} (ha : a.KeysUnique) (hb : b.KeysUnique) (h : a.eq b = true) :
    b.eq a = true := by
  induction a using induct generalizing b with
  | list items ih =>
    cases b with
    | list others =>
      obtain ⟨hlen, hall⟩ := (eq_list_iff items others).1 h
      refine (eq_list_iff others items).2 ⟨hlen.symm, fun i hi hi' => ?_⟩
      exact ih _ (List.getElem_mem hi') (ha.item (List.getElem_mem hi'))
        (hb.item (List.getElem_mem hi)) (hall i hi' hi)
    | _ => cases h
  | map entries ih =>
    cases b with
    | map others =>
      obtain ⟨hlen, hall⟩ := (eq_map_iff entries others).1 h
      refine (eq_map_iff others entries).2 ⟨hlen.symm, fun other hother => ?_⟩
      have hsub : ∀ key ∈ Entries.keys entries, key ∈ Entries.keys others := by
        intro key hkey
        obtain ⟨entry, hentry, rfl⟩ := List.mem_map.1 hkey
        obtain ⟨w, hw, -⟩ := hall entry hentry
        exact List.mem_map.2 ⟨(entry.1, w), Entries.mem_of_get? hw, rfl⟩
      -- the key is in the first map, too, and there it was compared with this very entry
      have hkey := Entries.mem_keys_of_length_eq ha.keys hlen hsub (Entries.mem_keys hother)
      obtain ⟨entry, hentry, hsame⟩ := List.mem_map.1 hkey
      obtain ⟨w, hw, heq⟩ := hall entry hentry
      have hfound := Entries.get?_of_mem hb.keys hother
      obtain rfl : other.2 = w := Option.some.inj (hfound.symm.trans (hsame ▸ hw))
      refine ⟨entry.2, hsame ▸ Entries.get?_of_mem ha.keys hentry, ?_⟩
      exact ih entry hentry (ha.entry hentry) (hb.entry hother) heq
    | _ => cases h
  | nil =>
    cases b with
    | nil => exact h
    | _ => cases h
  | bool x =>
    cases b with
    | bool y => exact BEq.symm h
    | _ => cases h
  | number x =>
    cases b with
    | number y => exact BEq.symm h
    | _ => cases h
  | string x =>
    cases b with
    | string y => exact BEq.symm h
    | _ => cases h
  | function f =>
    cases b with
    | function g => exact BEq.symm (a := f.id) h
    | _ => cases h
  | native f =>
    cases b with
    | native g => exact BEq.symm (a := f.id) h
    | _ => cases h

/-- By induction on the first value. Here keys need not differ: what is found of the first in
the second is found of the second in the third. -/
private theorem eq_trans {a b c : Value} (h : a.eq b = true) (h' : b.eq c = true) :
    a.eq c = true := by
  induction a using induct generalizing b c with
  | list items ih =>
    cases b with
    | list others =>
      cases c with
      | list more =>
        obtain ⟨hlen, hall⟩ := (eq_list_iff items others).1 h
        obtain ⟨hlen', hall'⟩ := (eq_list_iff others more).1 h'
        refine (eq_list_iff items more).2 ⟨hlen.trans hlen', fun i hi hi' => ?_⟩
        exact ih _ (List.getElem_mem hi) (hall i hi (hlen ▸ hi)) (hall' i (hlen ▸ hi) hi')
      | _ => cases h'
    | _ => cases h
  | map entries ih =>
    cases b with
    | map others =>
      cases c with
      | map more =>
        obtain ⟨hlen, hall⟩ := (eq_map_iff entries others).1 h
        obtain ⟨hlen', hall'⟩ := (eq_map_iff others more).1 h'
        refine (eq_map_iff entries more).2 ⟨hlen.trans hlen', fun entry hentry => ?_⟩
        -- the entry that `others` holds under the key is the one to go on from
        obtain ⟨w, hw, heq⟩ := hall entry hentry
        obtain ⟨u, hu, heq'⟩ := hall' (entry.1, w) (Entries.mem_of_get? hw)
        exact ⟨u, hu, ih entry hentry heq heq'⟩
      | _ => cases h'
    | _ => cases h
  | nil =>
    cases b with
    | nil => exact h'
    | _ => cases h
  | bool x =>
    cases b with
    | bool y =>
      obtain rfl : x = y := beq_iff_eq.1 h
      exact h'
    | _ => cases h
  | number x =>
    cases b with
    | number y =>
      cases c with
      | number z => exact BEq.trans (b := y) h h'
      | _ => cases h'
    | _ => cases h
  | string x =>
    cases b with
    | string y =>
      obtain rfl : x = y := beq_iff_eq.1 h
      exact h'
    | _ => cases h
  | function f =>
    cases b with
    | function g =>
      cases c with
      | function g' => exact BEq.trans (b := g.id) h h'
      | _ => cases h'
    | _ => cases h
  | native f =>
    cases b with
    | native g =>
      cases c with
      | native g' => exact BEq.trans (b := g.id) h h'
      | _ => cases h'
    | _ => cases h

/-- A value is equal to itself unless a number inside it is none. -/
theorem eq_self_iff {a : Value} (ha : a.KeysUnique) : a.eq a = true ↔ ¬ a.HasNaN := by
  induction a using induct with
  | list items ih =>
    rw [eq_list_iff, hasNaN_list]
    constructor
    · rintro ⟨-, hall⟩ ⟨v, hv, hnan⟩
      obtain ⟨i, hi, rfl⟩ := List.getElem_of_mem hv
      exact (ih _ hv (ha.item hv)).1 (hall i hi hi) hnan
    · intro hnan
      refine ⟨rfl, fun i hi _ => ?_⟩
      have hmem := List.getElem_mem hi
      exact (ih _ hmem (ha.item hmem)).2 fun hinside => hnan ⟨_, hmem, hinside⟩
  | map entries ih =>
    rw [eq_map_iff, hasNaN_map]
    constructor
    · rintro ⟨-, hall⟩ ⟨entry, hentry, hnan⟩
      obtain ⟨w, hw, heq⟩ := hall entry hentry
      -- keys are unique, so the entry found under the key is this very one
      have hfound := Entries.get?_of_mem ha.keys hentry
      obtain rfl : entry.2 = w := Option.some.inj (hfound.symm.trans hw)
      exact (ih entry hentry (ha.entry hentry)).1 heq hnan
    · intro hnan
      refine ⟨rfl, fun entry hentry => ⟨entry.2, Entries.get?_of_mem ha.keys hentry, ?_⟩⟩
      exact (ih entry hentry (ha.entry hentry)).2 fun hinside => hnan ⟨entry, hentry, hinside⟩
  | number n =>
    rw [hasNaN_number, Bool.not_eq_true]
    exact Number.beq_self_iff n
  | _ =>
    refine iff_of_true (by simp [eq]) ?_
    rintro ⟨n, -, hinside⟩
    cases hinside

/-- The order of entries is nothing to equality. -/
theorem eq_map_of_perm {entries others : List (MapKey × Value)} (hperm : entries.Perm others)
    (hkeys : (Entries.keys entries).Nodup) (hself : ∀ entry ∈ entries, entry.2.eq entry.2 = true) :
    (Value.map entries).eq (.map others) = true := by
  have hothers : (Entries.keys others).Nodup := (hperm.map Prod.fst).nodup_iff.1 hkeys
  refine (eq_map_iff entries others).2 ⟨hperm.length_eq, fun entry hentry => ?_⟩
  exact ⟨entry.2, Entries.get?_of_mem hothers (hperm.mem_iff.1 hentry), hself entry hentry⟩

/-- Equality of values, where each key of a map comes once: it is symmetric and transitive,
a value is equal to itself if and only if no number inside it is none, and the order of
the entries of a map is nothing to it. -/
theorem eq_isPartialEquivalence :
    (∀ a b : Value, a.KeysUnique → b.KeysUnique → a.eq b = true → b.eq a = true)
      ∧ (∀ a b c : Value, a.eq b = true → b.eq c = true → a.eq c = true)
      ∧ (∀ a : Value, a.KeysUnique → (a.eq a = true ↔ ¬ a.HasNaN))
      ∧ ∀ entries others : List (MapKey × Value), entries.Perm others →
        (Entries.keys entries).Nodup → (∀ entry ∈ entries, entry.2.eq entry.2 = true) →
          (Value.map entries).eq (.map others) = true :=
  ⟨fun _ _ => eq_symm, fun _ _ _ => eq_trans, fun _ => eq_self_iff,
    fun _ _ => eq_map_of_perm⟩

/-- Entries of a map: a list with a number and a function in it, and an empty map. -/
def mixed (zero : Float) : List (MapKey × Value) :=
  [(.string "list", .list [.number zero, .function ⟨0, ⟨none, [], [], .start⟩, 0⟩]),
    (.bool true, .map [])]

/-- Maps in which zero has another sign are equal in both directions and in every order of
their entries; with not a number in that place, a map is not equal to itself. -/
theorem eq_isPartialEquivalence_mixed :
    (Value.map (mixed 0)).KeysUnique ∧ (Value.map (mixed (-0.0))).KeysUnique
      ∧ (Value.map (mixed 0)).eq (.map (mixed (-0.0))) = true
      ∧ (Value.map (mixed (-0.0))).eq (.map (mixed 0)) = true
      ∧ (Value.map (mixed 0)).eq (.map (mixed 0).reverse) = true
      ∧ (Value.map (mixed (-0.0))).eq (.map (mixed 0).reverse) = true
      ∧ (Value.map (mixed Number.nan)).KeysUnique ∧ (Value.map (mixed Number.nan)).HasNaN
      ∧ (Value.map (mixed Number.nan)).eq (.map (mixed Number.nan)) = false := by
  obtain ⟨hsymm, htrans, hself, hperm⟩ := eq_isPartialEquivalence
  have hkeys (n : Float) : (Value.map (mixed n)).KeysUnique := by
    simp [mixed, Entries.keys]
  have hequal : (Value.map (mixed 0)).eq (.map (mixed (-0.0))) = true := by decide +kernel
  have hback := hsymm _ _ (hkeys 0) (hkeys (-0.0)) hequal
  have hreverse : (Value.map (mixed 0)).eq (.map (mixed 0).reverse) = true := by
    refine hperm _ _ (List.reverse_perm _).symm (hkeys 0).keys ?_
    decide +kernel
  have hnan : (Value.map (mixed Number.nan)).HasNaN := by
    have hnumber : Number.nan.isNaN = true := by decide +kernel
    refine hasNaN_map.2 ⟨_, List.mem_cons_self, hasNaN_list.2 ⟨_, List.mem_cons_self, ?_⟩⟩
    exact hasNaN_number.2 hnumber
  refine ⟨hkeys 0, hkeys (-0.0), hequal, hback, hreverse, htrans _ _ _ hback hreverse,
    hkeys _, hnan, ?_⟩
  exact Bool.eq_false_iff.2 fun heq => (hself _ (hkeys _)).1 heq hnan

end Value

end Scriptlet
