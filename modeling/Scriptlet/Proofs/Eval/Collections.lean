/-
Collections as scripts see them. Every map that turns up in a run is keyed
(`Held.Reached.keyed`): each of its keys comes once, and some value is that key. So the
different ways to look into a map agree with each other and with equality of values, and the
different walks over a collection agree on what comes where.

# The least that has to be known of runs

Lists and strings need nothing but what they are. That maps are keyed is the one fact about
runs, and it is a closed condition (`Value.Keyed.closed`), so it is enough that the host does
not hand over maps with keys that it made up.
-/
import Scriptlet.Proofs.Eval.Values

namespace Scriptlet

-- ==================================================== keyed values

/-- That maps are keyed is kept by all operations on collections. -/
theorem Value.Keyed.closed : Value.Closed Value.Keyed where
  atom := Value.keyed_of_atom
  list := Value.keyed_list
  empty := Value.keyed_map.2
    ⟨List.nodup_nil, List.forall_mem_nil _, List.forall_mem_nil _⟩
  put h hv := Value.keyed_put h hv
  entry h := (Value.keyed_map.1 h).2.2

namespace Held

variable {setup : Setup} {s : Held}

/-- All values that turn up in a run are keyed. -/
theorem Reached.keyed (h : Reached setup Value.Keyed s) (hhost : setup.host.KeepsTo Value.Keyed)
    {v : Value} (hv : v ∈ s.seen) : v.Keyed :=
  (h.only Value.Keyed.closed hhost fun _ => id).seen v hv

-- ============================================== keys and equality

/-- Values are the same key if and only if they are equal, and the value of a key is that
key again. So for every map in a run and every value whatsoever, the map holds the value if
and only if the list of its keys does, and if and only if the map can be indexed by it; and
what was put into the map under a value is found under all values that are equal to it. -/
theorem reached_keys :
    (∀ (a b : Value) (ka kb : MapKey), MapKey.ofValue a = .ok ka → MapKey.ofValue b = .ok kb →
      (ka = kb ↔ a.eq b = true))
    ∧ (∀ (v : Value) (key : MapKey), MapKey.ofValue v = .ok key →
      MapKey.ofValue key.value = .ok key)
    ∧ ∀ setup : Setup, setup.host.KeepsTo Value.Keyed → ∀ s, Reached setup Value.Keyed s →
      ∀ entries, .map entries ∈ s.seen → ∀ x : Value,
        (∃ found keys, Prelude.contains (.map entries) x = .ok (.bool found)
          ∧ Prelude.keys (.map entries) = .ok keys
          ∧ Prelude.contains keys x = .ok (.bool found)
          ∧ ((∃ v, (Value.map entries).item x = .ok v) ↔ found = true))
        ∧ ∀ key, MapKey.ofValue x = .ok key → ∀ v,
          ∃ m, (Value.map entries).withItem x v = .ok m ∧ ∀ y, y.eq x = true → m.item y = .ok v :=
  ⟨fun _ _ _ _ => MapKey.eq_iff_eq, fun v _ hkey => MapKey.ofValue_value ⟨v, hkey⟩,
    fun _ hhost _ hs _ hmem x => ⟨(hs.keyed hhost hmem).found x, fun _ => Value.item_of_put⟩⟩

/-- An expression that makes a map with true under negative zero. -/
def zeroed : Expr :=
  .map .start [(.unary .start .negate (.literal .start (.number 0)),
    .literal .start (.bool true))]

/-- The entries of that map. -/
def zeroKeyed : List (MapKey × Value) := [(.number 0, .bool true)]

/-- With the prelude, the map turns up in a run. -/
theorem reached_zeroed :
    ∃ s, Reached ⟨Prelude.host, 200⟩ Value.Keyed s ∧ .map zeroKeyed ∈ s.seen := by
  have hrun : ∃ m, zeroed.eval ⟨Prelude.host, 200⟩ 3 (fresh Prelude.host).machine
      = .done (.map zeroKeyed) m := ⟨_, rfl⟩
  obtain ⟨m, hrun⟩ := hrun
  exact ⟨⟨m, [.map zeroKeyed]⟩, .single (.ran (.expr 3 zeroed) hrun), List.mem_cons_self⟩

/-- The key of the map is what both zeros are, and a value that was put under one of them is
found under the other; not a number is no key of it, whichever way it is asked. -/
theorem reached_keys_zeroed :
    ∃ s, Reached ⟨Prelude.host, 200⟩ Value.Keyed s ∧ .map zeroKeyed ∈ s.seen
      ∧ (Value.number (-0.0)).eq (.number 0) = true
      ∧ MapKey.ofValue (.number (-0.0)) = .ok (.number 0)
      ∧ MapKey.ofValue (MapKey.number 0).value = .ok (.number 0)
      ∧ (∃ v, (Value.map zeroKeyed).item (.number (-0.0)) = .ok v)
      ∧ (¬ ∃ v, (Value.map zeroKeyed).item (.number Number.nan) = .ok v)
      ∧ ∃ m, (Value.map zeroKeyed).withItem (.number (-0.0)) .nil = .ok m
        ∧ m.item (.number 0) = .ok .nil := by
  obtain ⟨hequal, hvalue, hmap⟩ := reached_keys
  have hkey : MapKey.ofValue (.number (-0.0)) = .ok (.number 0) := by rfl
  have hkey' : MapKey.ofValue (.number 0) = .ok (.number 0) := by rfl
  obtain ⟨s, hreached, hseen⟩ := reached_zeroed
  have hlook := hmap _ (Prelude.host_keepsTo Value.Keyed.closed) s hreached zeroKeyed hseen
  -- what the map itself answers decides the rest
  have hthere : Prelude.contains (.map zeroKeyed) (.number (-0.0)) = .ok (.bool true) := by rfl
  have hnowhere : Prelude.contains (.map zeroKeyed) (.number Number.nan) = .ok (.bool false) := by
    rfl
  obtain ⟨⟨_, -, hfound, -, -, hitem⟩, hput⟩ := hlook (.number (-0.0))
  cases hthere.symm.trans hfound
  obtain ⟨⟨_, -, hlost, -, -, hnone⟩, -⟩ := hlook (.number Number.nan)
  cases hnowhere.symm.trans hlost
  have heq := (hequal _ _ _ _ hkey hkey').1 rfl
  have hback := (hequal _ _ _ _ hkey' hkey).1 rfl
  obtain ⟨m', hput, hread⟩ := hput _ hkey .nil
  exact ⟨s, hreached, hseen, heq, hkey, hvalue _ _ hkey, hitem.2 rfl,
    fun hread => Bool.false_ne_true (hnone.1 hread), m', hput, hread _ hback⟩

end Held

-- ========================================================== walks

/-- A `for` loop runs its body on what is visited of the value that it loops over. -/
theorem Stmt.exec_for {setup : Setup} {budget : Nat} {iterable : Expr} {m m' : Machine}
    {c : Value} {visited : List Value} (hiterable : iterable.eval setup budget m = .done c m')
    (hvisited : c.items = .ok visited) (pos : Position) (name : String) (body : List Stmt) :
    Stmt.exec setup (budget + 1) (.for_ pos name iterable body) m
      = Eval.repeatFor (fun item => Eval.block (Stmt.exec setup budget) [(name, item)] body)
          visited m' := by
  rw [Stmt.exec_succ]
  show (iterable.eval setup budget >>= fun c => Run.at iterable.pos c.items >>= _) m = _
  rw [Run.bind_of_done hiterable, hvisited]
  rfl

namespace Held

/-- Length, loops and indices agree on every collection. The length of a list or a string is
how many items a loop visits; the keys that read something are the numbers equal to one below
the length, and they read what the loop visits, in order. Of a string these are its characters,
and an index reads nothing else. A loop over a map that turns up in a run visits its keys, as
many as the length of the map says, and each of them reads the value that stands with it. -/
theorem reached_walks :
    (∀ n ≤ 2 ^ 53, Number.toInt? (Float.ofNat n) = some (n : Int))
    ∧ (∀ c : Value, c.type = .list ∨ c.type = .string →
      ∃ visited, c.items = .ok visited
        ∧ Prelude.len c = .ok (.number (Float.ofNat visited.length))
        ∧ (visited.length ≤ 2 ^ 53 →
          (∀ key, (∃ v, c.item key = .ok v)
            ↔ ∃ i < visited.length, key.eq (.number (Float.ofNat i)) = true)
          ∧ ∀ (i : Nat) (_ : i < visited.length),
            c.item (.number (Float.ofNat i)) = .ok visited[i]))
    ∧ (∀ text : String, (Value.string text).items = .ok (text.toList.map Value.ofChar)
      ∧ ∀ key v, (Value.string text).item key = .ok v → ∃ c ∈ text.toList, v = Value.ofChar c)
    ∧ (∀ setup : Setup, setup.host.KeepsTo Value.Keyed → ∀ s, Reached setup Value.Keyed s →
      ∀ entries, .map entries ∈ s.seen →
        ∃ visited stored, (Value.map entries).items = .ok visited
          ∧ Prelude.keys (.map entries) = .ok (.list visited)
          ∧ Prelude.values (.map entries) = .ok (.list stored)
          ∧ Prelude.len (.map entries) = .ok (.number (Float.ofNat visited.length))
          ∧ List.Forall₂ (fun key v => (Value.map entries).item key = .ok v) visited stored)
    ∧ ∀ (setup : Setup) (budget : Nat) (iterable : Expr) (m m' : Machine) (c : Value) visited,
      iterable.eval setup budget m = .done c m' → c.items = .ok visited →
      ∀ pos name body, Stmt.exec setup (budget + 1) (.for_ pos name iterable body) m
        = Eval.repeatFor (fun item => Eval.block (Stmt.exec setup budget) [(name, item)] body)
            visited m' := by
  refine ⟨fun n => Number.toInt?_ofNat, fun c hc => ?_,
    fun text => ⟨rfl, fun _ _ => Value.item_string⟩,
    fun setup hhost s hs entries hmem => ?_, fun _ _ _ _ _ _ _ => Stmt.exec_for⟩
  · obtain ⟨visited, hvisited⟩ := Value.sequence?_of_type hc
    exact ⟨visited, Value.items_sequence hvisited, Value.len_sequence hvisited,
      fun hn => ⟨Value.item_sequence_ok_iff hvisited hn,
        fun i => Value.item_sequence_position hvisited hn⟩⟩
  · have hwalks := (hs.keyed hhost hmem).walks
    refine ⟨_, _, rfl, rfl, rfl, ?_, hwalks⟩
    rw [hwalks.length_eq, Entries.values, List.length_map]
    rfl

/-- The string `né` has two characters, however many bytes: the indices zero and one read them
and two reads nothing. The one key of the map above reads the one value of it. -/
theorem reached_walks_accented :
    Prelude.len (.string "né") = .ok (.number (Float.ofNat 2))
      ∧ Number.toInt? (Float.ofNat 2) = some 2
      ∧ (Value.string "né").item (.number (Float.ofNat 1)) = .ok (.string "é")
      ∧ (¬ ∃ v, (Value.string "né").item (.number (Float.ofNat 2)) = .ok v)
      ∧ (∃ s, Reached ⟨Prelude.host, 200⟩ Value.Keyed s ∧ .map zeroKeyed ∈ s.seen)
      ∧ (Value.map zeroKeyed).items = .ok [.number 0]
      ∧ (Value.map zeroKeyed).item (.number 0) = .ok (.bool true)
      ∧ ∀ body m, Stmt.exec ⟨Prelude.host, 200⟩ 2
            (.for_ .start "c" (.literal .start (.string "né")) body) m
          = Eval.repeatFor (fun item =>
              Eval.block (Stmt.exec ⟨Prelude.host, 200⟩ 1) [("c", item)] body)
            [.string "n", .string "é"] m := by
  obtain ⟨hexact, hsequences, htexts, hmaps, hloops⟩ := reached_walks
  have hitems : (Value.string "né").items = .ok [.string "n", .string "é"] := (htexts "né").1
  obtain ⟨visited, hvisited, hlen, hindex⟩ := hsequences (.string "né") (.inr rfl)
  cases hitems.symm.trans hvisited
  obtain ⟨hkeys, hread⟩ := hindex (by decide)
  obtain ⟨s, hreached, hseen⟩ := reached_zeroed
  obtain ⟨_, _, hvisits, -, hvalues, -, hwalks⟩ := hmaps _
    (Prelude.host_keepsTo Value.Keyed.closed) _ hreached zeroKeyed hseen
  have hzero : (Value.map zeroKeyed).items = .ok [.number 0] := by rfl
  cases hzero.symm.trans hvisits
  cases hvalues
  refine ⟨hlen, hexact 2 (by decide), hread 1 (by decide), fun hsome => ?_,
    ⟨s, hreached, hseen⟩, hzero, (List.forall₂_cons.1 hwalks).1,
    fun body m => hloops _ 1 _ m m _ _ rfl hitems .start "c" body⟩
  obtain ⟨i, hi, heq⟩ := (hkeys _).1 hsome
  have hnone : ∀ i < 2, (Value.number (Float.ofNat 2)).eq (.number (Float.ofNat i)) = false := by
    decide +kernel
  exact Bool.false_ne_true ((hnone i hi).symm.trans heq)

end Held

end Scriptlet
