/-
The functions inside values. A value may hold functions of the script at any
depth, and what is known of them has to follow them through every operation:
into a list, out of a map, through the host and back. No operation on values
makes a function; each hands on functions of its operands (`Value.Every`), or
stops with a plain cause. The same goes for whatever else a value has only because
its parts do (`Value.Inherited`), as for the native functions inside it
(`Value.EveryNative`).

# Plain causes

A cause is plain if it speaks about names and values. The two causes that are
not plain speak about the program: a signal that nothing took, and a target that
is no place. Operations on values give plain causes only (`Answers`).
-/
import Scriptlet.Host.Prelude
import Scriptlet.Operator
import Scriptlet.Value.Path

namespace Scriptlet

-- ======================================================= functions

mutual

/-- The functions of the script inside a value, from left to right. -/
def Value.functions : Value → List Closure
  | .list items => Value.itemFunctions items
  | .map entries => Value.entryFunctions entries
  | .function f => [f]
  | .nil | .bool _ | .number _ | .string _ | .native _ => []

def Value.itemFunctions : List Value → List Closure
  | [] => []
  | v :: rest => v.functions ++ Value.itemFunctions rest

def Value.entryFunctions : List (MapKey × Value) → List Closure
  | [] => []
  | (_, v) :: rest => v.functions ++ Value.entryFunctions rest

end

/-- The mutual definition goes through items and entries by itself; these two say what it
collects. -/
@[simp] theorem Value.itemFunctions_eq_flatMap (items : List Value) :
    Value.itemFunctions items = items.flatMap Value.functions := by
  induction items with
  | nil => rfl
  | cons v rest ih => rw [Value.itemFunctions, ih, List.flatMap_cons]

@[simp] theorem Value.entryFunctions_eq_flatMap (entries : List (MapKey × Value)) :
    Value.entryFunctions entries = entries.flatMap fun entry => entry.2.functions := by
  induction entries with
  | nil => rfl
  | cons entry rest ih =>
    obtain ⟨key, v⟩ := entry
    rw [Value.entryFunctions, ih, List.flatMap_cons]

/-- A value all of whose functions have a property. -/
def Value.Every (p : Closure → Prop) (v : Value) : Prop := ∀ f ∈ v.functions, p f

variable {p q : Closure → Prop} {P : Value → Prop} {α β κ : Type}

/-- A condition that follows from another one is met wherever that is. -/
theorem Value.Every.mono {v : Value} (h : v.Every p) (hpq : ∀ f, p f → q f) : v.Every q :=
  fun f hf => hpq f (h f hf)

/-- What a condition on functions comes to for each kind of value. Only a function itself
has anything to show. -/
@[simp] theorem Value.every_list {items : List Value} :
    (Value.list items).Every p ↔ ∀ v ∈ items, v.Every p := by
  simp only [Value.Every, Value.functions, Value.itemFunctions_eq_flatMap, List.mem_flatMap]
  exact ⟨fun h v hv f hf => h f ⟨v, hv, hf⟩, fun h f ⟨v, hv, hf⟩ => h v hv f hf⟩

@[simp] theorem Value.every_map {entries : List (MapKey × Value)} :
    (Value.map entries).Every p ↔ ∀ entry ∈ entries, entry.2.Every p := by
  simp only [Value.Every, Value.functions, Value.entryFunctions_eq_flatMap, List.mem_flatMap]
  exact ⟨fun h e he f hf => h f ⟨e, he, hf⟩, fun h f ⟨e, he, hf⟩ => h e he f hf⟩

@[simp] theorem Value.every_function {f : Closure} : (Value.function f).Every p ↔ p f := by
  simp [Value.Every, Value.functions]

@[simp] theorem Value.every_nil : Value.nil.Every p := nofun

@[simp] theorem Value.every_bool (b : Bool) : (Value.bool b).Every p := nofun

@[simp] theorem Value.every_number (n : Float) : (Value.number n).Every p := nofun

@[simp] theorem Value.every_string (s : String) : (Value.string s).Every p := nofun

@[simp] theorem Value.every_native (f : Native) : (Value.native f).Every p := nofun

/-- A condition that a collection meets if its items do, and that values without parts
meet, functions apart. -/
class Value.Inherited (P : Value → Prop) : Prop where
  list : ∀ {items : List Value}, P (.list items) ↔ ∀ v ∈ items, P v
  map : ∀ {entries : List (MapKey × Value)}, P (.map entries) ↔ ∀ entry ∈ entries, P entry.2
  nil : P .nil
  bool : ∀ b, P (.bool b)
  number : ∀ n, P (.number n)
  string : ∀ s, P (.string s)

instance : Value.Inherited (Value.Every p) where
  list := Value.every_list
  map := Value.every_map
  nil := Value.every_nil
  bool := Value.every_bool
  number := Value.every_number
  string := Value.every_string

/-- A value all of whose native functions have a property. -/
inductive Value.EveryNative (q : Native → Prop) : Value → Prop where
  | native {f : Native} (here : q f) : EveryNative q (.native f)
  | list {items : List Value} (parts : ∀ v ∈ items, EveryNative q v) : EveryNative q (.list items)
  | map {entries : List (MapKey × Value)} (parts : ∀ entry ∈ entries, EveryNative q entry.2) :
      EveryNative q (.map entries)
  | function (f : Closure) : EveryNative q (.function f)
  | nil : EveryNative q .nil
  | bool (b : Bool) : EveryNative q (.bool b)
  | number (n : Float) : EveryNative q (.number n)
  | string (s : String) : EveryNative q (.string s)

instance {q : Native → Prop} : Value.Inherited (Value.EveryNative q) where
  list := ⟨fun | .list parts => parts, .list⟩
  map := ⟨fun | .map parts => parts, .map⟩
  nil := .nil
  bool := .bool
  number := .number
  string := .string

mutual

/-- A property that all native functions have, all inside a value have. -/
theorem Value.everyNative_of_forall {q : Native → Prop} (h : ∀ f, q f) :
    ∀ v : Value, v.EveryNative q
  | .native f => .native (h f)
  | .list items => .list (Value.everyNative_items h items)
  | .map entries => .map (Value.everyNative_entries h entries)
  | .function f => .function f
  | .nil => .nil
  | .bool b => .bool b
  | .number n => .number n
  | .string s => .string s

private theorem Value.everyNative_items {q : Native → Prop} (h : ∀ f, q f) :
    ∀ items : List Value, ∀ v ∈ items, v.EveryNative q
  | [] => List.forall_mem_nil _
  | v :: rest => List.forall_mem_cons.2
      ⟨Value.everyNative_of_forall h v, Value.everyNative_items h rest⟩

private theorem Value.everyNative_entries {q : Native → Prop} (h : ∀ f, q f) :
    ∀ entries : List (MapKey × Value), ∀ entry ∈ entries, entry.2.EveryNative q
  | [] => List.forall_mem_nil _
  | (_, v) :: rest => List.forall_mem_cons.2
      ⟨Value.everyNative_of_forall h v, Value.everyNative_entries h rest⟩

end

/-- A literal has no parts, so an inherited condition has nothing to fail on. The same
goes for a key. -/
theorem Literal.value_inherited [Value.Inherited P] (l : Literal) : P l.value := by
  cases l with
  | number n => exact Value.Inherited.number n
  | string s => exact Value.Inherited.string s
  | bool b => exact Value.Inherited.bool b
  | nil => exact Value.Inherited.nil

theorem MapKey.value_inherited [Value.Inherited P] (key : MapKey) : P key.value := by
  cases key with
  | string s => exact Value.Inherited.string s
  | number bits => exact Value.Inherited.number _
  | bool b => exact Value.Inherited.bool b
  | nil => exact Value.Inherited.nil

@[simp] theorem Literal.value_every (l : Literal) : l.value.Every p := Literal.value_inherited l

@[simp] theorem MapKey.value_every (key : MapKey) : key.value.Every p := MapKey.value_inherited key

-- ========================================================= entries

/-- An entry after a change is the new one or one that was there. -/
theorem Entries.mem_put [DecidableEq κ] {key : κ} {value : α} {entries : Entries κ α}
    {entry : κ × α} (h : entry ∈ entries.put key value) :
    entry = (key, value) ∨ entry ∈ entries := by
  induction entries with
  | nil => exact .inl (List.mem_singleton.1 h)
  | cons first rest ih =>
    obtain ⟨k, v⟩ := first
    rw [Entries.put] at h
    split at h
    · rename_i hk
      rcases List.mem_cons.1 h with rfl | hrest
      · exact .inl (by rw [hk])
      · exact .inr (List.mem_cons_of_mem _ hrest)
    · rcases List.mem_cons.1 h with rfl | hrest
      · exact .inr List.mem_cons_self
      · exact (ih hrest).imp_right (List.mem_cons_of_mem _)

/-- What is found under a key was put there. -/
theorem Entries.mem_of_get? [DecidableEq κ] {key : κ} {value : α} {entries : Entries κ α}
    (h : entries.get? key = some value) : (key, value) ∈ entries := by
  induction entries with
  | nil => cases h
  | cons first rest ih =>
    obtain ⟨k, v⟩ := first
    rw [Entries.get?] at h
    split at h
    · rename_i hk
      cases h
      rw [hk]
      exact List.mem_cons_self
    · exact List.mem_cons_of_mem _ (ih h)

/-- A change keeps what holds of all values, if it holds of the new one. -/
theorem Entries.forall_put [DecidableEq κ] {P : α → Prop} {key : κ} {value : α}
    {entries : Entries κ α} (hvalue : P value) (h : ∀ entry ∈ entries, P entry.2) :
    ∀ entry ∈ entries.put key value, P entry.2 := by
  intro entry hentry
  rcases Entries.mem_put hentry with rfl | hold
  · exact hvalue
  · exact h entry hold

-- ========================================================= answers

/-- Whether a cause speaks about names and values, and not about the program. -/
def Cause.isPlain : Cause → Bool
  | .uncaught _ | .invalidTarget => false
  | _ => true

/-- The answer of an operation: a result that `Q` holds of, or a plain cause. -/
def Answers (Q : α → Prop) : Except Cause α → Prop
  | .ok a => Q a
  | .error cause => cause.isPlain = true

/-- Operations in a row. What the first gives is all the second may use. -/
theorem Answers.bind {Q : α → Prop} {Q' : β → Prop} {x : Except Cause α}
    {k : α → Except Cause β} (hx : Answers Q x) (hk : ∀ a, Q a → Answers Q' (k a)) :
    Answers Q' (x >>= k) := by
  cases x with
  | error cause => exact hx
  | ok a => exact hk a hx

/-- An answer with places: a result, or a plain cause at a place that is `good`. -/
def AnswersAt (good : Position → Prop) (Q : α → Prop) : Except Fault α → Prop
  | .ok a => Q a
  | .error fault => fault.cause.isPlain = true ∧ good fault.pos

/-- The same where causes have been placed. -/
theorem AnswersAt.bind {good : Position → Prop} {Q : α → Prop} {Q' : β → Prop}
    {x : Except Fault α} {k : α → Except Fault β} (hx : AnswersAt good Q x)
    (hk : ∀ a, Q a → AnswersAt good Q' (k a)) : AnswersAt good Q' (x >>= k) := by
  cases x with
  | error fault => exact hx
  | ok a => exact hk a hx

/-- Placing a plain cause at a good position gives a good fault. -/
theorem Answers.at {good : Position → Prop} {Q : α → Prop} {result : Except Cause α}
    (h : Answers Q result) {pos : Position} (hpos : good pos) :
    AnswersAt good Q (Fault.at pos result) := by
  cases result with
  | error cause => exact ⟨h, hpos⟩
  | ok a => exact h

-- ====================================================== operations

/-- Whether a value can be a key is decided by its type. -/
theorem MapKey.ofValue_answers (v : Value) : Answers (fun _ => True) (MapKey.ofValue v) := by
  cases v with
  | number n =>
    rw [MapKey.ofValue]
    split
    · rfl
    · trivial
  | _ => trivial

/-- A position that is found is one of the sequence: anything else is out of range. -/
private theorem Sequence.position_answers (what : Sequence) (key : Value) (length : Nat) :
    Answers (· < length) (what.position key length) := by
  unfold Sequence.position
  split
  · split
    · rfl
    · rename_i i _
      split
      · rename_i hrange
        simp only [Bool.and_eq_true, decide_eq_true_eq] at hrange
        show i.toNat < length
        omega
      · rfl
  · rfl

/-- The item comes from the collection or is a character, so it has whatever the
collection hands on. -/
theorem Value.item_answers [Inherited P] {collection : Value} (h : P collection) (key : Value) :
    Answers P (collection.item key) := by
  cases collection with
  | list items =>
    refine (Sequence.position_answers .list key items.length).bind fun i hi => ?_
    show P (items.getD i .nil)
    rw [List.getD_eq_getElem?_getD, List.getElem?_eq_getElem hi]
    exact Value.Inherited.list.1 h _ (List.getElem_mem hi)
  | string s =>
    refine (Sequence.position_answers .string key s.toList.length).bind fun i _ => ?_
    show P (Option.getD _ _)
    cases s.toList[i]? with
    | none => exact Value.Inherited.nil
    | some c => exact Value.Inherited.string _
  | map entries =>
    refine (MapKey.ofValue_answers key).bind fun k _ => ?_
    cases hfound : Entries.get? k entries with
    | none => rfl
    | some v => exact Value.Inherited.map.1 h _ (Entries.mem_of_get? hfound)
  | _ => rfl

private theorem Value.withItem_answers [Inherited P] {collection value : Value} (h : P collection)
    (hvalue : P value) (key : Value) :
    Answers P (collection.withItem key value) := by
  cases collection with
  | list items =>
    refine (Sequence.position_answers .list key items.length).bind fun i _ => ?_
    refine Value.Inherited.list.2 fun v hv => ?_
    rcases List.mem_or_eq_of_mem_set hv with hold | rfl
    · exact Value.Inherited.list.1 h v hold
    · exact hvalue
  | map entries =>
    refine (MapKey.ofValue_answers key).bind fun k _ => ?_
    exact Value.Inherited.map.2 (Entries.forall_put hvalue (Value.Inherited.map.1 h))
  | _ => rfl

/-- A loop sees items, characters or keys. -/
theorem Value.items_answers [Inherited P] {v : Value} (h : P v) :
    Answers (fun items => ∀ item ∈ items, P item) v.items := by
  cases v with
  | list items => exact Value.Inherited.list.1 h
  | map entries =>
    intro item hitem
    obtain ⟨key, -, rfl⟩ := List.mem_map.1 hitem
    exact MapKey.value_inherited key
  | string s =>
    intro item hitem
    obtain ⟨c, -, rfl⟩ := List.mem_map.1 hitem
    exact Value.Inherited.string _
  | _ => rfl

/-- A condition that is no truth value is a plain cause. -/
theorem Value.truth_answers (demand : Demand) (v : Value) :
    Answers (fun _ => True) (v.truth demand) := by
  cases v <;> trivial

/-- Operators give numbers, strings and truth values only, which hand on nothing. -/
theorem UnaryOp.apply_answers [Value.Inherited P] (op : UnaryOp) (v : Value) :
    Answers P (op.apply v) := by
  cases op with
  | negate => cases v <;> first | exact Value.Inherited.number _ | rfl
  | not => exact (Value.truth_answers .negation v).bind fun b _ => Value.Inherited.bool _

private theorem BinaryOp.arithmetic_answers [Value.Inherited P] (op : BinaryOp)
    {f : Float → Float → Except Cause Float}
    (hf : ∀ a b, Answers (fun _ => True) (f a b)) (left right : Value) :
    Answers P (op.arithmetic f left right) := by
  unfold BinaryOp.arithmetic
  split
  · exact (hf _ _).bind fun n _ => Value.Inherited.number n
  · rfl

private theorem BinaryOp.order_answers [Value.Inherited P] (op : BinaryOp)
    (numbers : Float → Float → Bool)
    (strings : String → String → Bool) (left right : Value) :
    Answers P (op.order numbers strings left right) := by
  unfold BinaryOp.order
  split
  · exact Value.Inherited.bool _
  · exact Value.Inherited.bool _
  · rfl

/-- Each operator is of one of the two kinds, or it compares for equality or joins strings. -/
theorem BinaryOp.apply_answers [Value.Inherited P] (op : BinaryOp) (left right : Value) :
    Answers P (op.apply left right) := by
  have hnumber (n : Float) : Answers (fun _ => True) (Except.ok n) := trivial
  have hdivisor {zero : Bool} {cause : Cause} (hcause : cause.isPlain = true) (n : Float) :
      Answers (fun _ => True) (if zero then Except.error cause else Except.ok n) := by
    cases zero with
    | false => trivial
    | true => exact hcause
  cases op with
  | add =>
    unfold BinaryOp.apply
    dsimp only
    split
    · exact Value.Inherited.string _
    · exact BinaryOp.arithmetic_answers _ (fun _ _ => hnumber _) _ _
  | sub | mul | pow => exact BinaryOp.arithmetic_answers _ (fun _ _ => hnumber _) left right
  | div | mod => exact BinaryOp.arithmetic_answers _ (fun _ _ => hdivisor rfl _) left right
  | equal | notEqual => exact Value.Inherited.bool _
  | less | lessEqual | greater | greaterEqual => exact BinaryOp.order_answers _ _ _ left right

-- =========================================================== paths

/-- Going down a path gives what is inside the root, or a plain cause at one of the path's
positions. -/
theorem Value.load_answers [Inherited P] {good : Position → Prop} {root : Value} (h : P root)
    {path : Path} (hpath : ∀ step ∈ path, good step.2) :
    AnswersAt good P (root.load path) := by
  induction path generalizing root with
  | nil => exact h
  | cons step path ih =>
    obtain ⟨hstep, hrest⟩ := List.forall_mem_cons.1 hpath
    refine ((Value.item_answers h step.1).at hstep).bind fun inner hinner => ?_
    exact ih hinner hrest

/-- Storing rebuilds the collections on the path, each from what it held and from the
rebuilt one inside it. -/
theorem Value.store_answers [Inherited P] {good : Position → Prop} {root value : Value} (h : P root)
    (hvalue : P value) {path : Path} (hpath : ∀ step ∈ path, good step.2) :
    AnswersAt good P (root.store path value) := by
  induction path generalizing root with
  | nil => exact hvalue
  | cons step path ih =>
    obtain ⟨key, pos⟩ := step
    obtain ⟨hstep, hrest⟩ := List.forall_mem_cons.1 hpath
    cases path with
    | nil => exact (Value.withItem_answers h hvalue key).at hstep
    | cons next path =>
      refine ((Value.item_answers h key).at hstep).bind fun inner hinner => ?_
      refine (ih hinner hrest).bind fun inner hinner => ?_
      exact (Value.withItem_answers h hinner key).at hstep

-- ======================================================== the host

/-- A host whose routines hand out only functions with a property when they are
given only such. -/
def Host.Lends (host : Host) (p : Closure → Prop) : Prop :=
  ∀ routine ∈ host, ∀ args : List Value, (∀ v ∈ args, v.Every p) → ∀ transcript v,
    (routine.run args transcript).1 = .ok v → v.Every p

/-- Without routines, nothing is handed out. -/
theorem Host.lends_nil (p : Closure → Prop) : Host.Lends [] p := fun _ hroutine => nomatch hroutine

/-- A routine that lends functions only gives back those it was given. -/
theorem Native.call_answers {host : Host} (h : host.Lends p) (native : Native) {args : List Value}
    (hargs : ∀ v ∈ args, v.Every p) (transcript : Transcript) :
    Answers (Value.Every p) (native.call host args transcript).1 := by
  unfold Native.call
  split
  · unfold Host.run
    cases hrow : host[native.id]? with
    | none => rfl
    | some routine =>
      have hlends := h routine (List.mem_of_getElem? hrow) args hargs transcript
      dsimp only
      generalize routine.run args transcript = answer at hlends ⊢
      obtain ⟨result, written⟩ := answer
      cases result with
      | error message => rfl
      | ok v => exact hlends v rfl
  · rfl

namespace Prelude

private theorem first_every {args : List Value} (h : ∀ v ∈ args, v.Every p) :
    (first args).Every p := by
  cases args with
  | nil => exact Value.every_nil
  | cons v rest => exact h v List.mem_cons_self

private theorem second_every {args : List Value} (h : ∀ v ∈ args, v.Every p) :
    (second args).Every p := by
  cases args with
  | nil => exact Value.every_nil
  | cons v rest => exact first_every (List.forall_mem_cons.1 h).2

/-- The prelude's collections are made of what they are made from. -/
private theorem push_every {v item w : Value} (hv : v.Every p) (hitem : item.Every p)
    (h : push v item = .ok w) : w.Every p := by
  cases v with
  | list items =>
    cases h
    rw [Value.every_list] at hv ⊢
    intro x hx
    rcases List.mem_append.1 hx with hold | hnew
    · exact hv x hold
    · rw [List.mem_singleton.1 hnew]
      exact hitem
  | _ => cases h

private theorem keys_every {v w : Value} (h : keys v = .ok w) : w.Every p := by
  cases v with
  | map entries =>
    cases h
    refine Value.every_list.2 fun x hx => ?_
    obtain ⟨key, -, rfl⟩ := List.mem_map.1 hx
    exact MapKey.value_every key
  | _ => cases h

private theorem values_every {v w : Value} (hv : v.Every p) (h : values v = .ok w) : w.Every p := by
  cases v with
  | map entries =>
    cases h
    refine Value.every_list.2 fun x hx => ?_
    obtain ⟨entry, hentry, rfl⟩ := List.mem_map.1 hx
    exact Value.every_map.1 hv entry hentry
  | _ => cases h

private theorem len_every {v w : Value} (h : len v = .ok w) : w.Every p := by
  cases v <;> cases h <;> exact Value.every_number _

private theorem contains_every {v needle w : Value} (h : contains v needle = .ok w) :
    w.Every p := by
  unfold contains at h
  split at h
  · cases h
    exact Value.every_bool _
  · split at h <;> cases h <;> exact Value.every_bool _
  · split at h <;> cases h
    exact Value.every_bool _
  · cases h

/-- A range is a list of numbers. -/
theorem range_numbers {args : List Value} {w : Value} (h : range args = .ok w) :
    ∃ terms : List Int, w = .list (terms.map fun i => .number (Float.ofInt i)) := by
  have hterms (start stop step : Int)
      (h : (if step = 0 then .error "`range` step must be non-zero"
        else .ok (.list ((progression start stop step).map fun i => .number (Float.ofInt i))) :
        Except String Value) = .ok w) :
      ∃ terms : List Int, w = .list (terms.map fun i => .number (Float.ofInt i)) := by
    split at h
    · cases h
    · exact ⟨_, (Except.ok.inj h).symm⟩
  match args with
  | [] => cases h
  | [a] =>
    simp only [range] at h
    cases hstop : bound a with
    | error message => rw [hstop] at h; cases h
    | ok stop => rw [hstop] at h; exact hterms 0 stop 1 h
  | [a, b] =>
    simp only [range] at h
    cases hstart : bound a with
    | error message => rw [hstart] at h; cases h
    | ok start =>
      cases hstop : bound b with
      | error message => rw [hstart, hstop] at h; cases h
      | ok stop => rw [hstart, hstop] at h; exact hterms start stop 1 h
  | [a, b, c] =>
    simp only [range] at h
    cases hstart : bound a with
    | error message => rw [hstart] at h; cases h
    | ok start =>
      cases hstop : bound b with
      | error message => rw [hstart, hstop] at h; cases h
      | ok stop =>
        cases hstep : bound c with
        | error message => rw [hstart, hstop, hstep] at h; cases h
        | ok step => rw [hstart, hstop, hstep] at h; exact hterms start stop step h
  | _ :: _ :: _ :: _ :: rest => cases h

private theorem range_every {args : List Value} {w : Value} (h : range args = .ok w) :
    w.Every p := by
  obtain ⟨terms, rfl⟩ := range_numbers h
  refine Value.every_list.2 fun x hx => ?_
  obtain ⟨i, -, rfl⟩ := List.mem_map.1 hx
  exact Value.every_number _

/-- The prelude only hands on the functions it is given. -/
theorem host_lends (p : Closure → Prop) : host.Lends p := by
  intro routine hmem args hargs transcript v h
  simp only [host, List.mem_cons, List.not_mem_nil, or_false] at hmem
  rcases hmem with rfl | rfl | rfl | rfl | rfl | rfl | rfl | rfl | rfl | rfl
  · cases h
    exact Value.every_nil
  · cases h
    exact Value.every_nil
  · exact len_every h
  · cases h
    exact Value.every_string _
  · cases h
    exact Value.every_string _
  · exact range_every h
  · exact push_every (first_every hargs) (second_every hargs) h
  · exact keys_every h
  · exact values_every (first_every hargs) h
  · exact contains_every h

end Prelude

end Scriptlet
