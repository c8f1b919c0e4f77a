/-
The prelude: the routines that scripts start with. They print, convert, measure
and build collections. A host may leave the prelude out, and nothing in the
language itself depends on it.
-/
import Scriptlet.Host
import Scriptlet.Value.Item

namespace Scriptlet.Prelude

/-- The first argument of a routine. -/
def first (args : List Value) : Value := args.headD .nil

/-- The second argument of a routine. -/
def second (args : List Value) : Value := args.tail.headD .nil

/-- The message that a routine expected something else. -/
def expected {α : Type} (routine wanted : String) (found : Value) : Except String α :=
  .error (backquoted routine ++ " expected " ++ wanted ++ " but found " ++ found.type.text)

-- ======================================================== printing

/-- The arguments as they are printed, with single spaces between them. -/
def line (args : List Value) : String := String.intercalate " " (args.map Value.display)

/-- Prints its arguments and then `ending`. -/
def printing (ending : String) (args : List Value) (transcript : Transcript) :
    Except String Value × Transcript :=
  (.ok .nil, { transcript with printed := transcript.printed ++ (line args ++ ending) })

-- ===================================================== collections

/-- The number of characters, items or entries. -/
def len (v : Value) : Except String Value :=
  match v with
  | .string s => .ok (.number (Float.ofNat s.length))
  | .list items => .ok (.number (Float.ofNat items.length))
  | .map entries => .ok (.number (Float.ofNat entries.length))
  | v => expected "len" "String, List or Map" v

/-- The list with one more item at its end. -/
def push (v item : Value) : Except String Value :=
  match v with
  | .list items => .ok (.list (items ++ [item]))
  | v => expected "push" "List" v

/-- The keys of a map. -/
def keys (v : Value) : Except String Value :=
  match v with
  | .map entries => .ok (.list ((Entries.keys entries).map MapKey.value))
  | v => expected "keys" "Map" v

/-- The values of a map. -/
def values (v : Value) : Except String Value :=
  match v with
  | .map entries => .ok (.list (Entries.values entries))
  | v => expected "values" "Map" v

/-- Whether `needle` stands somewhere in a text. -/
def occurs (needle : List Char) : List Char → Bool
  | [] => needle.isEmpty
  | c :: rest => needle.isPrefixOf (c :: rest) || occurs needle rest

/-- Whether a collection holds an item: an equal item, a key, or a piece of
text. -/
def contains (v needle : Value) : Except String Value :=
  match v with
  | .list items => .ok (.bool (items.any fun item => item.eq needle))
  | .map entries =>
      match MapKey.ofValue needle with
      | .ok key => .ok (.bool (Entries.has key entries))
      | .error _ => .ok (.bool false)
  | .string text =>
      match needle with
      | .string s => .ok (.bool (occurs s.toList text.toList))
      | other =>
          .error ("`contains` on a String expected a String needle but found " ++ other.type.text)
  | v => expected "contains" "List, Map or String" v

-- =========================================================== range

/-- The whole number an argument of `range` stands for, held within the words
of 64 bits. -/
def bound (v : Value) : Except String Int :=
  match v with
  | .number n =>
      match Number.toInt? n with
      | some i => .ok (max (-0x8000000000000000) (min 0x7fffffffffffffff i))
      | none => .error ("`range` expected an integer but found " ++ Number.text n)
  | v => expected "range" "Number" v

/-- Whether a counter that moves by `step` is still before `stop`. -/
def isBefore (stop step current : Int) : Bool :=
  (decide (0 < step) && decide (current < stop)) || (decide (step < 0) && decide (stop < current))

/-- How far a counter still has to go. -/
def distance (stop step current : Int) : Nat :=
  (if 0 < step then stop - current else current - stop).toNat

/-- A step of a counter that is before `stop` brings it nearer, or beyond. -/
theorem distance_step {stop step current : Int} (h : isBefore stop step current = true) :
    distance stop step (current + step) < distance stop step current := by
  simp only [isBefore, Bool.or_eq_true, Bool.and_eq_true, decide_eq_true_eq] at h
  simp only [distance]
  split <;> omega

/-- Counts on by `step` as long as the counter is before `stop`. What was counted so far is
in `terms`, newest first. -/
def count (stop step current : Int) (terms : List Int) : List Int :=
  if h : isBefore stop step current = true then
    have := distance_step h
    count stop step (current + step) (current :: terms)
  else terms.reverse
termination_by distance stop step current

/-- The terms `start, start + step, …` before `stop`. -/
def progression (start stop step : Int) : List Int := count stop step start []

/-- The progression from one number towards another, which it does not reach. By
default it starts at zero and has step one. -/
def range (args : List Value) : Except String Value := do
  let (start, stop, step) ←
    match args with
    | [stop] => do pure (0, ← bound stop, 1)
    | [start, stop] => do pure (← bound start, ← bound stop, 1)
    | [start, stop, step] => do pure (← bound start, ← bound stop, ← bound step)
    | args =>
        throw ("`range` expected 1 to 3 arguments but received " ++ toString args.length)
  if step = 0 then throw "`range` step must be non-zero"
  return .list ((progression start stop step).map fun i => .number (Float.ofInt i))

-- =========================================================== table

/-- The routines of the prelude. -/
def host : Host :=
  [⟨"print", .atLeast 0, printing ""⟩,
    ⟨"println", .atLeast 0, printing "\n"⟩,
    .quiet "len" (.exact 1) fun args => len (first args),
    .quiet "str" (.exact 1) fun args => .ok (.string (first args).display),
    .quiet "type" (.exact 1) fun args => .ok (.string (first args).type.text),
    .quiet "range" (.atLeast 1) range,
    .quiet "push" (.exact 2) fun args => push (first args) (second args),
    .quiet "keys" (.exact 1) fun args => keys (first args),
    .quiet "values" (.exact 1) fun args => values (first args),
    .quiet "contains" (.exact 2) fun args => contains (first args) (second args)]

end Scriptlet.Prelude
