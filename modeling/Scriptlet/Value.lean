/-
The values that scripts compute with. Lists and maps are values too: changing
one makes a new one and leaves every other holder of the old one alone. Maps
keep their items in the order in which the keys came.

A function value remembers its code and the frame it was made in. Functions are
the same only if they are the same creation, so each carries an identity.
-/
import Scriptlet.Entries
import Scriptlet.Tree

namespace Scriptlet

-- ============================================================ keys

/-- What a map can be keyed by. Numbers are held by their bits, zero always as
positive zero, so that equal numbers are one key. -/
inductive MapKey where
  | string (s : String)
  | number (bits : UInt64)
  | bool (b : Bool)
  | nil
  deriving DecidableEq, Repr

-- ======================================================= functions

/-- How many arguments a native function takes. -/
inductive Arity where
  | exact (n : Nat)
  | atLeast (n : Nat)
  deriving DecidableEq, Repr

/-- Whether so many arguments will do. -/
def Arity.accepts : Arity → Nat → Bool
  | exact n, count => count == n
  | atLeast n, count => n ≤ count

/-- The wording of an arity. -/
def Arity.text : Arity → String
  | exact 1 => "1 argument"
  | exact n => toString n ++ " arguments"
  | atLeast n => "at least " ++ toString n ++ " arguments"

/-- A function of the script: its code, the frame it was made in, and which
creation it is. -/
structure Closure where
  id : Nat
  code : Code
  frame : Nat

/-- A function of the host, by its place in the host's table. -/
structure Native where
  id : Nat
  name : String
  arity : Arity
  deriving DecidableEq, Repr

-- ========================================================== values

/-- A value. -/
inductive Value where
  | nil
  | bool (b : Bool)
  | number (n : Float)
  | string (s : String)
  | list (items : List Value)
  | map (entries : List (MapKey × Value))
  | function (f : Closure)
  | native (f : Native)

instance : Inhabited Value := ⟨.nil⟩

/-- The types of values, as scripts and messages name them. -/
inductive ValueType where
  | nil | bool | number | string | list | map | function
  deriving DecidableEq, Repr

/-- The name of a type. -/
def ValueType.text : ValueType → String
  | nil => "Nil"
  | bool => "Bool"
  | number => "Number"
  | string => "String"
  | list => "List"
  | map => "Map"
  | function => "Function"

/-- The type of a value. -/
def Value.type : Value → ValueType
  | nil => .nil
  | bool _ => .bool
  | number _ => .number
  | string _ => .string
  | list _ => .list
  | map _ => .map
  | function _ | native _ => .function

/-- Whether a value is nil. -/
def Value.isNil : Value → Bool
  | nil => true
  | _ => false

/-- The value of a literal. -/
def Literal.value : Literal → Value
  | number n => .number n
  | string s => .string s
  | bool b => .bool b
  | nil => .nil

/-- The value that a key was made from, with zero positive. -/
def MapKey.value : MapKey → Value
  | string s => .string s
  | number bits => .number (Float.ofBits bits)
  | bool b => .bool b
  | nil => .nil

-- ======================================================== equality

mutual

/-- Equality of values: by contents, and of functions by identity. Two maps are
equal if they hold equal items under the same keys, in whatever order. Not a
number is equal to nothing. -/
def Value.eq : Value → Value → Bool
  | .nil, .nil => true
  | .bool a, .bool b => a == b
  | .number a, .number b => a == b
  | .string a, .string b => a == b
  | .list a, .list b => Value.eqItems a b
  | .map a, .map b => a.length == b.length && Value.eqEntries a b
  | .function a, .function b => a.id == b.id
  | .native a, .native b => a.id == b.id
  | _, _ => false

/-- Equality item by item. -/
def Value.eqItems : List Value → List Value → Bool
  | [], [] => true
  | a :: as, b :: bs => a.eq b && Value.eqItems as bs
  | _, _ => false

/-- Whether every entry of the first is found in the second. -/
def Value.eqEntries : List (MapKey × Value) → List (MapKey × Value) → Bool
  | [], _ => true
  | (key, a) :: rest, others =>
      (match Entries.get? key others with
        | some b => a.eq b
        | none => false) && Value.eqEntries rest others

end

end Scriptlet
