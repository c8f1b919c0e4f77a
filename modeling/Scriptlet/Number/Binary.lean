/-
Numbers taken apart. Every finite number is a whole mantissa times a power of
two, with a sign; `parts` finds them and `ofParts` puts a number together again.
What the language asks of a number beyond arithmetic, such as whether it is
whole or what digits show it, is decided on these parts in exact arithmetic.
-/
namespace Scriptlet.Number

/-- A number by its parts: a finite one is `mantissa * 2 ^ power`, negated if
`negative`. -/
inductive Parts where
  | nan
  | infinite (negative : Bool)
  | finite (negative : Bool) (mantissa : Nat) (power : Int)
  deriving DecidableEq, Repr

/-- The power of two of the smallest positive number. -/
def leastPower : Int := -1074

/-- The parts of a number. The mantissa has 53 bits unless the number is too
small for that. -/
def parts (x : Float) : Parts :=
  let bits := x.toBits.toNat
  let negative := decide (1 <<< 63 ≤ bits)
  let exponent : Nat := bits / (1 <<< 52) % (1 <<< 11)
  let field := bits % (1 <<< 52)
  if exponent = (1 <<< 11) - 1 then
    if field = 0 then .infinite negative else .nan
  else if exponent = 0 then .finite negative field leastPower
  else .finite negative ((1 <<< 52) + field) (leastPower + (exponent - 1 : Nat))

/-- The number with the given finite parts. Mantissa bits below the smallest
place a number has are cut off. -/
def ofParts (negative : Bool) (mantissa : Nat) (power : Int) : Float :=
  let place := max leastPower (power + Nat.log2 mantissa - 52)
  let fitted :=
    if power ≤ place then mantissa >>> (place - power).toNat else mantissa <<< (power - place).toNat
  let exponent := if fitted < 1 <<< 52 then 0 else (place - leastPower).toNat + 1
  let bits := exponent * (1 <<< 52) + fitted % (1 <<< 52) + if negative then 1 <<< 63 else 0
  Float.ofBits (UInt64.ofNat bits)

/-- Positive zero. -/
def zero : Float := Float.ofBits 0

/-- Positive infinity. -/
def infinity : Float := Float.ofBits 0x7ff0000000000000

/-- The result of an operation that has none. -/
def nan : Float := Float.ofBits 0x7ff8000000000000

/-- The whole number that `x` is, if it is one. -/
def toInt? (x : Float) : Option Int :=
  match parts x with
  | .finite negative mantissa power =>
      let whole :=
        if 0 ≤ power then some (mantissa <<< power.toNat)
        else
          let places := (-power).toNat
          let n := mantissa >>> places
          if n <<< places = mantissa then some n else none
      whole.map fun n => if negative then -(n : Int) else n
  | _ => none

end Scriptlet.Number
