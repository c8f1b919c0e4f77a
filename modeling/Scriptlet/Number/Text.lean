/-
How numbers are written and read. A number is shown by its shortest decimal,
always in full and never with an exponent; whole numbers have no point. Reading
takes more than writing gives: exponents, a plus sign, a missing digit on one
side of the point, and infinity and not-a-number by name.
-/
import Scriptlet.Number.Binary
import Scriptlet.Number.Shortest

namespace Scriptlet.Number

-- ========================================================= writing

/-- A decimal written in full. -/
def Decimal.text (d : Decimal) : List Char :=
  let digits := Nat.toDigits 10 d.digits
  let zeros (n : Nat) := List.replicate n '0'
  let places := (-d.power).toNat
  if 0 ≤ d.power then digits ++ zeros d.power.toNat
  else if places < digits.length then
    digits.take (digits.length - places) ++ '.' :: digits.drop (digits.length - places)
  else '0' :: '.' :: zeros (places - digits.length) ++ digits

/-- The text of a finite number's size. -/
def magnitude (mantissa : Nat) (power : Int) : List Char :=
  if mantissa = 0 then ['0'] else (shortest mantissa power leastPower).text

/-- The text of a number. -/
def text (x : Float) : String :=
  let signed (negative : Bool) (digits : List Char) : String :=
    String.ofList (if negative then '-' :: digits else digits)
  match parts x with
  | .nan => "NaN"
  | .infinite negative => signed negative ['i', 'n', 'f']
  | .finite negative mantissa power => signed negative (magnitude mantissa power)

-- ========================================================= reading

/-- The number that decimal digits spell. -/
def digitsValue (digits : List Char) : Nat :=
  digits.foldl (fun n c => 10 * n + (c.toNat - '0'.toNat)) 0

/-- The number nearest to `digits * 10 ^ power`. Beyond the range of numbers
it is infinite or zero, which is decided before any power is computed. -/
def ofDecimal (digits : Nat) (power : Int) : Float :=
  let size : Int := (Nat.toDigits 10 digits).length + power
  if digits = 0 || size < -400 then zero
  else if 400 < size then infinity
  else Float.ofScientific digits (power < 0) power.natAbs

/-- The exponent at the end of a number: nothing, or a mark, perhaps a sign, and
digits. -/
def exponent? : List Char → Option Int
  | [] => some 0
  | mark :: rest =>
      if mark = 'e' || mark = 'E' then
        let (negative, digits) := match rest with
          | '-' :: digits => (true, digits)
          | '+' :: digits => (false, digits)
          | digits => (false, digits)
        if digits.isEmpty || !digits.all Char.isDigit then none
        else some (if negative then -(digitsValue digits : Int) else digitsValue digits)
      else none

/-- Reads a number without a sign. -/
def unsigned? (s : List Char) : Option Float :=
  let word := s.map Char.toLower
  if word = ['i', 'n', 'f'] || word = ['i', 'n', 'f', 'i', 'n', 'i', 't', 'y'] then
    some infinity
  else if word = ['n', 'a', 'n'] then some nan
  else
    let whole := s.takeWhile Char.isDigit
    let rest := s.dropWhile Char.isDigit
    let (fraction, rest) := match rest with
      | '.' :: rest => (rest.takeWhile Char.isDigit, rest.dropWhile Char.isDigit)
      | rest => ([], rest)
    if whole.isEmpty && fraction.isEmpty then none
    else
      (exponent? rest).map fun power =>
        ofDecimal (digitsValue (whole ++ fraction)) (power - fraction.length)

/-- The number that a text spells, or nothing if it spells none. -/
def ofText? (s : String) : Option Float :=
  match s.toList with
  | '-' :: rest => (unsigned? rest).map Float.neg
  | '+' :: rest => unsigned? rest
  | rest => unsigned? rest

end Scriptlet.Number
