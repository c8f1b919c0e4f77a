/-
The remainder of a division that rounds down. It takes the sign of the divisor,
unlike the remainder of a division that cuts off, from which it is made. That
first remainder is exact: it is computed on the parts of the two numbers as
whole numbers.
-/
import Scriptlet.Number.Binary

namespace Scriptlet.Number

/-- The remainder of the quotient cut off towards zero. It has the sign of
`a`. -/
def remainder (a b : Float) : Float :=
  match parts a, parts b with
  | .finite negative m p, .finite _ n q =>
      if n = 0 then nan
      else
        let unit := min p q
        ofParts negative ((m <<< (p - unit).toNat) % (n <<< (q - unit).toNat)) unit
  | .finite _ _ _, .infinite _ => a
  | _, _ => nan

/-- The remainder of the quotient rounded down. It has the sign of `b`, unless
it is zero. -/
def modulo (a b : Float) : Float :=
  let r := remainder a b
  if r != zero && decide (r < zero) != decide (b < zero) then r + b else r

end Scriptlet.Number
