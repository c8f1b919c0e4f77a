/-
The fewest decimal digits that name a number. A decimal names the number it is
nearest to, so the decimals that name `m * 2 ^ q` form an interval around it.
The search goes through the decimal grids `10 ^ k` from coarse to fine; on the
first grid that has a point in the interval the number's two neighbours are
tried, and the nearer one wins. Of two that are equally near the upper one is
taken.
-/
namespace Scriptlet.Number

/-- The decimal `digits * 10 ^ power`. -/
structure Decimal where
  digits : Nat
  power : Int
  deriving DecidableEq, Repr

/-- The decimals that read back as one number, as multiples of `2 ^ unit`: from
`low` to `high`, with the ends included or not. -/
structure Interval where
  unit : Int
  low : Nat
  value : Nat
  high : Nat
  closed : Bool

/-- The decimals nearest to `mantissa * 2 ^ power`. Its lower neighbour is only
half as far where the number of places changes, and a tie is read as the even
mantissa. -/
def interval (mantissa : Nat) (power leastPower : Int) : Interval :=
  let below := if mantissa = 1 <<< 52 && leastPower < power then 1 else 2
  { unit := power - 2
    low := 4 * mantissa - below
    value := 4 * mantissa
    high := 4 * mantissa + 2
    closed := mantissa % 2 = 0 }

/-- `base ^ power` as a fraction. -/
def powerFraction (base : Nat) (power : Int) : Nat × Nat :=
  if 0 ≤ power then (base.pow power.toNat, 1) else (1, base.pow (-power).toNat)

/-- The point of the grid `10 ^ power` that names the number, if there is
one. -/
def nearestOn (i : Interval) (power : Int) : Option Decimal :=
  let (tens, tenths) := powerFraction 10 power
  let (twos, halves) := powerFraction 2 i.unit
  let step := tens * halves
  let scale := twos * tenths
  let holds (n : Nat) : Bool :=
    if i.closed then i.low * scale ≤ n * step && n * step ≤ i.high * scale
    else i.low * scale < n * step && n * step < i.high * scale
  let value := i.value * scale
  let n := value / step
  let upper := 2 * (value % step) ≥ step
  match holds n, holds (n + 1) with
  | false, false => none
  | true, false => some ⟨n, power⟩
  | false, true => some ⟨n + 1, power⟩
  | true, true => some ⟨if upper then n + 1 else n, power⟩

/-- The first hit on the grids `10 ^ power`, `10 ^ (power - 1)`, …. -/
def search (i : Interval) : Nat → Int → Option Decimal
  | 0, _ => none
  | tries + 1, power =>
      match nearestOn i power with
      | some decimal => some decimal
      | none => search i tries (power - 1)

/-- A decimal without zeros at its end. -/
def Decimal.trimmed (d : Decimal) : Nat → Decimal
  | 0 => d
  | tries + 1 =>
      if d.digits % 10 = 0 && d.digits ≠ 0 then
        Decimal.trimmed ⟨d.digits / 10, d.power + 1⟩ tries
      else d

/-- The shortest decimal for `mantissa * 2 ^ power`, where the mantissa is
positive and `leastPower` the smallest power in use. -/
def shortest (mantissa : Nat) (power leastPower : Int) : Decimal :=
  let size : Int := power + Nat.log2 mantissa
  let top := size * 30103 / 100000 + 2
  match search (interval mantissa power leastPower) 40 top with
  | some decimal => decimal.trimmed 40
  | none => ⟨mantissa, power⟩

end Scriptlet.Number
