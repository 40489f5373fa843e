import TagTemplate.Number.Dyadic

/-! The fewest decimal digits that read back as a given binary64 number, and of those the nearest.
The search runs over exact fractions: a grid of decimals with more and more digits is tried until
one of the two neighbours of the number lies in the interval that rounds to it. -/
namespace TagTemplate

structure Decimal where
  digits : Nat
  exponent : Int
  deriving DecidableEq, Repr

namespace Decimal

/-- The open or closed interval of reals that round to one number, over a common denominator. -/
structure Interval where
  low : Nat
  value : Nat
  high : Nat
  denominator : Nat
  closed : Bool
  deriving Repr

/-- The interval of a mantissa and an exponent. It reaches half a unit to both sides, and half as
far down where the unit below is half as large. The ends belong to even mantissas. -/
def Interval.ofDyadic (mantissa : Nat) (exponent : Int) : Interval :=
  let down := if mantissa = twoPow 52 ∧ exponent ≠ -1074 then 1 else 2
  let up := twoPow (exponent - 2).toNat
  { low := (4 * mantissa - down) * up
    value := 4 * mantissa * up
    high := (4 * mantissa + 2) * up
    denominator := twoPow (2 - exponent).toNat
    closed := mantissa % 2 = 0 }

/-- The place of the first digit of `value / denominator`: the greatest `e` with
`10 ^ e ≤ value / denominator`, looked for upwards from `least`. -/
def leadingPlace (value denominator : Nat) (least : Int) : Nat → Int
  | 0 => least
  | fuel + 1 =>
    let next := least + 1
    if tenPow next.toNat * denominator ≤ value * tenPow (-next).toNat then
      leadingPlace value denominator next fuel
    else least

def Interval.holds (i : Interval) (digits : Nat) (exponent : Int) : Bool :=
  let point := digits * tenPow exponent.toNat * i.denominator
  let unit := tenPow (-exponent).toNat
  if i.closed then i.low * unit ≤ point && point ≤ i.high * unit
  else i.low * unit < point && point < i.high * unit

/-- The neighbour of the number on the grid `10 ^ exponent` that reads back: the nearer one where
both do, and the even one where they are equally near. -/
def Interval.nearest? (i : Interval) (exponent : Int) : Option Nat :=
  let scaled := i.value * tenPow (-exponent).toNat
  let unit := i.denominator * tenPow exponent.toNat
  let below := scaled / unit
  let twice := 2 * (scaled % unit)
  let lower := i.holds below exponent
  let upper := i.holds (below + 1) exponent
  if lower && upper then
    if twice < unit || (twice == unit && below % 2 == 0) then some below else some (below + 1)
  else if lower then some below
  else if upper then some (below + 1)
  else none

/-- Tries grids from `exponent` down; seventeen digits always suffice. -/
def Interval.search (i : Interval) : (fuel : Nat) → (exponent : Int) → Decimal
  | 0, exponent => ⟨i.value / i.denominator, exponent⟩
  | fuel + 1, exponent =>
    match i.nearest? exponent with
    | some digits => ⟨digits, exponent⟩
    | none => i.search fuel (exponent - 1)

def trim : (fuel : Nat) → Decimal → Decimal
  | 0, d => d
  | fuel + 1, d =>
    if d.digits % 10 = 0 ∧ d.digits ≠ 0 then trim fuel ⟨d.digits / 10, d.exponent + 1⟩ else d

def shortest (mantissa : Nat) (exponent : Int) : Decimal :=
  let i := Interval.ofDyadic mantissa exponent
  let place := leadingPlace i.value i.denominator (-325) 650
  trim 20 (i.search 18 place)

end Decimal
end TagTemplate
