import TagTemplate.Number.Power

/-! Finite binary64 numbers as exact fractions, a mantissa times a power of two. Rounding down and
comparing are done on these, without a rounding error. -/
namespace TagTemplate

/-- The number `mantissa * 2 ^ exponent`, negated where `negative` says so. -/
structure Dyadic where
  negative : Bool
  mantissa : Nat
  exponent : Int
  deriving DecidableEq, Repr

namespace Dyadic

def ofFloat? (x : Float) : Option Dyadic :=
  let bits := x.toBits.toNat
  let negative := decide (twoPow 63 ≤ bits)
  let scale : Nat := bits / twoPow 52 % twoPow 11
  let fraction : Nat := bits % twoPow 52
  if scale = 2047 then none
  else if scale = 0 then some ⟨negative, fraction, -1074⟩
  else some ⟨negative, twoPow 52 + fraction, (scale : Int) - 1075⟩

def signedMantissa (d : Dyadic) : Int :=
  if d.negative then -(d.mantissa : Int) else d.mantissa

/-- The numerator over `2 ^ (-exponent)`, or over one. -/
def numerator (d : Dyadic) : Int :=
  d.signedMantissa * twoPow d.exponent.toNat

def denominator (d : Dyadic) : Nat :=
  twoPow (-d.exponent).toNat

def floor (d : Dyadic) : Int :=
  Int.fdiv d.numerator d.denominator

def isInteger (d : Dyadic) : Bool :=
  d.mantissa * twoPow d.exponent.toNat % d.denominator == 0

def compareInt (d : Dyadic) (n : Int) : Ordering :=
  compare d.numerator (n * d.denominator)

def compare (a b : Dyadic) : Ordering :=
  Ord.compare (a.numerator * b.denominator) (b.numerator * a.denominator)

end Dyadic
end TagTemplate
