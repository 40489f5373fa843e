import TagTemplate.Number.Shortest

/-! How numbers are written. The digits are the shortest that read back; this module decides
their notation: positional for middling sizes, scientific beyond. -/
namespace TagTemplate

/-- The choices of a notation: the powers of ten between which it is positional, and the least
number of digits of a written exponent. -/
structure FloatStyle where
  leastPositional : Int
  greatestPositional : Int
  exponentDigits : Nat
  deriving DecidableEq, Repr

namespace FloatStyle

/-- Positional from `0.0001` to below `10 ^ 16`; an exponent has a sign and two digits. -/
def plain : FloatStyle := ⟨-4, 15, 2⟩

def exponentText (style : FloatStyle) (power : Int) : List Char :=
  let digits := Nat.toDigits 10 power.natAbs
  'e' :: (if power < 0 then '-' else '+') ::
    (List.replicate (style.exponentDigits - digits.length) '0' ++ digits)

/-- A positive decimal in this style. An integer keeps a zero behind its point when positional. -/
def decimalText (style : FloatStyle) (d : Decimal) : List Char :=
  let digits := Nat.toDigits 10 d.digits
  let power := d.exponent + digits.length - 1
  if style.leastPositional ≤ power ∧ power ≤ style.greatestPositional then
    if power < 0 then
      '0' :: '.' :: (List.replicate (-power - 1).toNat '0' ++ digits)
    else
      let whole := digits ++ List.replicate d.exponent.toNat '0'
      let cut := power.toNat + 1
      let fraction := whole.drop cut
      whole.take cut ++ '.' :: (if fraction.isEmpty then ['0'] else fraction)
  else
    let fraction := digits.drop 1
    digits.take 1 ++ (if fraction.isEmpty then [] else '.' :: fraction) ++ style.exponentText power

end FloatStyle

def floatText (x : Float) : String :=
  match Dyadic.ofFloat? x with
  | none => if x.isNaN then "nan" else if x < 0 then "-inf" else "inf"
  | some d =>
    let magnitude :=
      if d.mantissa = 0 then ['0', '.', '0']
      else FloatStyle.plain.decimalText (Decimal.shortest d.mantissa d.exponent)
    String.ofList (if d.negative then '-' :: magnitude else magnitude)

/-- A number as short as it goes: without a fraction as an integer, however long. -/
def numeralText (x : Float) : String :=
  match Dyadic.ofFloat? x with
  | some d => if d.isInteger then toString d.floor else floatText x
  | none => floatText x

end TagTemplate
