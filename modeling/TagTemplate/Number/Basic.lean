import TagTemplate.Number.FloatText
import TagTemplate.Number.Numeral

/-! Numbers of two kinds, integers of any size and binary64 numbers. A value keeps its kind until
something asks for the other. -/
namespace TagTemplate

inductive Number where
  | int (n : Int)
  | float (x : Float)
  deriving DecidableEq

namespace Number

/-- The nearest binary64 number of an integer, unless it is too large for a finite one. -/
def ofInt? (n : Int) : Option Float :=
  let x := Float.ofInt n
  if x.isFinite then some x else none

def toFloat? : Number → Option Float
  | int n => ofInt? n
  | float x => some x

/-- Whether a number has no more digits than may be written. -/
def isWritable : Number → Bool
  | int n => decide (n.natAbs < tenPow Numeral.maxIntegerDigits)
  | float _ => true

def text : Number → String
  | int n => toString n
  | float x => floatText x

/-- The sum stays an integer if both numbers are. An integer too large counts as infinite. -/
def add : Number → Number → Number
  | int m, int n => int (m + n)
  | int m, float y => float (Float.ofInt m + y)
  | float x, int n => float (x + Float.ofInt n)
  | float x, float y => float (x + y)

def floatToInt? (x : Float) (n : Int) : Option Ordering :=
  match Dyadic.ofFloat? x with
  | some d => some (d.compareInt n)
  | none => if x.isNaN then none else some (if x < 0 then .lt else .gt)

/-- The exact order of two numbers; nothing compares with what is no number. -/
def order? : Number → Number → Option Ordering
  | int m, int n => some (compare m n)
  | int m, float y => (floatToInt? y m).map Ordering.swap
  | float x, int n => floatToInt? x n
  | float x, float y =>
    if x < y then some .lt else if y < x then some .gt else if x == y then some .eq else none

end Number
end TagTemplate
