import TagTemplate.Text.Blank
import TagTemplate.Text.Digit

/-! Reading numbers. White space around a numeral is ignored, digits may be of any script, and a
single underscore may stand between two digits. -/
namespace TagTemplate.Numeral
open Text

def isAsciiDigit (c : Char) : Bool :=
  '0' ≤ c && c ≤ '9'

/-- Removes underscores; each must stand between two digits. `digit` says whether the character
before is one. -/
def withoutUnderscores? (digit : Bool) : List Char → Option (List Char)
  | [] => some []
  | '_' :: c :: rest =>
    if digit && isAsciiDigit c then (withoutUnderscores? true rest).map (c :: ·) else none
  | c :: rest =>
    if c = '_' then none else (withoutUnderscores? (isAsciiDigit c) rest).map (c :: ·)

/-- The characters of a numeral in ASCII, as far as they are digits. -/
def prepare? (s : String) : Option (List Char) :=
  withoutUnderscores? false ((trim isSpacing s.toList).map asciiDigit)

def takeSign : List Char → Bool × List Char
  | '-' :: rest => (true, rest)
  | '+' :: rest => (false, rest)
  | cs => (false, cs)

def digitsValue (cs : List Char) : Nat :=
  cs.foldl (fun n c => 10 * n + (c.toNat - '0'.toNat)) 0

/-- An integer with more digits than these is neither read nor written. -/
def maxIntegerDigits : Nat := 4300

def integer? (s : String) : Option Int := do
  let (negative, digits) := takeSign (← prepare? s)
  guard (!digits.isEmpty && digits.all isAsciiDigit && digits.length ≤ maxIntegerDigits)
  let n : Int := digitsValue digits
  return if negative then -n else n

def digitIn? (base : Nat) (c : Char) : Option Nat :=
  let value :=
    if isAsciiDigit c then some (c.toNat - '0'.toNat)
    else if 'a' ≤ c && c ≤ 'f' then some (c.toNat - 'a'.toNat + 10)
    else if 'A' ≤ c && c ≤ 'F' then some (c.toNat - 'A'.toNat + 10)
    else none
  value.filter (· < base)

def digitsValueIn? (base : Nat) (cs : List Char) : Option Nat :=
  cs.foldlM (fun n c => (digitIn? base c).map (base * n + ·)) 0

def withoutBaseMark (base : Nat) (cs : List Char) : List Char :=
  match cs with
  | '0' :: letter :: rest =>
    let announced := match letter.toLower with
      | 'b' => 2
      | 'o' => 8
      | 'x' => 16
      | _ => 0
    if announced = base then rest else cs
  | _ => cs

/-- An integer in base two, eight or sixteen, which the text may announce itself. It has no
underscores. -/
def integerIn? (base : Nat) (s : String) : Option Int := do
  let (negative, cs) := takeSign ((trim isSpacing s.toList).map asciiDigit)
  let digits := withoutBaseMark base cs
  guard (!digits.isEmpty)
  let n : Int ← digitsValueIn? base digits
  return if negative then -n else n

def exponent? : List Char → Option Int
  | [] => some 0
  | c :: rest =>
    let (negative, digits) := takeSign rest
    if (c = 'e' ∨ c = 'E') ∧ digits ≠ [] ∧ digits.all isAsciiDigit then
      let n : Int := digitsValue digits
      some (if negative then -n else n)
    else none

/-- The number nearest to `digits * 10 ^ exponent`; far outside the range it is infinite or zero. -/
def scaled (digits : Nat) (exponent : Int) : Float :=
  let power := exponent + (Nat.toDigits 10 digits).length
  if digits = 0 then 0
  else if 400 < power then 1 / 0
  else if power < -400 then 0
  else Float.ofScientific digits (exponent < 0) exponent.natAbs

def magnitude? (cs : List Char) : Option Float :=
  let whole := cs.takeWhile isAsciiDigit
  let behind := cs.dropWhile isAsciiDigit
  let (fraction, rest) :=
    match behind with
    | '.' :: more => (more.takeWhile isAsciiDigit, more.dropWhile isAsciiDigit)
    | _ => ([], behind)
  if whole.isEmpty && fraction.isEmpty then none
  else (exponent? rest).map fun e => scaled (digitsValue (whole ++ fraction)) (e - fraction.length)

def named? (cs : List Char) : Option Float :=
  let name := String.ofList (cs.map Char.toLower)
  if name = "inf" ∨ name = "infinity" then some (1 / 0)
  else if name = "nan" then some (0 / 0)
  else none

def float? (s : String) : Option Float := do
  let (negative, cs) := takeSign (← prepare? s)
  let x ← (named? cs).or (magnitude? cs)
  return if negative then -x else x

end TagTemplate.Numeral
