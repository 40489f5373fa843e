import TagTemplate.Number.Numeral
import TagTemplate.Value.Moment
import TagTemplate.Yaml.Tag

/-! What a plain text stands for, told from its form: nothing, a truth value, a number, a date, the
mark of merged entries, or else itself. A line feed at the end does not change the form. -/
namespace TagTemplate.Yaml

def isDecimal (c : Char) : Bool := '0' ≤ c && c ≤ '9'

def isDecimalOrGap (c : Char) : Bool := isDecimal c || c == '_'

def unsigned : List Char → List Char
  | '+' :: rest => rest
  | '-' :: rest => rest
  | cs => cs

/-- An exponent; its sign may be left out unless it is `signed`. -/
def isExponent (signed : Bool) : List Char → Bool
  | c :: rest =>
    let digits := unsigned rest
    (c == 'e' || c == 'E') && !digits.isEmpty && digits.all isDecimal &&
      (!signed || digits.length < rest.length)
  | [] => false

def isRun (test : Char → Bool) (cs : List Char) : Bool :=
  !cs.isEmpty && cs.all test

def dropSixties : List Char → List Char
  | ':' :: a :: b :: rest =>
    if isDecimal a && isDecimal b then
      (if a ≤ '5' then dropSixties rest else ':' :: a :: b :: rest)
    else if isDecimal a then dropSixties (b :: rest)
    else ':' :: a :: b :: rest
  | [':', a] => if isDecimal a then [] else [':', a]
  | cs => cs

def behindSixties? (cs : List Char) : Option (List Char) :=
  let behind := cs.dropWhile isDecimalOrGap
  if cs.head?.any isDecimal && dropSixties behind != behind then some (dropSixties behind) else none

def isSexagesimal (cs : List Char) : Bool :=
  cs.head? != some '0' && behindSixties? cs == some []

def isSexagesimalFloat (cs : List Char) : Bool :=
  match behindSixties? cs with
  | some ('.' :: rest) => rest.all isDecimalOrGap
  | _ => false

def isNamedFloat (cs : List Char) : Bool :=
  let infinite := [['.', 'i', 'n', 'f'], ['.', 'I', 'n', 'f'], ['.', 'I', 'N', 'F']]
  let none := [['.', 'n', 'a', 'n'], ['.', 'N', 'a', 'N'], ['.', 'N', 'A', 'N']]
  infinite.contains (unsigned cs) || none.contains cs

def isDecimalFloat (cs : List Char) : Bool :=
  let behind := cs.dropWhile isDecimalOrGap
  cs.head?.any isDecimal &&
    match behind with
    | '.' :: rest =>
      let tail := rest.dropWhile isDecimalOrGap
      tail.isEmpty || isExponent false tail
    | _ => isExponent false behind

def isFraction : List Char → Bool
  | '.' :: rest =>
    let tail := rest.dropWhile isDecimalOrGap
    rest.head?.any isDecimalOrGap && (tail.isEmpty || isExponent true tail)
  | _ => false

/-- The forms of numbers with a point or an exponent. In the old version a number that begins with
its point has no sign. -/
def isFloat (old : Bool) (cs : List Char) : Bool :=
  isNamedFloat cs || isDecimalFloat (unsigned cs) ||
    (if old then isFraction cs || isSexagesimalFloat (unsigned cs) else isFraction (unsigned cs))

def isOctalOrGap (c : Char) : Bool := ('0' ≤ c && c ≤ '7') || c == '_'

def isBinaryOrGap (c : Char) : Bool := c == '0' || c == '1' || c == '_'

def isHexOrGap (c : Char) : Bool :=
  isDecimalOrGap c || ('a' ≤ c && c ≤ 'f') || ('A' ≤ c && c ≤ 'F')

/-- The forms of integers in base two, eight, ten and sixteen, without a sign. The old version has
no mark for base eight but a zero. -/
def isMagnitude (old : Bool) (cs : List Char) : Bool :=
  match cs with
  | '0' :: 'b' :: rest => isRun isBinaryOrGap rest
  | '0' :: 'x' :: rest => isRun isHexOrGap rest
  | '0' :: 'o' :: rest => !old && isRun isOctalOrGap rest
  | '0' :: _ => isRun (if old then isOctalOrGap else isDecimalOrGap) cs
  | c :: _ =>
    if old && !isDecimal c then isRun isOctalOrGap cs
    else isRun isDecimalOrGap cs || (old && isSexagesimal cs)
  | [] => false

def isInt (old : Bool) (cs : List Char) : Bool :=
  cs.head? != some '_' && isMagnitude old (unsigned cs)

def takeDigits (least most : Nat) (cs : List Char) : Option (Nat × List Char) :=
  let digits := (cs.take most).takeWhile isDecimal
  if digits.length < least then none
  else some (digits.foldl (fun n d => 10 * n + (d.toNat - '0'.toNat)) 0, cs.drop digits.length)

def expectChar (c : Char) : List Char → Option (List Char)
  | d :: rest => if d = c then some rest else none
  | [] => none

def zoneOf? (cs : List Char) : Option (Option Zone) := do
  let written := cs.dropWhile fun c => c == ' ' || c == '\t'
  let name := String.ofList written
  match written with
  | [] => if cs.isEmpty then some none else none
  | ['Z'] => some (some ⟨0, name⟩)
  | sign :: rest =>
    guard (sign = '+' || sign = '-')
    let (hours, rest) ← takeDigits 1 2 rest
    let (minutes, rest) ←
      if rest.isEmpty then some (0, rest) else takeDigits 2 2 (← expectChar ':' rest)
    guard rest.isEmpty
    let seconds : Int := hours * 3600 + minutes * 60
    some (some ⟨if sign = '-' then -seconds else seconds, name⟩)

/-- Microseconds from the digits of a fraction, the seventh of which rounds. -/
def microseconds (digits : List Char) : Nat :=
  let value (ds : List Char) := ds.foldl (fun n d => 10 * n + (d.toNat - '0'.toNat)) 0
  let six := digits.take 6
  value (six ++ List.replicate (6 - six.length) '0') +
    (if (digits[6]?).any fun d => '4' < d then 1 else 0)

/-- The moment that a text has the form of. It need not be in the calendar. -/
def timestamp? (cs : List Char) : Option Moment := do
  let (year, rest) ← takeDigits 4 4 cs
  let (month, rest) ← takeDigits 1 2 (← expectChar '-' rest)
  let (day, rest) ← takeDigits 1 2 (← expectChar '-' rest)
  match rest with
  | [] => some ⟨year, month, day, none⟩
  | mark :: more =>
    let rest ←
      if mark = 'T' || mark = 't' then some more
      else if mark = ' ' || mark = '\t' then some (more.dropWhile fun c => c == ' ' || c == '\t')
      else none
    let (hour, rest) ← takeDigits 1 2 rest
    let (minute, rest) ← takeDigits 2 2 (← expectChar ':' rest)
    let (second, rest) ← takeDigits 2 2 (← expectChar ':' rest)
    let (fraction, rest) := match rest with
      | '.' :: more => (more.takeWhile isDecimal, more.dropWhile isDecimal)
      | rest => ([], rest)
    let zone ← zoneOf? rest
    some ⟨year, month, day, some ⟨hour, minute, second, microseconds fraction, zone⟩⟩

def isTimestamp (cs : List Char) : Bool :=
  match timestamp? cs with
  | some ⟨_, _, _, none⟩ => cs.length == 10
  | some _ => true
  | none => false

def withoutLastBreak (cs : List Char) : List Char :=
  if cs.getLast? = some '\n' then cs.dropLast else cs

def truthTexts (old : Bool) : List String :=
  ["true", "True", "TRUE", "false", "False", "FALSE"] ++
    if old then ["y", "Y", "yes", "Yes", "YES", "n", "N", "no", "No", "NO", "on", "On", "ON", "off",
      "Off", "OFF"]
    else []

def plainTagOf (old : Bool) (text : String) : Tag :=
  let cs := withoutLastBreak text.toList
  let form := String.ofList cs
  if text = "" || ["~", "null", "Null", "NULL"].contains form then .null
  else if (truthTexts old).contains form then .bool
  else if isFloat old cs then .float
  else if isInt old cs then .int
  else if isTimestamp cs then .timestamp
  else if form = "<<" then .merge
  else if form = "=" then .value
  else if ["!", "&", "*"].contains form then .unknown
  else .text

end TagTemplate.Yaml
