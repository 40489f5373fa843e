import TagTemplate.Text.Lower
import TagTemplate.Value.Basic
import TagTemplate.Yaml.Plain
import TagTemplate.Yaml.Token

/-! The values of texts: numbers, truth values, dates and octets, each told by a tag. A text that a
tag calls by the wrong name is an error of its own. -/
namespace TagTemplate.Yaml

def withoutGaps (text : String) : List Char :=
  text.toList.filter (· != '_')

def splitAtMark (mark : Char) : List Char → List (List Char)
  | [] => [[]]
  | c :: rest =>
    match splitAtMark mark rest with
    | part :: parts => if c = mark then [] :: part :: parts else (c :: part) :: parts
    | [] => [[c]]

def integerIn (base : Nat) (cs : List Char) : Except DocumentError Int :=
  let text := String.ofList cs
  match Numeral.integerIn? base text with
  | some n => .ok n
  | none => .error (.noInteger base text)

def decimalInteger (cs : List Char) : Except DocumentError Int :=
  let text := String.ofList cs
  match Numeral.integer? text with
  | some n => .ok n
  | none =>
    if cs.all isDecimal && Numeral.maxIntegerDigits < cs.length then
      .error (.longInteger cs.length)
    else .error (.noInteger 10 text)

/-- An integer without its sign. In the old version a zero in front means base eight, and colons
stand between digits to the base sixty. -/
def magnitudeOf (old : Bool) (cs : List Char) : Except DocumentError Int :=
  match cs with
  | ['0'] => .ok 0
  | '0' :: 'b' :: rest => integerIn 2 rest
  | '0' :: 'x' :: rest => integerIn 16 rest
  | '0' :: 'o' :: rest => integerIn 8 rest
  | _ =>
    if old && cs.isEmpty then .error .emptyNumber
    else if old && cs.head? == some '0' then integerIn 8 cs
    else if old && cs.contains ':' then do
      let digits ← (splitAtMark ':' cs).mapM decimalInteger
      return digits.foldl (fun n digit => 60 * n + digit) 0
    else decimalInteger cs

def integerOf (version : Version) (text : String) : Except DocumentError Int :=
  let cs := withoutGaps text
  if cs.isEmpty then .error .emptyNumber
  else do
    let magnitude ← magnitudeOf (version == .old) (unsigned cs)
    return if cs.head? = some '-' then -magnitude else magnitude

def decimalFloat (cs : List Char) : Except DocumentError Float :=
  let text := String.ofList cs
  match Numeral.float? text with
  | some x => .ok x
  | none => .error (.noFloat text)

/-- The number that digits to the base sixty write, the last one first. -/
def sixtiesValue : (base : Float) → List Float → Float → Float
  | _, [], value => value
  | base, digit :: rest, value => sixtiesValue (base * 60) rest (value + digit * base)

def floatMagnitudeOf (standard : Bool) (cs : List Char) : Except DocumentError Float :=
  if cs = ['.', 'i', 'n', 'f'] then .ok (1 / 0)
  else if cs = ['.', 'n', 'a', 'n'] then .ok (0 / 0)
  else if !standard && cs.contains ':' then do
    let digits ← (splitAtMark ':' cs).mapM decimalFloat
    return sixtiesValue 1 digits.reverse 0
  else if !standard && 2 < (splitAtMark 'e' cs).length then .error .manyExponents
  else decimalFloat cs

def floatOf (version : Version) (text : String) : Except DocumentError Float :=
  let cs := Text.lower (withoutGaps text)
  if cs.isEmpty then .error .emptyNumber
  else do
    let magnitude ← floatMagnitudeOf (version == .standard) (unsigned cs)
    return if cs.head? = some '-' then -magnitude else magnitude

def truthValueOf (text : String) : Except DocumentError Bool :=
  let name := String.ofList (Text.lower text.toList)
  if ["true", "yes", "y", "on"].contains name then .ok true
  else if ["false", "no", "n", "off"].contains name then .ok false
  else .error (.noTruthValue name)

/-- A moment whose fraction may have been rounded up to a whole second, and that second. -/
def withoutCarry (m : Moment) : Moment × Int :=
  match m.time with
  | some t =>
    if 999999 < t.microsecond then ({ m with time := some { t with microsecond := 0 } }, 1)
    else (m, 0)
  | none => (m, 0)

def momentOf (text : String) : Except DocumentError Moment :=
  match timestamp? (withoutLastBreak text.toList) with
  | none => .error .malformed
  | some m =>
    let (m, carried) := withoutCarry m
    match m.problem? with
    | some problem => .error (.noMoment problem)
    | none =>
      match m.addSeconds? carried with
      | some m => .ok m
      | none => .error .momentOutOfRange

def octetsOf (text : String) : Except DocumentError (List UInt8) :=
  let cs := text.toList
  match if cs.all fun c => c.toNat < 0x80 then Text.Octets.ofLetters? cs else none with
  | some os => .ok os
  | none => .error .malformed

def textValue (version : Version) (tag : Tag) (text : String) : Except DocumentError Value :=
  match tag with
  | .null => .ok .null
  | .bool => (truthValueOf text).map .bool
  | .int => (integerOf version text).map Value.int
  | .float => (floatOf version text).map Value.float
  | .timestamp => (momentOf text).map .moment
  | .binary => (octetsOf text).map .octets
  | .text => .ok (.text text)
  | _ => .error .malformed

end TagTemplate.Yaml
