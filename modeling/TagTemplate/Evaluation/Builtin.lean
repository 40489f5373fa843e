import TagTemplate.Number.FloatText
import TagTemplate.Number.Numeral
import TagTemplate.Text.Quoted

/-! The tags that every template has: `join`, `random` and `randomNumber`. The random ones are
functions of one draw, a number from zero to below one. -/
namespace TagTemplate.Evaluation

inductive Builtin where
  | join
  | random
  | randomNumber
  deriving DecidableEq, Repr

inductive BuiltinError where
  | missingSeparator
  | missingItem
  | emptyChoice
  /-- A draw outside its range chooses beyond the arguments. -/
  | choiceOutOfRange
  | bareFrom
  | noNumber (role value : String)
  | rangeOrder
  /-- The step into a range is infinite, or no number. -/
  | infiniteStep
  | undefinedStep
  deriving DecidableEq, Repr

namespace BuiltinError

def name : BuiltinError → String
  | missingSeparator => "MissingSeparator"
  | missingItem => "TypeError"
  | emptyChoice => "EmptyChoiceSet"
  | choiceOutOfRange => "IndexError"
  | bareFrom => "InvalidRangeArguments"
  | noNumber .. => "InvalidRangeArguments"
  | rangeOrder => "RangeOrderViolation"
  | infiniteStep => "OverflowError"
  | undefinedStep => "ValueError"

def message : BuiltinError → String
  | missingSeparator => "Must provide a separator"
  | missingItem => "an item is missing"
  | emptyChoice => "Must provide arguments to choose from"
  | choiceOutOfRange => "tuple index out of range"
  | bareFrom => "If a \"from\" argument is provided, a \"to\" one must be as well."
  | noNumber role value => s!"\"{role}\" argument must be a number, got {Text.quoted value}"
  | rangeOrder => "\"from\" argument cannot be larger than \"to\" argument"
  | infiniteStep => "cannot convert float infinity to integer"
  | undefinedStep => "cannot convert float NaN to integer"

def isUser : BuiltinError → Bool
  | missingItem | choiceOutOfRange | infiniteStep | undefinedStep => false
  | _ => true

end BuiltinError

/-- The text of a call, or how it follows from a draw. An argument may be missing, and a missing
one may be chosen. -/
inductive Outcome where
  | text (s : String)
  | drawn (f : Float → Except BuiltinError (Option String))

def floorInt (x : Float) : Except BuiltinError Int :=
  match Dyadic.ofFloat? x with
  | some d => .ok d.floor
  | none => .error (if x.isNaN then .undefinedStep else .infiniteStep)

def join (separator : Option String) (items : List (Option String)) : Except BuiltinError String :=
  match separator with
  | none => .error .missingSeparator
  | some separator =>
    match items.mapM id with
    | some items => .ok (separator.intercalate items)
    | none => .error .missingItem

/-- The item at an index; a negative one counts from the end. -/
def item? (items : List α) (index : Int) : Option α :=
  let index := if index < 0 then index + items.length else index
  if index < 0 then none else items[index.toNat]?

/-- The item that a draw falls on. All have an equal share. -/
def choose (items : List α) (draw : Float) : Except BuiltinError α := do
  let index ← floorInt (draw * Float.ofNat items.length)
  match item? items index with
  | some item => .ok item
  | none => .error .choiceOutOfRange

def bound (role value : String) : Except BuiltinError Float :=
  match Numeral.float? value with
  | some x => if x.isFinite then .ok x else .error (.noNumber role value)
  | none => .error (.noNumber role value)

/-- The bounds of a range. Without a lower bound it goes from 0 to 99. -/
def bounds (low high : Option String) : Except BuiltinError (Float × Float) :=
  match low, high with
  | some _, none => .error .bareFrom
  | some low, some high => do
    let low ← bound "from" low
    let high ← bound "to" high
    return (low, high)
  | none, _ => .ok (0, 99)

/-- The number that a draw falls on: whole steps up from the lower bound, below the upper one. -/
def numberIn (low high draw : Float) : Except BuiltinError String := do
  let step ← floorInt (draw * (high - low))
  return numeralText (low + Float.ofInt step)

/-- What a call of a built-in tag comes to. Arguments that it has no use for are ignored. -/
def Builtin.outcome (b : Builtin) (arguments : List (Option String)) :
    Except BuiltinError Outcome :=
  match b with
  | join => (Evaluation.join (arguments.head?.join) arguments.tail).map .text
  | random => if arguments.isEmpty then .error .emptyChoice else .ok (.drawn (choose arguments))
  | randomNumber => do
    let (low, high) ← bounds (arguments.head?.join) (arguments[1]?.join)
    if high < low then .error .rangeOrder
    else .ok (.drawn fun draw => (numberIn low high draw).map some)

end TagTemplate.Evaluation
