import TagTemplate.Evaluation.Error
import TagTemplate.Value.Basic

/-! Errors that a script raises, given by the name of their kind and their arguments. -/
namespace TagTemplate.Host
open Evaluation

def userKinds : List String :=
  ["OccUserError", "EvaluationError", "EvaluationTooDeep", "UndefinedTag", "TimeoutExceeded",
    "BuiltinArgumentError", "MissingSeparator", "EmptyChoiceSet", "InvalidRangeArguments",
    "RangeOrderViolation", "ConfigLoadError"]

def otherKinds : List String :=
  ["ValueError", "RuntimeError", "KeyError", "TypeError", "ZeroDivisionError", "RecursionError",
    "LookupError", "IndexError", "OverflowError", "OSError"]

/-- The text of an error: its argument, or all of them in brackets. A key is shown in quotes. -/
def errorText (kind : String) (arguments : List Value) : String :=
  match arguments with
  | [] => ""
  | [argument] => if kind = "KeyError" then argument.shown else argument.toText
  | _ => (Value.tuple arguments).shown

def timeoutOf : List Value → Option Number
  | [v] => v.number?
  | _ => none

/-- The error of a kind. An evaluation has errors of its own for some kinds, and a kind that is not
known is itself an error. -/
def raised (kind : String) (arguments : List Value) : EvalError :=
  let text := errorText kind arguments
  if !(userKinds ++ otherKinds).contains kind then
    .host ⟨"KeyError", Text.quoted kind, false, .plain⟩
  else if kind = "UndefinedTag" then .undefinedTag text
  else if kind = "TimeoutExceeded" then .timedOut (timeoutOf arguments)
  else
    .host ⟨kind, text, userKinds.contains kind, if kind = "RecursionError" then .overflow else .plain⟩

end TagTemplate.Host
