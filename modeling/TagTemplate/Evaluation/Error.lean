import TagTemplate.Evaluation.Builtin
import TagTemplate.Number.Basic

/-! How an evaluation can fail. -/
namespace TagTemplate.Evaluation

/-- What an error says to the evaluation that it crosses, whatever its name. Errors of many names can
say that there is nothing more to take, or no more room to call in. -/
inductive Sense where
  | plain
  | exhaustion
  | overflow
  deriving DecidableEq, Repr

/-- An error that a host's tag raises: its name in reports, its text, whether it is meant for
whoever wrote the template, and its sense. -/
structure HostError where
  name : String
  text : String
  isUser : Bool
  sense : Sense
  deriving DecidableEq, Repr

inductive EvalError where
  | undefinedTag (name : String)
  | tooDeep
  | timedOut (timeout : Option Number)
  | timeoutTooLarge
  | builtin (e : BuiltinError)
  | valueless (name : String)
  | unknownNode (kind : String)
  /-- An exhaustion, as it shows outside of the template in which the tag stands. -/
  | exhaustedInside
  | notCallable
  | host (e : HostError)
  deriving DecidableEq

namespace EvalError

def name : EvalError → String
  | undefinedTag _ => "UndefinedTag"
  | tooDeep => "EvaluationTooDeep"
  | timedOut _ => "TimeoutExceeded"
  | timeoutTooLarge => "OverflowError"
  | builtin e => e.name
  | valueless _ => "InternalConsistencyError"
  | unknownNode _ => "InternalConsistencyError"
  | exhaustedInside => "RuntimeError"
  | notCallable => "TypeError"
  | host e => e.name

def timeoutText (timeout : Option Number) : String :=
  (timeout.map Number.text).getD "None"

def message : EvalError → String
  | undefinedTag name => s!"{name} is not defined"
  | tooDeep => "Template nesting too deep to evaluate"
  | timedOut timeout => s!"Script execution timed out after {timeoutText timeout}ms"
  | timeoutTooLarge => "int too large to convert to float"
  | builtin e => e.message
  | valueless name => s!"Declaration of '{name}' has no value"
  | unknownNode kind => s!"Unknown node type: {kind}"
  | exhaustedInside => "generator raised StopIteration"
  | notCallable => "'NoneType' object is not callable"
  | host e => e.text

def isUser : EvalError → Bool
  | undefinedTag _ | tooDeep | timedOut _ => true
  | builtin e => e.isUser
  | host e => e.isUser
  | _ => false

def sense : EvalError → Sense
  | host e => e.sense
  | _ => .plain

/-- A template takes its parts one by one, and cannot be told that there are no more. -/
def acrossTemplate (e : EvalError) : EvalError :=
  match e.sense with
  | .exhaustion => exhaustedInside
  | _ => e

/-- How an error is told at the end of an evaluation. -/
def reported (e : EvalError) : EvalError :=
  match e.sense with
  | .overflow => tooDeep
  | _ => e

end EvalError
end TagTemplate.Evaluation
