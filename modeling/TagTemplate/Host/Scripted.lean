import TagTemplate.Evaluation.World
import TagTemplate.Random.Generator
import TagTemplate.Value.Basic

/-! A host whose tags follow short scripts: it has a clock that steps on at every reading, a source
of draws, and a record of the calls of its tags. -/
namespace TagTemplate.Host
open Evaluation

inductive Script where
  | echo
  | value (v : Value)
  | count
  | raise (e : EvalError)
  | sleep (milliseconds : Number)
  /-- Tells of each argument whether it is a bound name. -/
  | has
  | set
  | unset
  | call (name : String)
  | noArguments (text : String)

structure Tag where
  name : String
  script : Script

/-- The state of the host: its clock in milliseconds, draws, the calls counted by tag, and the
record of calls, latest first. -/
structure Stage where
  clock : Number
  step : Number
  generator : Random.Generator
  counts : List (String × Nat)
  calls : List (String × List String)

namespace Stage

/-- The clock in seconds. Reading it makes it step on. -/
def now (s : Stage) : Float × Stage :=
  ((s.clock.toFloat?.getD (1 / 0)) / 1000, { s with clock := s.clock.add s.step })

def draw (s : Stage) : Except EvalError Float × Stage :=
  let (number, generator) := s.generator.draw
  (number.elim (.error (.host ⟨"StopIteration", "", false, .exhaustion⟩)) .ok, { s with generator })

def record (s : Stage) (name : String) (arguments : List String) : Stage :=
  { s with calls := (name, arguments) :: s.calls }

def count (s : Stage) (name : String) : Nat × Stage :=
  let n := (s.counts.lookup name).getD 0 + 1
  (n, { s with counts := (name, n) :: s.counts })

end Stage

abbrev Reply := Except EvalError String × Bindings Tag × Stage

def callBuiltin (b : Builtin) (arguments : List String) (bindings : Bindings Tag) (s : Stage) :
    Reply :=
  match b.outcome (arguments.map some) with
  | .error e => (.error (.builtin e), bindings, s)
  | .ok (.text text) => (.ok text, bindings, s)
  | .ok (.drawn f) =>
    let (number, s) := s.draw
    (number.bind fun n => ((f n).map (·.getD "None")).mapError .builtin, bindings, s)

def setBinding (arguments : List String) (bindings : Bindings Tag) (s : Stage) : Reply :=
  match arguments with
  | name :: value :: _ => (.ok "", bindings.insert name (.constant value), s)
  | _ => (.error (.host ⟨"IndexError", "tuple index out of range", false, .plain⟩), bindings, s)

def overflow : EvalError :=
  .host ⟨"RecursionError", "maximum recursion depth exceeded", false, .overflow⟩

/-- Runs a script. Scripts that call others may do so `depth` times, one from within another. -/
def run : (depth : Nat) → Tag → List String → Bindings Tag → Stage → Reply
  | 0, _, _, bindings, s => (.error overflow, bindings, s)
  | depth + 1, tag, arguments, bindings, s =>
    let recorded := s.record tag.name arguments
    match tag.script with
    | .echo => (.ok (tag.name ++ "(" ++ "|".intercalate arguments ++ ")"), bindings, recorded)
    | .value v => (.ok v.toText, bindings, recorded)
    | .count =>
      let (n, s) := recorded.count tag.name
      (.ok (toString n), bindings, s)
    | .raise e => (.error e, bindings, recorded)
    | .sleep milliseconds =>
      (.ok "", bindings, { recorded with clock := recorded.clock.add milliseconds })
    | .has =>
      let flags := arguments.map fun name => if bindings.contains name then "1" else "0"
      (.ok (",".intercalate flags), bindings, recorded)
    | .set => setBinding arguments bindings recorded
    | .unset => (.ok "", arguments.foldl Bindings.erase bindings, recorded)
    | .call name =>
      match bindings.find? name with
      | none => (.error (.host ⟨"KeyError", Text.quoted name, false, .plain⟩), bindings, recorded)
      | some .absent => (.error .notCallable, bindings, recorded)
      | some (.constant value) => (.ok value, bindings, recorded)
      | some (.builtin b) => callBuiltin b arguments bindings recorded
      | some (.host other) => run depth other arguments bindings recorded
    | .noArguments text =>
      if arguments.isEmpty then (.ok text, bindings, recorded)
      else
        (.error (.host ⟨"TypeError", s!"{tag.name} takes no arguments", false, .plain⟩), bindings, s)

def callLimit : Nat := 300

def scripted : Evaluation.Host Tag Stage where
  now := Stage.now
  draw := Stage.draw
  call := run callLimit

end TagTemplate.Host
