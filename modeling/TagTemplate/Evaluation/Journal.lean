import TagTemplate.Evaluation.Session
import TagTemplate.Template.Journal

/-! What is told of running a source, step by step, to whoever asks for it. -/
namespace TagTemplate.Evaluation
open Template

def declaredShown : Nat := 20

def eventLine : Event → Option String
  | .bound name value =>
    let shown := Text.quoted (String.ofList (value.toList.take declaredShown))
    some s!"Declared '{name}' = {shown}"
  | _ => none

/-- What running a tree tells, from the session before it and what came of it. -/
def evaluateJournal (s : Session H σ) (result : Except RunError String) (after : Session H σ) :
    List String :=
  let started :=
    s!"Runtime started (timeout={EvalError.timeoutText s.timeout}ms, " ++
      s!"{s.world.bindings.size} tags in context)"
  let events := after.world.events.take (after.world.events.length - s.world.events.length)
  let declared := events.reverse.filterMap eventLine
  match result with
  | .error (.eval .timeoutTooLarge) => []
  | .error _ => started :: declared
  | .ok text => started :: declared ++ [s!"Runtime finished, produced {text.length} chars"]

def runJournal (s : Session H σ) (source : String) (result : Except RunError String)
    (after : Session H σ) : List String :=
  match result with
  | .error (.read _) => compileJournal source
  | _ => compileJournal source ++ evaluateJournal s result after

end TagTemplate.Evaluation
