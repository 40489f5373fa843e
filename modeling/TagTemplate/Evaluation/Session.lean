import TagTemplate.Evaluation.Eval
import TagTemplate.Template.Compile

/-! One world that outlives evaluations: sources run in it one after another, and what one of them
declares the next ones see. -/
namespace TagTemplate.Evaluation
open Template

inductive RunError where
  | read (e : ReadError)
  | eval (e : EvalError)

/-- A world with the tree that was run in it last and the time allowed to a run. -/
structure Session (H σ : Type) where
  tree : Node
  timeout : Option Number
  world : World H σ

namespace Session

def start (given : List (String × Binding H)) (timeout : Option Number) (state : σ) :
    Session H σ where
  tree := .template [] 0
  timeout
  world := ⟨.initial given, state, []⟩

def restart (host : Host H σ) (s : Session H σ) : Except RunError String × Session H σ :=
  let (result, world) := evaluate host s.timeout s.tree s.world
  (result.mapError .eval, { s with world })

/-- Runs a source. One that cannot be read leaves the session as it was. -/
def run (host : Host H σ) (s : Session H σ) (source : String) :
    Except RunError String × Session H σ :=
  match compile source with
  | .error e => (.error (.read e), s)
  | .ok tree => restart host { s with tree }

def mapBindings (f : Bindings H → Bindings H) (s : Session H σ) : Session H σ :=
  { s with world := { s.world with bindings := f s.world.bindings } }

def mapState (f : σ → σ) (s : Session H σ) : Session H σ :=
  { s with world := { s.world with state := f s.world.state } }

def set (s : Session H σ) (name value : String) : Session H σ :=
  s.mapBindings (·.insert name (.constant value))

def unset (s : Session H σ) (name : String) : Session H σ :=
  s.mapBindings (·.erase name)

def names (s : Session H σ) : List String :=
  s.world.bindings.names

def shown (s : Session H σ) : String :=
  "Context([" ++ ", ".intercalate (s.names.map Text.quoted) ++ "])"

end Session

def render (host : Host H σ) (given : List (String × Binding H)) (timeout : Option Number)
    (state : σ) (source : String) : Except RunError String × Session H σ :=
  (Session.start given timeout state).run host source

end TagTemplate.Evaluation
