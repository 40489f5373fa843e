import TagTemplate.Evaluation.Bindings
import TagTemplate.Evaluation.Error

/-! The world that an evaluation reads and changes: bindings, and whatever lies beyond the
template, namely a clock, random draws and the host's own tags. -/
namespace TagTemplate.Evaluation

/-- What a host provides. It keeps a state of type `σ` of its own, and its tags are of type `H`. A
tag gets its arguments as texts and may change the bindings. -/
structure Host (H σ : Type) where
  now : σ → Float × σ
  draw : σ → Except EvalError Float × σ
  call : H → List String → Bindings H → σ → Except EvalError String × Bindings H × σ

inductive Event where
  | read (seconds : Float)
  | called (name : String) (arguments : List String)
  | bound (name value : String)
  deriving DecidableEq

/-- Bindings, the state of the host, and what has happened, latest first. -/
structure World (H σ : Type) where
  bindings : Bindings H
  state : σ
  events : List Event

/-- A computation that may fail, and that changes the world also where it does. -/
abbrev Eval (H σ α : Type) := World H σ → Except EvalError α × World H σ

namespace Eval

instance : Monad (Eval H σ) where
  pure a := fun w => (.ok a, w)
  bind x f := fun w =>
    match x w with
    | (.ok a, w) => f a w
    | (.error e, w) => (.error e, w)

def throw (e : EvalError) : Eval H σ α := fun w => (.error e, w)

def mapError (f : EvalError → EvalError) (x : Eval H σ α) : Eval H σ α := fun w =>
  let (result, w) := x w
  (result.mapError f, w)

def bindings : Eval H σ (Bindings H) := fun w => (.ok w.bindings, w)

def record (event : Event) : Eval H σ Unit := fun w =>
  (.ok (), { w with events := event :: w.events })

def declare (name value : String) : Eval H σ Unit := fun w =>
  (.ok (), { w with
    bindings := w.bindings.insert name (.constant value)
    events := .bound name value :: w.events })

def now (host : Host H σ) : Eval H σ Float := fun w =>
  let (seconds, state) := host.now w.state
  (.ok seconds, { w with state, events := .read seconds :: w.events })

def draw (host : Host H σ) : Eval H σ Float := fun w =>
  let (number, state) := host.draw w.state
  (number, { w with state })

def callHost (host : Host H σ) (h : H) (arguments : List String) : Eval H σ String := fun w =>
  let (result, bindings, state) := host.call h arguments w.bindings w.state
  (result, { w with bindings, state })

def ofBuiltin (result : Except BuiltinError α) : Eval H σ α := fun w =>
  (result.mapError .builtin, w)

end Eval
end TagTemplate.Evaluation
