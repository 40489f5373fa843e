import TagTemplate.Evaluation.World
import TagTemplate.Template.Node

/-! The text of a tree. Nodes are taken in the order of the source: arguments before the call they
belong to, a value before its name is bound, and what a name stands for is settled before its
arguments are looked at. The clock is read on entry to every node and after every call. -/
namespace TagTemplate.Evaluation
open Template

def depthLimit : Nat := 400

/-- The time an evaluation may take: what was asked for, in milliseconds, and the reading of the
clock that ends it. -/
structure Allowance where
  timeout : Option Number
  deadline : Option Float

def checkTime (host : Host H σ) (allowance : Allowance) : Eval H σ Unit := do
  let seconds ← Eval.now host
  if allowance.deadline.any (· < seconds) then .throw (.timedOut allowance.timeout)
  else pure ()

def callBuiltin (host : Host H σ) (b : Builtin) (arguments : List (Option String)) :
    Eval H σ (Option String) := do
  match ← .ofBuiltin (b.outcome arguments) with
  | .text s => pure (some s)
  | .drawn f => do
    let number ← Eval.draw host
    .ofBuiltin (f number)

def callBinding (host : Host H σ) (binding : Binding H) (arguments : List String) :
    Eval H σ String :=
  match binding with
  | .absent => .throw .notCallable
  | .constant value => pure value
  | .builtin b => do
    let result ← callBuiltin host b (arguments.map some)
    pure (result.getD "None")
  | .host h => Eval.callHost host h arguments

def resolve (name : String) : Eval H σ (Binding H) := do
  match (← Eval.bindings).resolve? name with
  | some binding => pure binding
  | none => .throw (.undefinedTag name)

mutual
/-- The text of a node, `depth` levels of which may still be entered. -/
def evalNode (host : Host H σ) (allowance : Allowance) (depth : Nat) (node : Node) :
    Eval H σ String :=
  if depth = 0 then .throw .tooDeep
  else do
    checkTime host allowance
    match node with
    | .text content _ => pure content
    | .quoted _ content _ => pure content
    | .comment _ _ => pure ""
    | .template children _ =>
      return String.join (← Eval.mapError .acrossTemplate
        (evalNodes host allowance (depth - 1) children))
    | .tag name arguments _ => do
      let binding ← resolve name
      let arguments ← evalNodes host allowance (depth - 1) arguments
      Eval.record (.called name arguments)
      let result ← callBinding host binding arguments
      checkTime host allowance
      pure result
    | .declaration name none _ => .throw (.valueless name)
    | .declaration name (some value) _ => do
      Eval.declare name (← evalNode host allowance (depth - 1) value)
      pure ""
    | .foreign kind _ => .throw (.unknownNode kind)

def evalNodes (host : Host H σ) (allowance : Allowance) (depth : Nat) :
    List Node → Eval H σ (List String)
  | [] => pure []
  | node :: rest => do
    let text ← evalNode host allowance depth node
    let texts ← evalNodes host allowance depth rest
    pure (text :: texts)
end

/-- The time that an evaluation beginning now may take. Without a timeout the clock is not read. -/
def allow (host : Host H σ) (timeout : Option Number) : Eval H σ Allowance :=
  match timeout with
  | none => pure ⟨none, none⟩
  | some t => do
    let seconds ← Eval.now host
    match t.toFloat? with
    | some milliseconds => pure ⟨some t, some (seconds + milliseconds / 1000)⟩
    | none => .throw .timeoutTooLarge

def evaluate (host : Host H σ) (timeout : Option Number) (tree : Node) : Eval H σ String := do
  let allowance ← allow host timeout
  Eval.mapError .reported (evalNode host allowance depthLimit tree)

end TagTemplate.Evaluation
