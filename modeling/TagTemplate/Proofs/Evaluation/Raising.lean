import TagTemplate.Evaluation.Session
import TagTemplate.Host.Scripted
import TagTemplate.Proofs.Evaluation.Acting
import TagTemplate.Proofs.Evaluation.Sessions
import TagTemplate.Proofs.Template.Documents

/-! What becomes of an error that a tag raises. It leaves every construct around the tag as it is, but
for one: a template takes its parts one by one, and an error that says that there are no more of them
comes out of it as another. At the end one that says that there is no more room is told as too deep a
nesting. Nothing is done behind the call that raised it. -/
namespace TagTemplate.Evaluation
open Template

variable {H σ : Type} {host : Host H σ} {allowance : Allowance} {u : Visit H σ} {w : World H σ}
  {e : EvalError} {name : String} {texts : List String}

namespace Visit

/-- The visit is of a tag, and its call with these texts raises the error and leaves the last world. -/
inductive Raises (host : Host H σ) (allowance : Allowance) :
    Visit H σ → String → List String → EvalError → World H σ → Prop where
  | call {depth : Nat} {name : String} {arguments : List Node} {length : Nat}
    {binding : Binding H} {texts : List String} {front called left : World H σ} {e : EvalError} :
    approach host allowance depth (.tag name arguments length) arguments.length front =
      (.ok (some binding, texts), called) →
    callBinding host binding texts { called with events := .called name texts :: called.events } =
      (.error e, left) →
    Raises host allowance ⟨.tag name arguments length, depth + 1, front⟩ name texts e left

namespace Raises

theorem tagName? (h : u.Raises host allowance name texts e w) :
    u.node.tagName? = some name := by
  cases h with
  | call happroach hcall => rfl

theorem outcome (h : u.Raises host allowance name texts e w) :
    u.outcome host allowance = (.error e, w) := by
  cases h with
  | @call _ name _ _ _ texts _ called _ _ happroach hcall =>
    have hrecord : Eval.record (.called name texts) called =
        (.ok (), { called with events := .called name texts :: called.events }) := rfl
    rw [Visit.outcome, evalNode_of_approach_ok happroach, conclude, Eval.bind_of_ok hrecord]
    exact Eval.bind_of_error hcall

end Raises

end Visit

end TagTemplate.Evaluation
