import TagTemplate.Evaluation.Eval
import TagTemplate.Proofs.Template.Places

/-! Nodes of all kinds are evaluated by one scheme: something may have to be settled first, then the
parts are evaluated one after another, and their texts are what the node concludes with. What passes
along this scheme from the parts to the node holds of the evaluation of every tree. -/
namespace TagTemplate.Evaluation
open Template

variable {H σ α β : Type}

namespace Eval

variable {x : Eval H σ α} {f : α → Eval H σ β} {w v u : World H σ} {a : α} {b : β} {e : EvalError}

theorem bind_of_ok (h : x w = (.ok a, v)) : (x >>= f) w = f a v := by
  simp only [bind, h]

theorem bind_of_error (h : x w = (.error e, v)) : (x >>= f) w = (.error e, v) := by
  simp only [bind, h]

theorem bind_eq_ok (h : (x >>= f) w = (.ok b, u)) :
    ∃ a v, x w = (.ok a, v) ∧ f a v = (.ok b, u) := by
  rcases hx : x w with ⟨_ | a, v⟩
  · rw [bind_of_error hx] at h
    cases h
  · rw [bind_of_ok hx] at h
    exact ⟨a, v, rfl, h⟩

theorem mapError_of_ok {k : EvalError → EvalError} (h : x w = (.ok a, v)) :
    mapError k x w = (.ok a, v) := by
  simp only [mapError, h]
  rfl

theorem mapError_of_error {k : EvalError → EvalError} (h : x w = (.error e, v)) :
    mapError k x w = (.error (k e), v) := by
  simp only [mapError, h]
  rfl

theorem mapError_eq_ok {k : EvalError → EvalError} (h : mapError k x w = (.ok a, v)) :
    x w = (.ok a, v) := by
  rcases hx : x w with ⟨e | b, u⟩
  · rw [mapError_of_error hx] at h
    cases h
  · rwa [mapError_of_ok hx] at h

theorem mapError_id (x : Eval H σ α) : mapError id x = x := by
  funext w
  rcases hx : x w with ⟨e | a, v⟩
  · rw [mapError_of_error hx]
    rfl
  · rw [mapError_of_ok hx]

theorem mapError_pure (k : EvalError → EvalError) (a : α) :
    mapError k (pure a : Eval H σ α) = pure a := rfl

theorem mapError_bind (k : EvalError → EvalError) (x : Eval H σ α) (f : α → Eval H σ β) :
    mapError k (x >>= f) = mapError k x >>= fun a => mapError k (f a) := by
  funext w
  rcases hx : x w with ⟨e | a, v⟩
  · rw [mapError_of_error (bind_of_error hx), bind_of_error (mapError_of_error hx)]
  · rw [bind_of_ok (mapError_of_ok hx), mapError, bind_of_ok hx]
    rfl

theorem mapError_mapError (k l : EvalError → EvalError) (x : Eval H σ α) :
    mapError k (mapError l x) = mapError (k ∘ l) x := by
  funext w
  rcases hx : x w with ⟨e | a, v⟩
  · rw [mapError_of_error (mapError_of_error hx), mapError_of_error hx]
    rfl
  · rw [mapError_of_ok (mapError_of_ok hx), mapError_of_ok hx]

end Eval

instance : LawfulMonad (Eval H σ) :=
  LawfulMonad.mk' _
    (fun x => by
      funext w
      rcases hx : x w with ⟨_ | a, v⟩ <;> simp [Functor.map, hx])
    (fun _ _ => rfl)
    (fun x f g => by
      funext w
      rcases hx : x w with ⟨_ | a, v⟩ <;> simp [bind, hx])

variable {host : Host H σ} {allowance : Allowance} {depth : Nat}

theorem evalNode_zero (node : Node) : evalNode host allowance 0 node = .throw .tooDeep := by
  rw [evalNode.eq_def, if_pos rfl]

def evalInside (host : Host H σ) (allowance : Allowance) (depth : Nat) : Node → Eval H σ String
  | .text content _ => pure content
  | .quoted _ content _ => pure content
  | .comment _ _ => pure ""
  | .template children _ => do
    let texts ← Eval.mapError .acrossTemplate (evalNodes host allowance depth children)
    pure (String.join texts)
  | .tag name arguments _ => do
    let binding ← resolve name
    let texts ← evalNodes host allowance depth arguments
    Eval.record (.called name texts)
    let result ← callBinding host binding texts
    checkTime host allowance
    pure result
  | .declaration name none _ => .throw (.valueless name)
  | .declaration name (some value) _ => do
    let text ← evalNode host allowance depth value
    Eval.declare name text
    pure ""
  | .foreign kind _ => .throw (.unknownNode kind)

theorem evalNode_succ (node : Node) :
    evalNode host allowance (depth + 1) node =
      checkTime host allowance >>= fun _ => evalInside host allowance depth node := by
  cases node with
  | declaration name value n => cases value <;> simp [evalNode, evalInside]
  | _ => simp [evalNode, evalInside]

theorem evalNodes_nil : evalNodes host allowance depth [] = pure [] := by
  simp only [evalNodes]

theorem evalNodes_cons (node : Node) (rest : List Node) :
    evalNodes host allowance depth (node :: rest) =
      evalNode host allowance depth node >>= fun text =>
        evalNodes host allowance depth rest >>= fun texts => pure (text :: texts) := by
  simp only [evalNodes]

theorem evalNodes_append (nodes others : List Node) :
    evalNodes host allowance depth (nodes ++ others) =
      evalNodes host allowance depth nodes >>= fun texts =>
        evalNodes host allowance depth others >>= fun more => pure (texts ++ more) := by
  induction nodes with
  | nil => simp only [List.nil_append, evalNodes_nil, pure_bind, bind_pure]
  | cons node rest ih =>
    simp only [List.cons_append, evalNodes_cons, ih, bind_assoc, pure_bind]

theorem resolve_apply (name : String) (w : World H σ) :
    resolve name w = match w.bindings.resolve? name with
      | some binding => (.ok binding, w)
      | none => (.error (.undefinedTag name), w) := by
  simp only [resolve, bind, Eval.bindings]
  cases w.bindings.resolve? name <;> rfl

theorem snd_resolve (name : String) (w : World H σ) : (resolve name w).2 = w := by
  rw [resolve_apply]
  cases w.bindings.resolve? name <;> rfl

theorem snd_checkTime (host : Host H σ) (allowance : Allowance) (w : World H σ) :
    (checkTime host allowance w).2 = (Eval.now host w).2 := by
  by_cases hlate : allowance.deadline.any (· < (host.now w.state).1) <;>
    simp [checkTime, bind, Eval.now, hlate, Eval.throw, pure]

/-- What must be settled before the parts are come to: for a tag, what its name stands for. -/
def settle (node : Node) : Eval H σ (Option (Binding H)) :=
  match node.tagName? with
  | some name => do
    let binding ← resolve name
    pure (some binding)
  | none => pure none

theorem snd_settle (node : Node) (w : World H σ) : (settle node w).2 = w := by
  unfold settle
  cases node.tagName? with
  | none => rfl
  | some name =>
    simp only [resolve_apply, bind]
    cases w.bindings.resolve? name <;> rfl

/-- How an error among the parts shows outside of the node. -/
def shownOutside : Node → EvalError → EvalError
  | .template .. => .acrossTemplate
  | _ => id

def conclude (host : Host H σ) (allowance : Allowance) (binding : Option (Binding H))
    (texts : List String) : Node → Eval H σ String
  | .text content _ => pure content
  | .quoted _ content _ => pure content
  | .comment _ _ => pure ""
  | .template _ _ => pure (String.join texts)
  | .tag name _ _ => do
    Eval.record (.called name texts)
    let result ← callBinding host (binding.getD .absent) texts
    checkTime host allowance
    pure result
  | .declaration name none _ => .throw (.valueless name)
  | .declaration name (some _) _ => do
    Eval.declare name (texts.headD "")
    pure ""
  | .foreign kind _ => .throw (.unknownNode kind)

def around (host : Host H σ) (allowance : Allowance) (node : Node)
    (parts : Eval H σ (List String)) : Eval H σ String := do
  checkTime host allowance
  let binding ← settle node
  let texts ← Eval.mapError (shownOutside node) parts
  conclude host allowance binding texts node

theorem evalNode_eq_around (node : Node) :
    evalNode host allowance (depth + 1) node =
      around host allowance node (evalNodes host allowance depth node.parts) := by
  rw [evalNode_succ]
  apply congrArg (checkTime host allowance >>= ·)
  funext _
  cases node with
  | declaration name value n =>
    cases value <;>
      simp [evalInside, settle, Node.tagName?, shownOutside, Node.parts, conclude, Eval.mapError_id,
        evalNodes]
  | template children n =>
    simp [evalInside, settle, Node.tagName?, shownOutside, Node.parts, conclude]
  | _ =>
    simp [evalInside, settle, Node.tagName?, shownOutside, Node.parts, conclude, Eval.mapError_id,
      evalNodes]

/-- What is claimed of nodes and of lists of nodes passes from the parts of a node to the node, and
from the nodes of a list to the list. Two evaluations go on side by side, one with the allowance `a`
and one with `b`. -/
structure Scheme (host : Host H σ) (a b : Allowance)
    (P : Node → Eval H σ String → Eval H σ String → Prop)
    (Ps : List Node → Eval H σ (List String) → Eval H σ (List String) → Prop) : Prop where
  tooDeep (node : Node) : P node (.throw .tooDeep) (.throw .tooDeep)
  node (node : Node) {x y : Eval H σ (List String)} :
    Ps node.parts x y → P node (around host a node x) (around host b node y)
  nil : Ps [] (pure []) (pure [])
  cons {node : Node} {rest : List Node} {x y : Eval H σ String} {xs ys : Eval H σ (List String)} :
    P node x y → Ps rest xs ys →
      Ps (node :: rest) (x >>= fun text => xs >>= fun texts => pure (text :: texts))
        (y >>= fun text => ys >>= fun texts => pure (text :: texts))

namespace Scheme

variable {a b : Allowance} {P : Node → Eval H σ String → Eval H σ String → Prop}
  {Ps : List Node → Eval H σ (List String) → Eval H σ (List String) → Prop}

theorem evalNodes_of_all (h : Scheme host a b P Ps) {nodes : List Node}
    (hnodes : ∀ node ∈ nodes,
      P node (Evaluation.evalNode host a depth node) (Evaluation.evalNode host b depth node)) :
    Ps nodes (Evaluation.evalNodes host a depth nodes) (Evaluation.evalNodes host b depth nodes) := by
  induction nodes with
  | nil =>
    rw [evalNodes_nil, evalNodes_nil]
    exact h.nil
  | cons node rest ih =>
    rw [List.forall_mem_cons] at hnodes
    rw [evalNodes_cons, evalNodes_cons]
    exact h.cons hnodes.1 (ih hnodes.2)

theorem evalNode (h : Scheme host a b P Ps) (node : Node) (depth : Nat) :
    P node (Evaluation.evalNode host a depth node) (Evaluation.evalNode host b depth node) := by
  induction node using Node.induction_parts generalizing depth with
  | h node ih =>
    cases depth with
    | zero =>
      rw [evalNode_zero, evalNode_zero]
      exact h.tooDeep node
    | succ depth =>
      rw [evalNode_eq_around, evalNode_eq_around]
      exact h.node node (h.evalNodes_of_all fun part hpart => ih part hpart depth)

theorem evalNodes (h : Scheme host a b P Ps) (nodes : List Node) (depth : Nat) :
    Ps nodes (Evaluation.evalNodes host a depth nodes) (Evaluation.evalNodes host b depth nodes) :=
  h.evalNodes_of_all fun node _ => h.evalNode node depth

end Scheme

def Keeps (S : World H σ → World H σ → Prop) {α : Type} (x y : Eval H σ α) : Prop :=
  ∀ v w, S v w → (x v).1 = (y w).1 ∧ S (x v).2 (y w).2

namespace Keeps

variable {S : World H σ → World H σ → Prop} {x y : Eval H σ α} {f g : α → Eval H σ β}

theorem bind (h : Keeps S x y) (hf : ∀ a, Keeps S (f a) (g a)) : Keeps S (x >>= f) (y >>= g) := by
  intro v w hrelated
  obtain ⟨hresult, hworld⟩ := h v w hrelated
  rcases hx : x v with ⟨r, v'⟩
  rcases hy : y w with ⟨r', w'⟩
  rw [hx, hy] at hresult hworld
  obtain rfl : r = r' := hresult
  cases r with
  | error e =>
    rw [Eval.bind_of_error hx, Eval.bind_of_error hy]
    exact ⟨rfl, hworld⟩
  | ok a =>
    rw [Eval.bind_of_ok hx, Eval.bind_of_ok hy]
    exact hf a v' w' hworld

theorem mapError (h : Keeps S x y) (k : EvalError → EvalError) :
    Keeps S (Eval.mapError k x) (Eval.mapError k y) := by
  intro v w hrelated
  obtain ⟨hresult, hworld⟩ := h v w hrelated
  exact ⟨congrArg (Except.mapError k) hresult, hworld⟩

theorem resolve (name : String)
    (h : ∀ v w, S v w → v.bindings.resolve? name = w.bindings.resolve? name) :
    Keeps S (Evaluation.resolve name) (Evaluation.resolve name) := by
  intro v w hrelated
  rw [resolve_apply, resolve_apply, h v w hrelated]
  cases w.bindings.resolve? name <;> exact ⟨rfl, hrelated⟩

end Keeps

/-- A relation between computations that passes to what is done one after another, and that holds of
what a call may do. -/
structure CallCongruence (host : Host H σ)
    (R : ∀ {α : Type}, Eval H σ α → Eval H σ α → Prop) : Prop where
  pure {α : Type} (x : α) : R (pure x) (pure x)
  throw {α : Type} (e : EvalError) : R (α := α) (.throw e) (.throw e)
  bind {α β : Type} {x y : Eval H σ α} {f g : α → Eval H σ β} :
    R x y → (∀ a, R (f a) (g a)) → R (x >>= f) (y >>= g)
  resolve (name : String) : R (resolve name) (resolve name)
  draw : R (Eval.draw host) (Eval.draw host)
  callHost (h : H) (arguments : List String) :
    R (Eval.callHost host h arguments) (Eval.callHost host h arguments)

/-- A relation that all steps of an evaluation keep, one evaluation with the allowance `a` and one
with `b`. -/
structure Congruence (host : Host H σ) (a b : Allowance)
    (R : ∀ {α : Type}, Eval H σ α → Eval H σ α → Prop) : Prop extends CallCongruence host R where
  across {α : Type} {x y : Eval H σ α} :
    R x y → R (.mapError .acrossTemplate x) (.mapError .acrossTemplate y)
  checkTime : R (checkTime host a) (checkTime host b)
  called (name : String) (arguments : List String) :
    R (Eval.record (.called name arguments)) (Eval.record (.called name arguments))
  declare (name value : String) : R (Eval.declare name value) (Eval.declare name value)

namespace CallCongruence

variable {R : ∀ {α : Type}, Eval H σ α → Eval H σ α → Prop}

theorem ofBuiltin (h : CallCongruence host R) (result : Except BuiltinError α) :
    R (Eval.ofBuiltin result) (Eval.ofBuiltin result) := by
  cases result with
  | ok x => exact h.pure x
  | error e => exact h.throw (.builtin e)

theorem callBinding (h : CallCongruence host R) (binding : Binding H) (arguments : List String) :
    R (Evaluation.callBinding host binding arguments)
      (Evaluation.callBinding host binding arguments) := by
  cases binding with
  | absent => exact h.throw _
  | constant value => exact h.pure value
  | host tag => exact h.callHost tag arguments
  | builtin b =>
    refine h.bind (h.bind (h.ofBuiltin _) fun outcome => ?_) fun result => h.pure _
    cases outcome with
    | text s => exact h.pure _
    | drawn f => exact h.bind h.draw fun number => h.ofBuiltin _

end CallCongruence

namespace Congruence

variable {a b : Allowance} {R : ∀ {α : Type}, Eval H σ α → Eval H σ α → Prop} {node node' : Node}
  {x y : Eval H σ (List String)}

theorem shown (h : Congruence host a b R) (node : Node) (hxy : R x y) :
    R (.mapError (shownOutside node) x) (.mapError (shownOutside node) y) := by
  cases node with
  | template => exact h.across hxy
  | _ => simpa only [shownOutside, Eval.mapError_id] using hxy

theorem settle (h : Congruence host a b R) (node : Node) :
    R (Evaluation.settle node) (Evaluation.settle node) := by
  unfold Evaluation.settle
  cases node.tagName? with
  | none => exact h.pure none
  | some name => exact h.bind (h.resolve name) fun binding => h.pure (some binding)

theorem conclude (h : Congruence host a b R) (binding : Option (Binding H)) (texts : List String)
    (node : Node) :
    R (Evaluation.conclude host a binding texts node)
      (Evaluation.conclude host b binding texts node) := by
  cases node with
  | tag name arguments n =>
    exact h.bind (h.called name texts) fun _ =>
      h.bind (h.callBinding _ texts) fun _ => h.bind h.checkTime fun _ => h.pure _
  | declaration name value n =>
    cases value with
    | none => exact h.throw _
    | some value => exact h.bind (h.declare name _) fun _ => h.pure ""
  | foreign => exact h.throw _
  | _ => exact h.pure _

theorem around (h : Congruence host a b R) (node : Node) (hparts : R x y) :
    R (Evaluation.around host a node x) (Evaluation.around host b node y) :=
  h.bind h.checkTime fun _ => h.bind (h.settle node) fun binding =>
    h.bind (h.shown node hparts) fun texts => h.conclude binding texts node

theorem scheme (h : Congruence host a b R) : Scheme host a b (fun _ => R) (fun _ => R) where
  tooDeep _ := h.throw .tooDeep
  node node _ _ hparts := h.around node hparts
  nil := h.pure []
  cons hnode hrest := h.bind hnode fun _ => h.bind hrest fun _ => h.pure _

/-- What the steps of an evaluation keep, the evaluation of every tree keeps. -/
theorem evalNode (h : Congruence host a b R) (node : Node) (depth : Nat) :
    R (Evaluation.evalNode host a depth node) (Evaluation.evalNode host b depth node) :=
  h.scheme.evalNode node depth

theorem evalNodes (h : Congruence host a b R) (nodes : List Node) (depth : Nat) :
    R (Evaluation.evalNodes host a depth nodes) (Evaluation.evalNodes host b depth nodes) :=
  h.scheme.evalNodes nodes depth

/-- Nodes that differ in nothing but their parts, and in lengths, are kept with their parts. -/
theorem evalNode_succ_of_parts (h : Congruence host a b R)
    (hround : Evaluation.around host b node = Evaluation.around host b node')
    (hparts : R (Evaluation.evalNodes host a depth node.parts)
      (Evaluation.evalNodes host b depth node'.parts)) :
    R (Evaluation.evalNode host a (depth + 1) node)
      (Evaluation.evalNode host b (depth + 1) node') := by
  rw [evalNode_eq_around, evalNode_eq_around, ← hround]
  exact h.around node hparts

end Congruence
end TagTemplate.Evaluation
