import TagTemplate.Proofs.Template.Places
import TagTemplate.Proofs.Template.Tree

/-! Trees made simpler, one step after another. Among the children of a template much can be tidied
away; as an argument or as a value a comment is a text like others and stays. What lengths the new
nodes have does not matter. -/
namespace TagTemplate.Template

def Node.ofTexts (texts : List (String × Nat)) : List Node :=
  texts.map fun t => .text t.1 t.2

/-- One thing tidied away among the children of a template: a comment, the delimiters of a template,
the seam between two texts, or an empty text. -/
inductive Tidies : List Node → List Node → Prop where
  | comment (content : String) (n : Nat) (rest : List Node) : Tidies (.comment content n :: rest) rest
  | splice (children : List Node) (n : Nat) (rest : List Node) :
    Tidies (.template children n :: rest) (children ++ rest)
  | merge (s t : String) (m n k : Nat) (rest : List Node) :
    Tidies (.text s m :: .text t n :: rest) (.text (s ++ t) k :: rest)
  | empty (n : Nat) (rest : List Node) : Tidies (.text "" n :: rest) rest
  | behind (node : Node) {nodes others : List Node} (h : Tidies nodes others) :
    Tidies (node :: nodes) (node :: others)

/-- One step of simplification, anywhere in a tree. Where the node is an argument or a value, a
template of texts can become a string. -/
inductive Simplifies : (asValue : Bool) → Node → Node → Prop where
  | tidy {v : Bool} {children children' : List Node} (h : Tidies children children') (n n' : Nat) :
    Simplifies v (.template children n) (.template children' n')
  | requote (texts : List (String × Nat)) (quote : Quote) (n n' : Nat) :
    Simplifies true (.template (Node.ofTexts texts) n)
      (.quoted quote (String.join (texts.map Prod.fst)) n')
  | child {v : Bool} {node node' : Node} (h : Simplifies false node node') (front behind : List Node)
      (n n' : Nat) :
    Simplifies v (.template (front ++ node :: behind) n) (.template (front ++ node' :: behind) n')
  | argument {v : Bool} {node node' : Node} (h : Simplifies true node node') (name : String)
      (front behind : List Node) (n n' : Nat) :
    Simplifies v (.tag name (front ++ node :: behind) n) (.tag name (front ++ node' :: behind) n')
  | value {v : Bool} {node node' : Node} (h : Simplifies true node node') (name : String)
      (n n' : Nat) :
    Simplifies v (.declaration name (some node) n) (.declaration name (some node') n')

variable {v : Bool} {node node' : Node} {children children' : List Node}

/-! Simpler trees nest no deeper. -/

theorem Node.nesting_lt_of_mem_parts {node part : Node} (h : part ∈ node.parts) :
    part.nesting < node.nesting := by
  cases node with
  | template children n => exact Nat.lt_succ_of_le (Node.nesting_le_deepest h)
  | tag name arguments n => exact Nat.lt_succ_of_le (Node.nesting_le_deepest h)
  | declaration name value n =>
    cases value with
    | none => cases h
    | some value =>
      obtain rfl := List.mem_singleton.mp h
      exact Nat.lt_succ_self _
  | _ => cases h

theorem deepest_at (front behind : List Node) (node : Node) :
    Node.deepest (front ++ node :: behind) =
      max (Node.deepest front) (max node.nesting (Node.deepest behind)) := by
  rw [Node.deepest_append, Node.deepest]

theorem Tidies.deepest_le (h : Tidies children children') :
    Node.deepest children' ≤ Node.deepest children := by
  induction h with
  | comment => exact Nat.le_max_right _ _
  | splice =>
    rw [Node.deepest_append, Node.deepest, Node.nesting]
    omega
  | merge => simp [Node.deepest]
  | empty => exact Nat.le_max_right _ _
  | behind node _ ih =>
    rw [Node.deepest, Node.deepest]
    omega

theorem Simplifies.nesting_le (h : Simplifies v node node') : node'.nesting ≤ node.nesting := by
  induction h with
  | tidy h => exact Nat.succ_le_succ h.deepest_le
  | requote texts => simp [Node.nesting]
  | child _ _ _ _ _ ih =>
    simp only [Node.nesting, deepest_at]
    omega
  | argument _ _ _ _ _ _ ih =>
    simp only [Node.nesting, deepest_at]
    omega
  | value _ _ _ _ ih => simpa only [Node.nesting, Nat.add_le_add_iff_right] using ih

end TagTemplate.Template
