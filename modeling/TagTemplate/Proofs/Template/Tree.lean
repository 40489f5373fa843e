import TagTemplate.Template.Node

/-! Trees by themselves: texts that stand side by side become one, and constructs stand one inside
another. Appending a text is merging from the other end. -/
namespace TagTemplate.Template.Node

def isText : Node → Bool
  | text .. => true
  | _ => false

@[simp] theorem isText_text (s : String) (n : Nat) : (text s n).isText = true := rfl

def attach : Node → List Node → List Node
  | text s m, text t n :: rest => text (s ++ t) (m + n) :: rest
  | node, rest => node :: rest

def mergeTexts : List Node → List Node
  | [] => []
  | node :: rest => node.attach (mergeTexts rest)

theorem exists_text_of_isText {node : Node} (h : node.isText) : ∃ s n, node = text s n := by
  cases node with
  | text s n => exact ⟨s, n, rfl⟩
  | _ => contradiction

@[simp] theorem attach_nil (node : Node) : node.attach [] = [node] := by
  cases node <;> rfl

theorem attach_cons_of_not_texts {node next : Node} (h : ¬(node.isText ∧ next.isText))
    (rest : List Node) : node.attach (next :: rest) = node :: next :: rest := by
  cases node <;> cases next <;> first | rfl | exact absurd ⟨rfl, rfl⟩ h

theorem attach_of_isText_eq_false {node : Node} (h : node.isText = false) (rest : List Node) :
    node.attach rest = node :: rest := by
  cases rest with
  | nil => exact attach_nil node
  | cons next rest => exact attach_cons_of_not_texts (by simp [h]) rest

theorem attach_appendText (node : Node) (nodes : List Node) (s : String) (n : Nat) :
    node.attach (appendText nodes s n) = appendText (node.attach nodes) s n := by
  cases nodes with
  | nil => cases node <;> rfl
  | cons first rest =>
    cases rest with
    | nil =>
      cases node <;> cases first <;>
        simp [appendText, attach, String.append_assoc, Nat.add_assoc]
    | cons second rest =>
      cases node <;> cases first <;> simp [appendText, attach]

theorem mergeTexts_append_text (nodes : List Node) (s : String) (n : Nat) :
    mergeTexts (nodes ++ [text s n]) = appendText (mergeTexts nodes) s n := by
  induction nodes with
  | nil => rfl
  | cons node rest ih =>
    simp only [List.cons_append, mergeTexts]
    rw [ih, attach_appendText]

theorem attach_append_of_isText_eq_false (node : Node) (nodes : List Node) {last : Node}
    (h : last.isText = false) : node.attach (nodes ++ [last]) = node.attach nodes ++ [last] := by
  cases nodes with
  | nil =>
    rw [List.nil_append, attach_cons_of_not_texts (by simp [h]), attach_nil]
    rfl
  | cons first rest => cases node <;> cases first <;> rfl

theorem mergeTexts_append_of_isText_eq_false (nodes : List Node) {node : Node}
    (h : node.isText = false) : mergeTexts (nodes ++ [node]) = mergeTexts nodes ++ [node] := by
  induction nodes with
  | nil => exact attach_of_isText_eq_false h []
  | cons first rest ih =>
    simp only [List.cons_append, mergeTexts]
    rw [ih, attach_append_of_isText_eq_false _ _ h]

mutual
/-- How many constructs stand one inside another, the node itself included. A text is none. -/
def nesting : Node → Nat
  | text .. => 0
  | template children _ => deepest children + 1
  | tag _ arguments _ => deepest arguments + 1
  | declaration _ (some value) _ => value.nesting + 1
  | _ => 1

def deepest : List Node → Nat
  | [] => 0
  | node :: rest => max node.nesting (deepest rest)
end

@[simp] theorem nesting_text (s : String) (n : Nat) : (text s n).nesting = 0 := by
  simp only [nesting]

theorem nesting_le_deepest {node : Node} {nodes : List Node} (h : node ∈ nodes) :
    node.nesting ≤ deepest nodes := by
  induction h with
  | head => exact Nat.le_max_left _ _
  | tail _ _ ih => exact Nat.le_trans ih (Nat.le_max_right _ _)

@[simp] theorem deepest_append (nodes others : List Node) :
    deepest (nodes ++ others) = max (deepest nodes) (deepest others) := by
  induction nodes with
  | nil => simp [deepest]
  | cons node rest ih => simp only [List.cons_append, deepest, ih, Nat.max_assoc]

@[simp] theorem deepest_attach (node : Node) (nodes : List Node) :
    deepest (node.attach nodes) = max node.nesting (deepest nodes) := by
  cases nodes with
  | nil => cases node <;> rfl
  | cons first rest => cases node <;> cases first <;> simp [attach, deepest]

@[simp] theorem deepest_mergeTexts (nodes : List Node) :
    deepest (mergeTexts nodes) = deepest nodes := by
  induction nodes with
  | nil => rfl
  | cons node rest ih => simp only [mergeTexts, deepest_attach, deepest, ih]

@[simp] theorem deepest_appendText (nodes : List Node) (s : String) (n : Nat) :
    deepest (appendText nodes s n) = deepest nodes := by
  induction nodes with
  | nil => simp [appendText, deepest]
  | cons first rest ih =>
    cases rest with
    | nil => cases first <;> simp [appendText, deepest]
    | cons second rest => simp only [appendText, deepest, ih]

end TagTemplate.Template.Node
