import TagTemplate.Proofs.Template.Grammar

/-! The shape of trees, told without their sources. Derivations give well-shaped trees only, and the
lengths that a tree records have no part in its shape. -/
namespace TagTemplate.Template
open Grammar

namespace Node

def isQuoted : Node → Bool
  | quoted .. => true
  | _ => false

def isTemplate : Node → Bool
  | template .. => true
  | _ => false

def isName (name : String) : Bool :=
  name != "" && name.toList.all isNameChar

def textsApart : List Node → Bool
  | text .. :: text .. :: _ => false
  | _ :: rest => textsApart rest
  | [] => true

mutual
def wellShaped : Node → Bool
  | text content _ => content != ""
  | quoted .. => true
  | template children _ =>
    textsApart children && children.all (fun child => !child.isQuoted && !child.isTemplate) &&
      allWellShaped children
  | tag name arguments _ => isName name && arguments.all (!·.isText) && allWellShaped arguments
  | comment content _ => !content.toList.contains tagClose
  | declaration name (some value) _ => isName name && !value.isText && value.wellShaped
  | declaration _ none _ => false
  | foreign .. => false

def allWellShaped : List Node → Bool
  | [] => true
  | node :: rest => node.wellShaped && allWellShaped rest
end

/-- A well-shaped document. Templates can stand in it as they are. -/
def isDocument : Node → Bool
  | template children _ =>
    textsApart children && children.all (!·.isQuoted) && allWellShaped children
  | _ => false

mutual
/-- The node with all lengths forgotten. -/
def unmeasured : Node → Node
  | text content _ => text content 0
  | quoted quote content _ => quoted quote content 0
  | template children _ => template (allUnmeasured children) 0
  | tag name arguments _ => tag name (allUnmeasured arguments) 0
  | comment content _ => comment content 0
  | declaration name (some value) _ => declaration name (some value.unmeasured) 0
  | declaration name none _ => declaration name none 0
  | foreign kind _ => foreign kind 0

def allUnmeasured : List Node → List Node
  | [] => []
  | node :: rest => node.unmeasured :: allUnmeasured rest
end

theorem allWellShaped_iff {nodes : List Node} :
    allWellShaped nodes ↔ ∀ node ∈ nodes, node.wellShaped := by
  induction nodes with
  | nil => simp [allWellShaped]
  | cons node rest ih => simp [allWellShaped, ih]

theorem allUnmeasured_eq_map (nodes : List Node) : allUnmeasured nodes = nodes.map unmeasured := by
  induction nodes with
  | nil => rfl
  | cons node rest ih => simp only [allUnmeasured, ih, List.map_cons]

theorem forall_mem_attach {p : Node → Prop}
    (hp : ∀ s m t n, p (text s m) → p (text t n) → p (text (s ++ t) (m + n))) {node : Node}
    {nodes : List Node} (h : p node) (hnodes : ∀ x ∈ nodes, p x) : ∀ x ∈ node.attach nodes, p x := by
  cases nodes with
  | nil => simpa using h
  | cons first rest =>
    simp only [List.forall_mem_cons] at hnodes
    by_cases ht : node.isText ∧ first.isText
    · obtain ⟨a, m, rfl⟩ := exists_text_of_isText ht.1
      obtain ⟨b, n, rfl⟩ := exists_text_of_isText ht.2
      simp only [attach, List.forall_mem_cons]
      exact ⟨hp _ _ _ _ h hnodes.1, hnodes.2⟩
    · rw [attach_cons_of_not_texts ht]
      simp only [List.forall_mem_cons]
      exact ⟨h, hnodes⟩

theorem forall_mem_mergeTexts {p : Node → Prop}
    (hp : ∀ s m t n, p (text s m) → p (text t n) → p (text (s ++ t) (m + n))) {nodes : List Node}
    (h : ∀ x ∈ nodes, p x) : ∀ x ∈ mergeTexts nodes, p x := by
  induction nodes with
  | nil => exact h
  | cons node rest ih =>
    simp only [List.forall_mem_cons] at h
    exact forall_mem_attach hp h.1 (ih h.2)

theorem textsApart_cons (node : Node) (rest : List Node) :
    textsApart (node :: rest) = (!(node.isText && rest.head?.any isText) && textsApart rest) := by
  cases rest with
  | nil => cases node <;> rfl
  | cons next rest => cases node <;> cases next <;> rfl

theorem head_not_isText_of_textsApart {s : String} {n : Nat} {rest : List Node}
    (h : textsApart (text s n :: rest)) : ∀ next ∈ rest.head?, next.isText = false := by
  cases rest with
  | nil => simp
  | cons next rest =>
    simp only [textsApart_cons, Bool.and_eq_true, Bool.not_eq_true', List.head?_cons,
      Option.any_some] at h
    simpa using h.1

theorem textsApart_attach {nodes : List Node} (h : textsApart nodes) (node : Node) :
    textsApart (node.attach nodes) := by
  cases nodes with
  | nil => cases node <;> rfl
  | cons first rest =>
    by_cases ht : node.isText ∧ first.isText
    · -- Two texts become one, which stands where the second one stood.
      obtain ⟨a, m, rfl⟩ := exists_text_of_isText ht.1
      obtain ⟨b, n, rfl⟩ := exists_text_of_isText ht.2
      simpa only [attach, textsApart_cons, isText] using h
    · rw [attach_cons_of_not_texts ht, textsApart_cons, h, List.head?_cons, Option.any_some]
      cases hn : node.isText with
      | false => rfl
      | true => simp_all

theorem textsApart_mergeTexts (nodes : List Node) : textsApart (mergeTexts nodes) := by
  induction nodes with
  | nil => rfl
  | cons node rest ih => exact textsApart_attach ih node

theorem mergeTexts_letters (c : Char) (cs : List Char) {nodes : List Node}
    (h : ∀ node ∈ (mergeTexts nodes).head?, node.isText = false) :
    mergeTexts ((c :: cs).map (fun d => text (String.ofList [d]) 0) ++ nodes) =
      text (String.ofList (c :: cs)) 0 :: mergeTexts nodes := by
  induction cs generalizing c with
  | nil =>
    simp only [List.map_cons, List.map_nil, List.singleton_append, mergeTexts]
    cases hn : mergeTexts nodes with
    | nil => rfl
    | cons next rest =>
      have hnext : next.isText = false := h next (by simp [hn])
      exact attach_cons_of_not_texts (by simp [hnext]) rest
  | cons d rest ih =>
    rw [List.map_cons, List.cons_append, mergeTexts, ih]
    simp only [attach, ← String.ofList_append, List.singleton_append]

@[simp] theorem isText_unmeasured (node : Node) : node.unmeasured.isText = node.isText := by
  cases node with
  | declaration name value n => cases value <;> rfl
  | _ => rfl

@[simp] theorem isQuoted_unmeasured (node : Node) : node.unmeasured.isQuoted = node.isQuoted := by
  cases node with
  | declaration name value n => cases value <;> rfl
  | _ => rfl

@[simp] theorem isTemplate_unmeasured (node : Node) :
    node.unmeasured.isTemplate = node.isTemplate := by
  cases node with
  | declaration name value n => cases value <;> rfl
  | _ => rfl

theorem textsApart_map_unmeasured (nodes : List Node) :
    textsApart (nodes.map unmeasured) = textsApart nodes := by
  induction nodes with
  | nil => rfl
  | cons node rest ih =>
    rw [List.map_cons, textsApart_cons, textsApart_cons, ih, isText_unmeasured]
    cases rest <;> simp

mutual
theorem wellShaped_unmeasured : (node : Node) → node.unmeasured.wellShaped = node.wellShaped
  | text .. => rfl
  | quoted .. => rfl
  | template children n => by
    simp only [unmeasured, wellShaped, allWellShaped_allUnmeasured children]
    simp [allUnmeasured_eq_map, textsApart_map_unmeasured, Function.comp_def]
  | tag name arguments n => by
    simp only [unmeasured, wellShaped, allWellShaped_allUnmeasured arguments]
    simp [allUnmeasured_eq_map, Function.comp_def]
  | comment .. => rfl
  | declaration name (some value) n => by
    simp only [unmeasured, wellShaped, wellShaped_unmeasured value, isText_unmeasured]
  | declaration name none n => rfl
  | foreign .. => rfl

theorem allWellShaped_allUnmeasured :
    (nodes : List Node) → allWellShaped (allUnmeasured nodes) = allWellShaped nodes
  | [] => rfl
  | node :: rest => by
    simp only [allUnmeasured, allWellShaped, wellShaped_unmeasured node,
      allWellShaped_allUnmeasured rest]
end

theorem isDocument_unmeasured (node : Node) : node.unmeasured.isDocument = node.isDocument := by
  cases node with
  | template children n =>
    simp only [unmeasured, isDocument, allWellShaped_allUnmeasured children]
    simp [allUnmeasured_eq_map, textsApart_map_unmeasured, Function.comp_def]
  | declaration name value n => cases value <;> rfl
  | _ => rfl

mutual
theorem nesting_unmeasured : (node : Node) → node.unmeasured.nesting = node.nesting
  | text .. => rfl
  | quoted .. => rfl
  | template children n => by simp only [unmeasured, nesting, deepest_allUnmeasured children]
  | tag name arguments n => by simp only [unmeasured, nesting, deepest_allUnmeasured arguments]
  | comment .. => rfl
  | declaration name (some value) n => by simp only [unmeasured, nesting, nesting_unmeasured value]
  | declaration name none n => rfl
  | foreign .. => rfl

theorem deepest_allUnmeasured : (nodes : List Node) → deepest (allUnmeasured nodes) = deepest nodes
  | [] => rfl
  | node :: rest => by
    simp only [allUnmeasured, deepest, nesting_unmeasured node, deepest_allUnmeasured rest]
end

theorem allUnmeasured_attach (node : Node) (nodes : List Node) :
    allUnmeasured (node.attach nodes) = node.unmeasured.attach (allUnmeasured nodes) := by
  cases nodes with
  | nil => simp only [attach_nil, allUnmeasured]
  | cons first rest =>
    by_cases ht : node.isText ∧ first.isText
    · obtain ⟨a, m, rfl⟩ := exists_text_of_isText ht.1
      obtain ⟨b, n, rfl⟩ := exists_text_of_isText ht.2
      rfl
    · have hu : ¬(node.unmeasured.isText ∧ first.unmeasured.isText) := by
        rwa [isText_unmeasured, isText_unmeasured]
      rw [attach_cons_of_not_texts ht, allUnmeasured, allUnmeasured, attach_cons_of_not_texts hu]

theorem allUnmeasured_mergeTexts (nodes : List Node) :
    allUnmeasured (mergeTexts nodes) = mergeTexts (allUnmeasured nodes) := by
  induction nodes with
  | nil => rfl
  | cons node rest ih => simp only [mergeTexts, allUnmeasured, allUnmeasured_attach, ih]

end Node

theorem isName_text (name : Name) : Node.isName name.text := by
  simpa [Node.isName, Name.text] using ⟨name.nonempty, name.named⟩

theorem content_ne_nil {special : List Char} (l : Letter special) : l.content ≠ [] := by
  cases l with
  | plain c h => exact List.cons_ne_nil c []
  | pair c => by_cases h : c ∈ special <;> simp [Letter.content, h]

theorem wellShaped_letter (l : Letter templateDelimiters) : l.node.wellShaped := by
  simpa [Letter.node, Node.wellShaped] using content_ne_nil l

theorem all_isItem_nodes (items : List Item) :
    (Node.mergeTexts (Item.nodes items)).all
      (fun child => !child.isQuoted && !child.isTemplate) := by
  rw [List.all_eq_true]
  apply Node.forall_mem_mergeTexts
  · exact fun _ _ _ _ _ _ => rfl
  · intro node hnode
    rw [Item.nodes_eq_map, List.mem_map] at hnode
    obtain ⟨i, -, rfl⟩ := hnode
    cases i with
    | letter l => rfl
    | tag t => cases t <;> rfl

theorem wellShaped_mergeTexts {nodes : List Node} (h : Node.allWellShaped nodes) :
    Node.allWellShaped (Node.mergeTexts nodes) := by
  rw [Node.allWellShaped_iff] at h ⊢
  apply Node.forall_mem_mergeTexts _ h
  intro s m t n hs _
  simp_all [Node.wellShaped]

theorem all_not_isText_nodes (rest : List Argument) :
    (Argument.nodes rest).all (!·.isText) := by
  induction rest with
  | nil => rfl
  | cons a rest ih =>
    cases a
    simpa [Argument.nodes] using ih

mutual
theorem wellShaped_tag : (t : Tag) → t.node.wellShaped
  | .comment text unclosed => by simpa [Tag.node, Node.wellShaped] using unclosed
  | .declaration front name behind lead value back => by
    simp [Tag.node, Node.wellShaped, isName_text, wellShaped_value value]
  | .bare front name back => by
    simp [Tag.node, Node.wellShaped, Node.allWellShaped, isName_text]
  | .call front name gap first rest back => by
    simpa [Tag.node, Node.wellShaped, Node.allWellShaped, isName_text, wellShaped_value first,
      wellShaped_arguments rest] using all_not_isText_nodes rest

theorem wellShaped_value : (v : Value) → v.node.wellShaped
  | .tag t => wellShaped_tag t
  | .quoted quote letters => rfl
  | .template items => by
    simp only [Value.node, Node.wellShaped, Node.textsApart_mergeTexts, all_isItem_nodes,
      wellShaped_mergeTexts (wellShaped_items items), Bool.and_self]

theorem wellShaped_arguments : (rest : List Argument) → Node.allWellShaped (Argument.nodes rest)
  | [] => rfl
  | .mk lead value :: rest => by
    simp only [Argument.nodes, Node.allWellShaped, wellShaped_value value,
      wellShaped_arguments rest, Bool.and_self]

theorem wellShaped_items : (items : List Item) → Node.allWellShaped (Item.nodes items)
  | [] => rfl
  | .letter l :: rest => by
    simp only [Item.nodes, Node.allWellShaped, wellShaped_letter l, wellShaped_items rest,
      Bool.and_self]
  | .tag t :: rest => by
    simp only [Item.nodes, Node.allWellShaped, wellShaped_tag t, wellShaped_items rest,
      Bool.and_self]
end

theorem wellShaped_section (sec : Section) :
    sec.node.wellShaped ∧ sec.node.isQuoted = false := by
  cases sec with
  | item i =>
    cases i with
    | letter l => exact ⟨wellShaped_letter l, rfl⟩
    | tag t => exact ⟨wellShaped_tag t, by cases t <;> rfl⟩
  | template items => exact ⟨wellShaped_value (.template items), rfl⟩

/-- The tree of every derivation is a well-shaped document. -/
theorem isDocument_tree (d : Document) : d.tree.isDocument := by
  have hnodes : ∀ node ∈ d.sections.map Section.node ++ loneEscapeNodes d.loneEscape,
      node.wellShaped ∧ node.isQuoted = false := by
    intro node hnode
    rcases List.mem_append.mp hnode with hnode | hnode
    · obtain ⟨sec, -, rfl⟩ := List.mem_map.mp hnode
      exact wellShaped_section sec
    · unfold loneEscapeNodes at hnode
      split at hnode
      · rw [List.mem_singleton.mp hnode]
        exact ⟨by decide, rfl⟩
      · contradiction
  have hshaped := wellShaped_mergeTexts (Node.allWellShaped_iff.mpr fun node h => (hnodes node h).1)
  have hquoted := Node.forall_mem_mergeTexts (p := fun node => node.isQuoted = false)
    (fun _ _ _ _ _ _ => rfl) (fun node h => (hnodes node h).2)
  simp only [Document.tree, Node.isDocument, Node.textsApart_mergeTexts, hshaped, Bool.true_and,
    Bool.and_true, List.all_eq_true, Bool.not_eq_true']
  exact hquoted

end TagTemplate.Template
