import Mathlib.Data.List.Forall2
import TagTemplate.Proofs.Template.Joining
import TagTemplate.Proofs.Template.Shape

/-! The layout of tags: the runs of spaces and newlines between their parts. Two derivations that differ
only in these spell sources that compile to the same tree, lengths apart. -/
namespace TagTemplate.Grammar
open Template

mutual
/-- The tags differ in their runs of spaces only, also inside of their values. Only the run between a
name and its first argument must not be empty. -/
inductive Tag.Relaid : Tag → Tag → Prop where
  | comment (text : List Char) (unclosed : tagClose ∉ text) :
    Tag.Relaid (.comment text unclosed) (.comment text unclosed)
  | declaration (name : Name) (front front' behind behind' lead lead' back back' : Spaces)
    {value value' : Value} : Value.Relaid value value' →
    Tag.Relaid (.declaration front name behind lead value back)
      (.declaration front' name behind' lead' value' back')
  | bare (name : Name) (front front' back back' : Spaces) :
    Tag.Relaid (.bare front name back) (.bare front' name back')
  | call (name : Name) (front front' : Spaces) (gap gap' : Gap) (back back' : Spaces)
    {first first' : Value} {rest rest' : List Argument} :
    Value.Relaid first first' → Argument.AllRelaid rest rest' →
    Tag.Relaid (.call front name gap first rest back) (.call front' name gap' first' rest' back')

inductive Value.Relaid : Value → Value → Prop where
  | tag {t t' : Tag} : Tag.Relaid t t' → Value.Relaid (.tag t) (.tag t')
  | quoted (quote : Quote) (letters : List (Letter quote.delimiters)) :
    Value.Relaid (.quoted quote letters) (.quoted quote letters)
  | template {items items' : List Item} : Item.AllRelaid items items' →
    Value.Relaid (.template items) (.template items')

inductive Argument.AllRelaid : List Argument → List Argument → Prop where
  | nil : Argument.AllRelaid [] []
  | cons (lead lead' : Spaces) {value value' : Value} {rest rest' : List Argument} :
    Value.Relaid value value' → Argument.AllRelaid rest rest' →
    Argument.AllRelaid (.mk lead value :: rest) (.mk lead' value' :: rest')

inductive Item.AllRelaid : List Item → List Item → Prop where
  | nil : Item.AllRelaid [] []
  | letter (l : Letter templateDelimiters) {rest rest' : List Item} :
    Item.AllRelaid rest rest' → Item.AllRelaid (.letter l :: rest) (.letter l :: rest')
  | tag {t t' : Tag} {rest rest' : List Item} : Tag.Relaid t t' → Item.AllRelaid rest rest' →
    Item.AllRelaid (.tag t :: rest) (.tag t' :: rest')
end

inductive Section.Relaid : Section → Section → Prop where
  | letter (l : Letter templateDelimiters) : Section.Relaid (.item (.letter l)) (.item (.letter l))
  | tag {t t' : Tag} : Tag.Relaid t t' → Section.Relaid (.item (.tag t)) (.item (.tag t'))
  | template {items items' : List Item} : Item.AllRelaid items items' →
    Section.Relaid (.template items) (.template items')

structure Document.Relaid (d e : Document) : Prop where
  sections : List.Forall₂ Section.Relaid d.sections e.sections
  loneEscape : d.loneEscape = e.loneEscape

mutual
theorem Tag.Relaid.unmeasured_node : {t t' : Tag} → Tag.Relaid t t' →
    t.node.unmeasured = t'.node.unmeasured
  | _, _, .comment text unclosed => rfl
  | _, _, .declaration name _ _ _ _ _ _ _ _ hvalue => by
    simp only [Tag.node, Node.unmeasured, hvalue.unmeasured_node]
  | _, _, .bare .. => rfl
  | _, _, .call _ _ _ _ _ _ _ hfirst hrest => by
    simp only [Tag.node, Node.unmeasured, Node.allUnmeasured, hfirst.unmeasured_node,
      hrest.unmeasured_nodes]

theorem Value.Relaid.unmeasured_node : {v v' : Value} → Value.Relaid v v' →
    v.node.unmeasured = v'.node.unmeasured
  | _, _, .tag ht => ht.unmeasured_node
  | _, _, .quoted .. => rfl
  | _, _, .template hitems => by
    simp only [Value.node, Node.unmeasured, Node.allUnmeasured_mergeTexts, hitems.unmeasured_nodes]

theorem Argument.AllRelaid.unmeasured_nodes : {rest rest' : List Argument} →
    Argument.AllRelaid rest rest' →
    Node.allUnmeasured (Argument.nodes rest) = Node.allUnmeasured (Argument.nodes rest')
  | _, _, .nil => rfl
  | _, _, .cons _ _ hvalue hrest => by
    simp only [Argument.nodes, Node.allUnmeasured, hvalue.unmeasured_node, hrest.unmeasured_nodes]

theorem Item.AllRelaid.unmeasured_nodes : {items items' : List Item} →
    Item.AllRelaid items items' →
    Node.allUnmeasured (Item.nodes items) = Node.allUnmeasured (Item.nodes items')
  | _, _, .nil => rfl
  | _, _, .letter _ hrest => by
    simp only [Item.nodes, Node.allUnmeasured, hrest.unmeasured_nodes]
  | _, _, .tag ht hrest => by
    simp only [Item.nodes, Node.allUnmeasured, ht.unmeasured_node, hrest.unmeasured_nodes]
end

theorem Section.Relaid.unmeasured_node {s s' : Section} (h : s.Relaid s') :
    s.node.unmeasured = s'.node.unmeasured := by
  cases h with
  | letter l => rfl
  | tag ht => exact ht.unmeasured_node
  | template hitems => exact (Value.Relaid.template hitems).unmeasured_node

theorem map_unmeasured_of_relaid {sections sections' : List Section}
    (h : List.Forall₂ Section.Relaid sections sections') :
    sections.map (fun s => s.node.unmeasured) = sections'.map fun s => s.node.unmeasured := by
  induction h with
  | nil => rfl
  | cons hs _ ih => rw [List.map_cons, List.map_cons, hs.unmeasured_node, ih]

namespace Document.Relaid

variable {d e : Document}

theorem unmeasured_nodes (h : d.Relaid e) :
    Node.allUnmeasured d.nodes = Node.allUnmeasured e.nodes := by
  have hsections := map_unmeasured_of_relaid h.sections
  simp only [Document.nodes, Node.allUnmeasured_eq_map, List.map_append, List.map_map,
    Function.comp_def, hsections, h.loneEscape]

theorem unmeasured_tree (h : d.Relaid e) : d.tree.unmeasured = e.tree.unmeasured := by
  rw [Document.tree_eq, Document.tree_eq]
  simp only [Node.unmeasured, Node.allUnmeasured_mergeTexts, h.unmeasured_nodes]

theorem compile_source (h : d.Relaid e) {t : Node} (ht : compile d.source = .ok t) :
    compile e.source = .ok e.tree ∧ e.tree.unmeasured = t.unmeasured := by
  rw [compile_eq_ok_iff, Document.source, String.toList_ofList] at ht
  obtain ⟨d', hspelling, rfl, hnesting⟩ := ht
  rw [tree_eq_of_spelling_eq hspelling] at hnesting ⊢
  refine ⟨Template.compile_source ?_, h.unmeasured_tree.symm⟩
  rwa [← Node.nesting_unmeasured, ← h.unmeasured_tree, Node.nesting_unmeasured]

end Document.Relaid
end TagTemplate.Grammar
