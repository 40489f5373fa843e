import Mathlib.Data.List.Forall2
import TagTemplate.Proofs.Template.Documents
import TagTemplate.Proofs.Template.Shape

/-! The canonical source of a tree, and what compiling it gives. The trees that sources compile to are
the well-shaped documents: derivations are well-shaped, and a well-shaped document is derived. -/
namespace TagTemplate.Template
open Grammar

def escaped (special : List Char) (c : Char) : List Char :=
  if c ∈ special then [escapeMark, c] else [c]

namespace Node

mutual
/-- The canonical source of a node inside a document. -/
def source : Node → List Char
  | text content _ => content.toList.flatMap (escaped templateDelimiters)
  | quoted quote content _ =>
    quote.mark :: (content.toList.flatMap (escaped quote.delimiters) ++ [quote.mark])
  | template children _ => templateMark :: (sources children ++ [templateMark])
  | tag name arguments _ => tagOpen :: (name.toList ++ spacedSources arguments ++ [tagClose])
  | comment content _ => tagOpen :: commentMark :: (content.toList ++ [tagClose])
  | declaration name (some value) _ =>
    tagOpen :: (name.toList ++ assignMark :: (value.source ++ [tagClose]))
  | declaration name none _ => tagOpen :: (name.toList ++ [assignMark, tagClose])
  | foreign .. => []

def sources : List Node → List Char
  | [] => []
  | node :: rest => node.source ++ sources rest

def spacedSources : List Node → List Char
  | [] => []
  | node :: rest => ' ' :: (node.source ++ spacedSources rest)
end

def documentSource : Node → String
  | template children _ => String.ofList (sources children)
  | node => String.ofList node.source

end Node

def letter (special : List Char) (c : Char) : Letter special :=
  if h : c ∈ special then .pair c else .plain c h

@[simp] theorem spelling_letter (special : List Char) (c : Char) :
    (letter special c).spelling = escaped special c := by
  by_cases h : c ∈ special <;> simp [letter, escaped, h, Letter.spelling]

@[simp] theorem content_letter (special : List Char) (c : Char) :
    (letter special c).content = [c] := by
  by_cases h : c ∈ special <;> simp [letter, h, Letter.content]

theorem exists_name {name : String} (h : Node.isName name) :
    ∃ n : Name, n.chars = name.toList ∧ n.text = name := by
  simp only [Node.isName, Bool.and_eq_true, bne_iff_ne, List.all_eq_true] at h
  have hne : name.toList ≠ [] := by simpa using h.1
  exact ⟨⟨name.toList, hne, h.2⟩, rfl, String.ofList_toList⟩

def textItems (content : String) : List Item :=
  content.toList.map fun c => .letter (letter templateDelimiters c)

/-- The value is a derivation of the canonical source, and of the node but for the lengths. -/
def Derives (v : Value) (node : Node) : Prop :=
  v.spelling = node.source ∧ v.node.unmeasured = node.unmeasured

theorem Derives.wrap {v : Value} {node : Node} (h : Derives v node) : v.wrap v.body = node.source :=
  h.1

theorem derives_quoted (quote : Quote) (content : String) (n : Nat) :
    Derives (.quoted quote (content.toList.map (letter quote.delimiters)))
      (.quoted quote content n) := by
  constructor
  · simp [Value.spelling, Value.wrap, Value.opening, Value.closing, Value.body, Node.source,
      List.flatMap_map]
  · simp [Value.node, Node.unmeasured, List.flatMap_map]

theorem exists_derives_comment {content : String} (h : tagClose ∉ content.toList) (n : Nat) :
    ∃ t : Tag, Derives (.tag t) (.comment content n) := by
  refine ⟨.comment content.toList h, ?_, ?_⟩
  · simp [Value.spelling, Value.wrap, Value.opening, Value.closing, Value.body, Tag.body,
      Node.source]
  · simp [Value.node, Tag.node, Node.unmeasured]

def oneSpace : Gap where
  chars := [' ']
  blank := by simp [isSpace]
  nonempty := List.cons_ne_nil ' ' []

theorem exists_derives_declaration {name : String} {value : Node} {v : Value}
    (hname : Node.isName name) (hv : Derives v value) (n : Nat) :
    ∃ t : Tag, Derives (.tag t) (.declaration name (some value) n) := by
  obtain ⟨m, hchars, htext⟩ := exists_name hname
  refine ⟨.declaration noSpaces m noSpaces noSpaces v noSpaces, ?_, ?_⟩
  · simp [Value.spelling, Value.wrap, Value.opening, Value.closing, Value.body, Tag.body,
      Node.source, noSpaces, hchars, ← hv.wrap]
  · simp [Value.node, Tag.node, Node.unmeasured, htext, hv.2]

def spaced (values : List Value) : List Argument :=
  values.map (.mk oneSpace.toSpaces)

theorem spellings_spaced {values : List Value} {nodes : List Node}
    (h : List.Forall₂ Derives values nodes) :
    Argument.spellings (spaced values) = Node.spacedSources nodes := by
  induction h with
  | nil => rfl
  | cons hv _ ih =>
    simp only [spaced, List.map_cons, Argument.spellings, Node.spacedSources] at ih ⊢
    rw [hv.wrap, ih]
    rfl

theorem unmeasured_nodes_spaced {values : List Value} {nodes : List Node}
    (h : List.Forall₂ Derives values nodes) :
    Node.allUnmeasured (Argument.nodes (spaced values)) = Node.allUnmeasured nodes := by
  induction h with
  | nil => rfl
  | cons hv _ ih =>
    simp only [spaced] at ih
    simp [spaced, Argument.nodes, Node.allUnmeasured, hv.2, ih]

theorem exists_derives_tag {name : String} {arguments : List Node} {values : List Value}
    (hname : Node.isName name) (h : List.Forall₂ Derives values arguments) (n : Nat) :
    ∃ t : Tag, Derives (.tag t) (.tag name arguments n) := by
  obtain ⟨m, hchars, htext⟩ := exists_name hname
  cases h with
  | nil =>
    refine ⟨.bare noSpaces m noSpaces, ?_, ?_⟩
    · simp [Value.spelling, Value.wrap, Value.opening, Value.closing, Value.body, Tag.body,
        Node.source, Node.spacedSources, noSpaces, hchars]
    · simp [Value.node, Tag.node, Node.unmeasured, htext]
  | @cons v _ rest _ hv hrest =>
    refine ⟨.call noSpaces m oneSpace v (spaced rest) noSpaces, ?_, ?_⟩
    · simp [Value.spelling, Value.wrap, Value.opening, Value.closing, Value.body, Tag.body,
        Node.source, Node.spacedSources, noSpaces, oneSpace, hchars, ← hv.wrap,
        spellings_spaced hrest]
    · simp [Value.node, Tag.node, Node.unmeasured, Node.allUnmeasured, htext, hv.2,
        unmeasured_nodes_spaced hrest]

/-- Parts of a template spell the canonical source of its children, and their nodes, merged, are the
children but for the lengths. -/
def PartsDerive (spelling : List Char) (parts nodes : List Node) : Prop :=
  spelling = Node.sources nodes ∧
    Node.mergeTexts (Node.allUnmeasured parts) = Node.allUnmeasured nodes

theorem partsDerive_nil : PartsDerive [] [] [] := ⟨rfl, rfl⟩

theorem nodes_textItems (content : String) :
    (textItems content).map (fun i => i.node.unmeasured) =
      content.toList.map fun d => Node.text (String.ofList [d]) 0 := by
  simp [textItems, Item.node, Letter.node, Node.unmeasured]

theorem partsDerive_text {content : String} {spelling : List Char} {parts nodes : List Node} (n : Nat)
    (hne : content ≠ "") (hapart : Node.textsApart (.text content n :: nodes))
    (h : PartsDerive spelling parts nodes) :
    PartsDerive ((textItems content).flatMap Item.spelling ++ spelling)
      ((textItems content).map Item.node ++ parts) (.text content n :: nodes) := by
  obtain ⟨hspelling, hparts⟩ := h
  constructor
  · simp [textItems, List.flatMap_map, Item.spelling, hspelling, Node.sources, Node.source]
  have hhead : ∀ node ∈ (Node.mergeTexts (Node.allUnmeasured parts)).head?, node.isText = false := by
    rw [hparts, Node.allUnmeasured_eq_map]
    simpa using Node.head_not_isText_of_textsApart hapart
  obtain ⟨c, cs, hcs⟩ := List.exists_cons_of_ne_nil (show content.toList ≠ [] by simpa using hne)
  have hletters := Node.mergeTexts_letters c cs hhead
  rw [← hcs, ← nodes_textItems, String.ofList_toList, hparts] at hletters
  rw [Node.allUnmeasured_eq_map, List.map_append, List.map_map, ← Node.allUnmeasured_eq_map]
  exact hletters

theorem partsDerive_value {v : Value} {node : Node} {spelling : List Char} {parts nodes : List Node}
    (hv : Derives v node) (h : PartsDerive spelling parts nodes) :
    PartsDerive (v.spelling ++ spelling) (v.node :: parts) (node :: nodes) := by
  obtain ⟨hspelling, hparts⟩ := h
  have htext : node.unmeasured.isText = false := by
    rw [← hv.2, Node.isText_unmeasured, Value.isText_node]
  constructor
  · rw [hv.1, hspelling, Node.sources]
  · rw [Node.allUnmeasured, Node.mergeTexts, hparts, hv.2, Node.attach_of_isText_eq_false htext,
      Node.allUnmeasured]

theorem derives_template {items : List Item} {children : List Node}
    (h : PartsDerive (Item.spellings items) (Item.nodes items) children) (n : Nat) :
    Derives (.template items) (.template children n) := by
  constructor
  · simp [Value.spelling, Value.wrap, Value.opening, Value.closing, Value.body, Node.source, h.1]
  · simp only [Value.node, Node.unmeasured, Node.allUnmeasured_mergeTexts, h.2]

theorem exists_tag_of_derives {v : Value} {node : Node} (h : Derives v node)
    (hquoted : node.isQuoted = false) (htemplate : node.isTemplate = false) :
    ∃ t : Tag, v = .tag t := by
  rw [← Node.isQuoted_unmeasured, ← h.2, Node.isQuoted_unmeasured] at hquoted
  rw [← Node.isTemplate_unmeasured, ← h.2, Node.isTemplate_unmeasured] at htemplate
  cases v with
  | tag t => exact ⟨t, rfl⟩
  | quoted => cases hquoted
  | template => cases htemplate

mutual
theorem exists_derives : (node : Node) → node.wellShaped → node.isText = false →
    ∃ v : Value, Derives v node
  | .text .., _, h => Bool.noConfusion h
  | .quoted quote content n, _, _ => ⟨_, derives_quoted quote content n⟩
  | .template children n, h, _ => by
    simp only [Node.wellShaped, Bool.and_eq_true] at h
    obtain ⟨items, hitems⟩ := exists_items children h.2 h.1.1 h.1.2
    exact ⟨_, derives_template hitems n⟩
  | .tag name arguments n, h, _ => by
    simp only [Node.wellShaped, Bool.and_eq_true] at h
    obtain ⟨values, hvalues⟩ := exists_forall₂_derives arguments h.2 h.1.2
    obtain ⟨t, ht⟩ := exists_derives_tag h.1.1 hvalues n
    exact ⟨.tag t, ht⟩
  | .comment content n, h, _ => by
    obtain ⟨t, ht⟩ := exists_derives_comment (by simpa [Node.wellShaped] using h) n
    exact ⟨.tag t, ht⟩
  | .declaration name (some value) n, h, _ => by
    simp only [Node.wellShaped, Bool.and_eq_true, Bool.not_eq_true'] at h
    obtain ⟨v, hv⟩ := exists_derives value h.2 h.1.2
    obtain ⟨t, ht⟩ := exists_derives_declaration h.1.1 hv n
    exact ⟨.tag t, ht⟩

theorem exists_forall₂_derives : (nodes : List Node) → Node.allWellShaped nodes →
    nodes.all (!·.isText) → ∃ values : List Value, List.Forall₂ Derives values nodes
  | [], _, _ => ⟨[], .nil⟩
  | node :: rest, h, htexts => by
    simp only [Node.allWellShaped, List.all_cons, Bool.and_eq_true, Bool.not_eq_true'] at h htexts
    obtain ⟨v, hv⟩ := exists_derives node h.1 htexts.1
    obtain ⟨values, hvalues⟩ := exists_forall₂_derives rest h.2 htexts.2
    exact ⟨v :: values, .cons hv hvalues⟩

theorem exists_items : (nodes : List Node) → Node.allWellShaped nodes → Node.textsApart nodes →
    nodes.all (fun child => !child.isQuoted && !child.isTemplate) →
    ∃ items : List Item, PartsDerive (Item.spellings items) (Item.nodes items) nodes
  | [], _, _, _ => ⟨[], partsDerive_nil⟩
  | node :: rest, h, hapart, hkinds => by
    simp only [Node.allWellShaped, List.all_cons, Bool.and_eq_true, Bool.not_eq_true'] at h hkinds
    have hrest := hapart
    simp only [Node.textsApart_cons, Bool.and_eq_true] at hrest
    obtain ⟨items, hitems⟩ := exists_items rest h.2 hrest.2 hkinds.2
    by_cases htext : node.isText
    · obtain ⟨content, n, rfl⟩ := Node.exists_text_of_isText htext
      refine ⟨textItems content ++ items, ?_⟩
      have hparts := partsDerive_text n (by simpa [Node.wellShaped] using h.1) hapart hitems
      rwa [Item.spellings_eq_flatMap items, Item.nodes_eq_map items, ← List.flatMap_append,
        ← List.map_append, ← Item.spellings_eq_flatMap, ← Item.nodes_eq_map] at hparts
    · obtain ⟨v, hv⟩ := exists_derives node h.1 (by simpa using htext)
      obtain ⟨t, rfl⟩ := exists_tag_of_derives hv hkinds.1.1 hkinds.1.2
      exact ⟨.tag t :: items, partsDerive_value hv hitems⟩
end

theorem exists_sections {nodes : List Node} (h : Node.allWellShaped nodes)
    (hapart : Node.textsApart nodes) (hquoted : nodes.all (!·.isQuoted)) :
    ∃ sections : List Section,
      PartsDerive (sections.flatMap Section.spelling) (sections.map Section.node) nodes := by
  induction nodes with
  | nil => exact ⟨[], partsDerive_nil⟩
  | cons node rest ih =>
    simp only [Node.allWellShaped, List.all_cons, Bool.and_eq_true, Bool.not_eq_true'] at h hquoted
    have hrest := hapart
    simp only [Node.textsApart_cons, Bool.and_eq_true] at hrest
    obtain ⟨sections, hsections⟩ := ih h.2 hrest.2 hquoted.2
    by_cases htext : node.isText
    · obtain ⟨content, n, rfl⟩ := Node.exists_text_of_isText htext
      refine ⟨(textItems content).map .item ++ sections, ?_⟩
      have hparts := partsDerive_text n (by simpa [Node.wellShaped] using h.1) hapart hsections
      rwa [List.flatMap_append, List.map_append, List.flatMap_map, List.map_map]
    · obtain ⟨v, hv⟩ := exists_derives node h.1 (by simpa using htext)
      have hkind := hquoted.1
      rw [← Node.isQuoted_unmeasured, ← hv.2, Node.isQuoted_unmeasured] at hkind
      have hparts := partsDerive_value hv hsections
      cases v with
      | tag t => exact ⟨.item (.tag t) :: sections, hparts⟩
      | quoted => cases hkind
      | template items => exact ⟨.template items :: sections, hparts⟩

/-- A well-shaped document is the tree of a derivation of its canonical source, lengths apart. -/
theorem exists_document {t : Node} (h : t.isDocument) :
    ∃ d : Document, d.spelling = t.documentSource.toList ∧ d.tree.unmeasured = t.unmeasured := by
  cases t with
  | template children n =>
    simp only [Node.isDocument, Bool.and_eq_true] at h
    obtain ⟨sections, hspelling, hnodes⟩ := exists_sections h.2 h.1.1 h.1.2
    refine ⟨⟨sections, false⟩, ?_, ?_⟩
    · simp [Document.spelling, Node.documentSource, hspelling, escapeIf]
    · simp [Document.tree, loneEscapeNodes, Node.unmeasured, Node.allUnmeasured_mergeTexts, hnodes]
  | _ => cases h

/-- The trees that sources compile to are, lengths apart, the well-shaped documents that nest within
the limit. The canonical source of such a document compiles to it. -/
theorem compile_image (t : Node) :
    ((∃ source u, compile source = .ok u ∧ u.unmeasured = t.unmeasured) ↔
      t.isDocument ∧ t.nesting ≤ nestingLimit + 1) ∧
    (t.isDocument ∧ t.nesting ≤ nestingLimit + 1 →
      ∃ u, compile t.documentSource = .ok u ∧ u.unmeasured = t.unmeasured) := by
  have hprint : t.isDocument ∧ t.nesting ≤ nestingLimit + 1 →
      ∃ u, compile t.documentSource = .ok u ∧ u.unmeasured = t.unmeasured := by
    rintro ⟨hshape, hnesting⟩
    obtain ⟨d, hspelling, htree⟩ := exists_document hshape
    refine ⟨d.tree, ?_, htree⟩
    rw [compile_eq_ok_iff]
    refine ⟨d, hspelling, rfl, ?_⟩
    rwa [← Node.nesting_unmeasured, htree, Node.nesting_unmeasured]
  refine ⟨⟨?_, fun h => ⟨t.documentSource, hprint h⟩⟩, hprint⟩
  rintro ⟨source, u, hcompile, hu⟩
  rw [compile_eq_ok_iff] at hcompile
  obtain ⟨d, -, rfl, hnesting⟩ := hcompile
  rw [← Node.isDocument_unmeasured, ← hu, Node.isDocument_unmeasured, ← Node.nesting_unmeasured,
    ← hu, Node.nesting_unmeasured]
  exact ⟨isDocument_tree d, hnesting⟩

end TagTemplate.Template
