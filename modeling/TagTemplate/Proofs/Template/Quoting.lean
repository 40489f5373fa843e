import TagTemplate.Proofs.Template.Frames
import TagTemplate.Proofs.Template.Joining
import TagTemplate.Proofs.Template.Printer

/-! Texts with escapes in them. With an escape in front of every special character a text is read as
itself, by itself as a document, and between template marks or quotes wherever a value may stand; the
reading goes on behind the closing mark. -/
namespace TagTemplate.Template
open Grammar Reader

def encoded (special : List Char) (s : String) : List Char :=
  s.toList.flatMap (escaped special)

inductive Literal where
  | template
  | quoted (quote : Quote)

def textNodes (s : String) (length : Nat) : List Node :=
  if s = "" then [] else [.text s length]

namespace Literal

def mark : Literal → Char
  | template => templateMark
  | quoted quote => quote.mark

def special : Literal → List Char
  | template => templateDelimiters
  | quoted quote => quote.delimiters

def source (l : Literal) (s : String) : List Char :=
  l.mark :: (encoded l.special s ++ [l.mark])

def node (l : Literal) (s : String) : Node :=
  match l with
  | template =>
    .template (textNodes s (encoded templateDelimiters s).length) (source template s).length
  | quoted quote => .quoted quote s (source (quoted quote) s).length

def production : Literal → Production
  | template => .template
  | quoted _ => .string

def value (l : Literal) (s : String) : Value :=
  match l with
  | template => .template (textItems s)
  | quoted quote => .quoted quote (s.toList.map (letter quote.delimiters))

end Literal

theorem spellings_textItems (s : String) :
    Item.spellings (textItems s) = encoded templateDelimiters s := by
  simp [Item.spellings_eq_flatMap, textItems, encoded, List.flatMap_map, Item.spelling]

theorem mergeTexts_letter_nodes (cs : List Char) :
    Node.mergeTexts (cs.map fun c => (letter templateDelimiters c).node) =
      textNodes (String.ofList cs) (cs.flatMap (escaped templateDelimiters)).length := by
  induction cs with
  | nil => rfl
  | cons c rest ih =>
    rw [List.map_cons, Node.mergeTexts, ih]
    cases rest with
    | nil => simp [textNodes, Letter.node]
    | cons d more =>
      simp [textNodes, Letter.node, Node.attach]

theorem mergeTexts_textItems (s : String) :
    Node.mergeTexts (Item.nodes (textItems s)) =
      textNodes s (encoded templateDelimiters s).length := by
  have hletters := mergeTexts_letter_nodes s.toList
  rw [String.ofList_toList] at hletters
  rw [Item.nodes_eq_map, textItems, List.map_map]
  exact hletters

namespace Literal

theorem spelling_value (l : Literal) (s : String) : (l.value s).spelling = l.source s := by
  cases l with
  | template =>
    simp [value, source, Value.spelling, Value.wrap, Value.opening, Value.closing, Value.body,
      spellings_textItems, mark, special]
  | quoted quote =>
    simp [value, source, encoded, Value.spelling, Value.wrap, Value.opening, Value.closing,
      Value.body, List.flatMap_map, mark, special]

theorem node_value (l : Literal) (s : String) : (l.value s).node = l.node s := by
  cases l with
  | template =>
    simp only [value, Value.node, mergeTexts_textItems, node]
    rw [← spelling_value, value]
  | quoted quote =>
    simp only [value, Value.node, node]
    rw [← spelling_value, value]
    simp [List.flatMap_map]

theorem length_node (l : Literal) (s : String) :
    (l.node s).length = (encoded l.special s).length + 2 := by
  cases l <;> simp [node, source, Node.length, special]

theorem nesting_node (l : Literal) (s : String) : (l.node s).nesting = 1 := by
  cases l with
  | template =>
    simp only [node, Node.nesting, textNodes]
    split <;> simp [Node.deepest]
  | quoted quote => rfl

end Literal

variable {limit n : Nat} {outer : List (Holder × Nat)} {delimited : Bool} {holder : Holder}

/-- A value inside its delimiters is read to its closing one, whatever there is behind that. -/
theorem read_body_of_value {v : Value} (h : v.node.nesting ≤ limit + 1) (index : Int)
    (rest : List Char) :
    Reader.read limit (.start v.initial true) index (v.body ++ v.closing :: rest) = .ok v.node := by
  obtain ⟨last, hbody, hclose, hnode⟩ := readable v ⟨limit, [], true⟩ (by simpa using h)
  have hread := read_append_of_run? hbody index (v.closing :: rest)
  rw [← hnode, ← read_cons_of_close hclose (index + v.body.length) rest]
  exact hread

/-- What the construct awaits next may be the literal: an argument, the value of a declaration, or,
in a document, a template. -/
inductive Awaits (enclosed : Bool) : Holder → Literal → Prop where
  | argument (name : String) (arguments : List Node) {turn : Nat} (h : 0 < turn) (l : Literal) :
    Awaits enclosed (.tag name arguments turn) l
  | value (name : String) (l : Literal) : Awaits enclosed (.declaration name none 1) l
  | document (children : List Node) (h : enclosed = false) :
    Awaits enclosed (.template children false) .template

namespace Literal

theorem construct_production (l : Literal) (s : String) {data : List Char} {start : Nat}
    (h : data[start]? = some l.mark) :
    l.production.construct data start = (l.value s).initial := by
  cases l with
  | template => rfl
  | quoted quote =>
    simp only [production, Production.construct, h]
    cases quote <;> rfl

theorem parse_source (l : Literal) (s : String) (front rest : List Char) (origin : Option Origin) :
    l.production.parse (front ++ l.source s ++ rest) origin true front.length =
      .ok (l.node s) := by
  have hopening : (front ++ l.source s ++ rest)[front.length]? = some l.mark := by
    simp [source]
  have hbody : l.production.body true front.length = front.length + 1 := by cases l <;> rfl
  have hspelling : l.source s = (l.value s).opening :: ((l.value s).body ++ [(l.value s).closing]) := by
    rw [← spelling_value, Value.spelling, Value.wrap]
  have hbehind : (front ++ l.source s ++ rest).drop (front.length + 1) =
      (l.value s).body ++ (l.value s).closing :: rest := by
    rw [hspelling]
    simp
  have hnesting : (l.value s).node.nesting ≤ nestingLimit + 1 := by
    rw [node_value, nesting_node]
    decide
  simp only [Production.parse, hbody, hbehind, construct_production l s hopening,
    read_body_of_value hnesting, node_value, mapError_ok]

theorem move_opening {enclosed : Bool} {l : Literal} (h : Awaits enclosed holder l) (s : String)
    (n : Nat) :
    (Construct.holder holder).move enclosed n (l.value s).opening =
      .ok (.enter holder (l.value s).initial) := by
  cases h with
  | argument name arguments hturn =>
    exact (l.value s).move_tag_opening name arguments hturn enclosed n
  | value name => exact (l.value s).move_declaration_opening name enclosed n
  | document children henclosed =>
    subst henclosed
    rfl

theorem read_source {l : Literal} (s : String) (h : Awaits (delimited || !outer.isEmpty) holder l)
    (hroom : outer.length < limit) (index : Int) (rest : List Char) :
    Reader.read limit ⟨.holder holder, n, outer, delimited⟩ index (l.source s ++ rest) =
      Reader.read limit ⟨.holder (holder.receive (l.node s)), n + (l.node s).length, outer, delimited⟩
        (index + (l.node s).length) rest := by
  let x : Context := ⟨limit, outer, delimited⟩
  have hnesting : x.outer.length + (l.value s).node.nesting ≤ x.limit := by
    rw [node_value, nesting_node]
    exact hroom
  have hleads := (readable (l.value s)).leads (x := x) (move_opening h s) hnesting
  have hread := read_append_of_run? (hleads n) index rest
  have hlength : (l.value s).spelling.length = (l.node s).length := by
    rw [Value.length_spelling, ← Value.length_node, node_value]
  rw [hlength, node_value, spelling_value] at hread
  exact hread

end Literal

def textDocument (s : String) : Document :=
  ⟨(textItems s).map .item, false⟩

theorem spelling_textDocument (s : String) :
    (textDocument s).spelling = encoded templateDelimiters s := by
  simp [textDocument, Document.spelling, escapeIf, List.flatMap_map, Section.spelling,
    ← spellings_textItems, Item.spellings_eq_flatMap]

theorem compile_encoded (s : String) :
    compile (String.ofList (encoded templateDelimiters s)) =
      .ok (.template (textNodes s (encoded templateDelimiters s).length)
        (encoded templateDelimiters s).length) := by
  have htree : (textDocument s).tree = .template (textNodes s (encoded templateDelimiters s).length)
      (encoded templateDelimiters s).length := by
    rw [Document.tree, spelling_textDocument, ← mergeTexts_textItems]
    simp [textDocument, Item.nodes_eq_map, loneEscapeNodes, Section.node, Function.comp_def]
  have hnesting : (textDocument s).tree.nesting ≤ nestingLimit + 1 := by
    rw [htree, Node.nesting, textNodes]
    split <;> simp [Node.deepest, nestingLimit]
  rw [← spelling_textDocument, ← Document.source, compile_source hnesting, htree,
    spelling_textDocument]

end TagTemplate.Template
