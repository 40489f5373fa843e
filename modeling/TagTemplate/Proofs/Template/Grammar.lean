import TagTemplate.Proofs.Template.Tree

/-! The grammar of templates. A derivation spells a source and gives the tree of it; nothing here
reads. Derivations are data, so that what a source is made of can be taken apart, changed and put
together again. -/
namespace TagTemplate.Grammar
open Template

structure Spaces where
  chars : List Char
  blank : ∀ c ∈ chars, isSpace c

structure Gap extends Spaces where
  nonempty : chars ≠ []

structure Name where
  chars : List Char
  nonempty : chars ≠ []
  named : ∀ c ∈ chars, isNameChar c

def Name.text (n : Name) : String :=
  String.ofList n.chars

/-- A unit of text: a character without a meaning of its own, or any character behind an escape. -/
inductive Letter (special : List Char) where
  | plain (c : Char) (ordinary : c ∉ special)
  | pair (c : Char)

mutual
inductive Tag where
  | comment (text : List Char) (unclosed : tagClose ∉ text)
  | declaration (front : Spaces) (name : Name) (behind lead : Spaces) (value : Value)
      (back : Spaces)
  | bare (front : Spaces) (name : Name) (back : Spaces)
  | call (front : Spaces) (name : Name) (gap : Gap) (first : Value) (rest : List Argument)
      (back : Spaces)

inductive Value where
  | tag (t : Tag)
  | quoted (quote : Quote) (letters : List (Letter quote.delimiters))
  | template (items : List Item)

inductive Argument where
  | mk (lead : Spaces) (value : Value)

inductive Item where
  | letter (l : Letter templateDelimiters)
  | tag (t : Tag)
end

inductive Section where
  | item (i : Item)
  | template (items : List Item)

/-- A document may end with an escape that nothing follows. -/
structure Document where
  sections : List Section
  loneEscape : Bool

def Letter.spelling : Letter special → List Char
  | plain c _ => [c]
  | pair c => [escapeMark, c]

def Value.opening : Value → Char
  | tag _ => tagOpen
  | quoted quote _ => quote.mark
  | template _ => templateMark

def Value.closing : Value → Char
  | tag _ => tagClose
  | quoted quote _ => quote.mark
  | template _ => templateMark

def Value.wrap (v : Value) (body : List Char) : List Char :=
  v.opening :: (body ++ [v.closing])

mutual
def Tag.body : Tag → List Char
  | .comment text _ => commentMark :: text
  | .declaration front name behind lead value back =>
    front.chars ++ name.chars ++ behind.chars ++
      assignMark :: (lead.chars ++ value.wrap value.body ++ back.chars)
  | .bare front name back => front.chars ++ name.chars ++ back.chars
  | .call front name gap first rest back =>
    front.chars ++ name.chars ++ gap.chars ++ first.wrap first.body ++ Argument.spellings rest ++
      back.chars

def Value.body : Value → List Char
  | .tag t => t.body
  | .quoted _ letters => letters.flatMap Letter.spelling
  | .template items => Item.spellings items

def Argument.spellings : List Argument → List Char
  | [] => []
  | .mk lead value :: rest => lead.chars ++ value.wrap value.body ++ Argument.spellings rest

def Item.spellings : List Item → List Char
  | [] => []
  | .letter l :: rest => l.spelling ++ Item.spellings rest
  | .tag t :: rest => (Value.tag t).wrap t.body ++ Item.spellings rest
end

def Value.spelling (v : Value) : List Char :=
  v.wrap v.body

def Item.spelling : Item → List Char
  | letter l => l.spelling
  | tag t => (Value.tag t).spelling

def Section.spelling : Section → List Char
  | item i => i.spelling
  | template items => (Value.template items).spelling

def escapeIf (escaped : Bool) : List Char :=
  if escaped then [escapeMark] else []

def Document.spelling (d : Document) : List Char :=
  d.sections.flatMap Section.spelling ++ escapeIf d.loneEscape

/-- What a letter stands for. The escape goes only where it was needed. -/
def Letter.content : Letter special → List Char
  | plain c _ => [c]
  | pair c => if c ∈ special then [c] else [escapeMark, c]

def Letter.node (l : Letter templateDelimiters) : Node :=
  .text (String.ofList l.content) l.spelling.length

mutual
def Tag.node : Tag → Node
  | .comment text unclosed =>
    .comment (String.ofList text) (Value.tag (.comment text unclosed)).spelling.length
  | .declaration front name behind lead value back =>
    .declaration name.text (some value.node)
      (Value.tag (.declaration front name behind lead value back)).spelling.length
  | .bare front name back =>
    .tag name.text [] (Value.tag (.bare front name back)).spelling.length
  | .call front name gap first rest back =>
    .tag name.text (first.node :: Argument.nodes rest)
      (Value.tag (.call front name gap first rest back)).spelling.length

def Value.node : Value → Node
  | .tag t => t.node
  | .quoted quote letters =>
    .quoted quote (String.ofList (letters.flatMap Letter.content))
      (Value.quoted quote letters).spelling.length
  | .template items =>
    .template (Node.mergeTexts (Item.nodes items)) (Value.template items).spelling.length

def Argument.nodes : List Argument → List Node
  | [] => []
  | .mk _ value :: rest => value.node :: Argument.nodes rest

def Item.nodes : List Item → List Node
  | [] => []
  | .letter l :: rest => l.node :: Item.nodes rest
  | .tag t :: rest => t.node :: Item.nodes rest
end

def Item.node : Item → Node
  | letter l => l.node
  | tag t => t.node

def Section.node : Section → Node
  | item i => i.node
  | template items => (Value.template items).node

def loneEscapeNodes (loneEscape : Bool) : List Node :=
  if loneEscape then [.text (String.singleton escapeMark) 1] else []

def Document.tree (d : Document) : Node :=
  .template (Node.mergeTexts (d.sections.map Section.node ++ loneEscapeNodes d.loneEscape))
    d.spelling.length

@[simp] theorem Value.length_wrap (v : Value) (body : List Char) :
    (v.wrap body).length = body.length + 2 := by
  simp [wrap]

@[simp] theorem Value.length_spelling (v : Value) : v.spelling.length = v.body.length + 2 :=
  v.length_wrap v.body

@[simp] theorem Tag.length_node (t : Tag) : t.node.length = t.body.length + 2 := by
  cases t <;> simp [Tag.node, Node.length, Value.body]

@[simp] theorem Value.length_node (v : Value) : v.node.length = v.body.length + 2 := by
  cases v with
  | tag t => exact t.length_node
  | quoted quote letters => exact (quoted quote letters).length_spelling
  | template items => exact (template items).length_spelling

@[simp] theorem Tag.isText_node (t : Tag) : t.node.isText = false := by
  cases t <;> rfl

@[simp] theorem Value.isText_node (v : Value) : v.node.isText = false := by
  cases v with
  | tag t => exact t.isText_node
  | _ => rfl

theorem Item.spellings_eq_flatMap (items : List Item) :
    Item.spellings items = items.flatMap Item.spelling := by
  induction items with
  | nil => rfl
  | cons i rest ih =>
    cases i <;> simp only [Item.spellings, ih, List.flatMap_cons] <;> rfl

theorem Item.nodes_eq_map (items : List Item) : Item.nodes items = items.map Item.node := by
  induction items with
  | nil => rfl
  | cons i rest ih => cases i <;> simp only [Item.nodes, ih, List.map_cons] <;> rfl

@[simp] theorem Argument.spellings_append (first rest : List Argument) :
    Argument.spellings (first ++ rest) = Argument.spellings first ++ Argument.spellings rest := by
  induction first with
  | nil => rfl
  | cons a others ih =>
    cases a
    simp only [List.cons_append, Argument.spellings, ih, List.append_assoc]

@[simp] theorem Argument.nodes_append (first rest : List Argument) :
    Argument.nodes (first ++ rest) = Argument.nodes first ++ Argument.nodes rest := by
  induction first with
  | nil => rfl
  | cons a others ih =>
    cases a
    simp only [List.cons_append, Argument.nodes, ih]

end TagTemplate.Grammar
