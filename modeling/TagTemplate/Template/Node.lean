import TagTemplate.Template.Alphabet

/-! The tree of a template. Every node records how many characters of the source it stands for, its
delimiters included. -/
namespace TagTemplate.Template

inductive Node where
  | text (content : String) (length : Nat)
  | quoted (quote : Quote) (content : String) (length : Nat)
  | template (children : List Node) (length : Nat)
  | tag (name : String) (arguments : List Node) (length : Nat)
  | comment (content : String) (length : Nat)
  | declaration (name : String) (value : Option Node) (length : Nat)
  /-- A node of a kind that templates do not have. -/
  | foreign (kind : String) (length : Nat)
  deriving BEq, Inhabited

namespace Node

/-- The number of characters that the node stands for. -/
def length : Node → Nat
  | text _ n => n
  | quoted _ _ n => n
  | template _ n => n
  | tag _ _ n => n
  | comment _ n => n
  | declaration _ _ n => n
  | foreign _ n => n

def kind : Node → String
  | text .. => "TextLiteralNode"
  | quoted .single .. => "SingleQuoteStringNode"
  | quoted .double .. => "DoubleQuoteStringNode"
  | template .. => "TemplateStringNode"
  | tag .. => "TagNode"
  | comment .. => "CommentTagNode"
  | declaration .. => "VariableDeclarationTagNode"
  | foreign kind _ => kind

mutual
/-- Whether two nodes are alike in kind, content and length, all the way down. -/
def same : Node → Node → Bool
  | text a m, text b n => a == b && m == n
  | quoted p a m, quoted q b n => p == q && a == b && m == n
  | template as m, template bs n => sameList as bs && m == n
  | tag a as m, tag b bs n => a == b && sameList as bs && m == n
  | comment a m, comment b n => a == b && m == n
  | declaration a (some v) m, declaration b (some w) n => a == b && same v w && m == n
  | declaration a none m, declaration b none n => a == b && m == n
  | foreign a m, foreign b n => a == b && m == n
  | _, _ => false

def sameList : List Node → List Node → Bool
  | [], [] => true
  | a :: as, b :: bs => same a b && sameList as bs
  | _, _ => false
end

mutual
def nodes : Node → List Node
  | template children n => template children n :: nodesOf children
  | tag name arguments n => tag name arguments n :: nodesOf arguments
  | declaration name (some value) n => declaration name (some value) n :: nodes value
  | node => [node]

def nodesOf : List Node → List Node
  | [] => []
  | node :: rest => nodes node ++ nodesOf rest
end

def tagName? : Node → Option String
  | tag name .. => some name
  | _ => none

def declaredName? : Node → Option String
  | declaration name .. => some name
  | _ => none

def tagNames (node : Node) : List String :=
  node.nodes.filterMap tagName?

def declaredNames (node : Node) : List String :=
  node.nodes.filterMap declaredName?

/-- Appends text that stands for `consumed` characters of the source. It lengthens a text that
stands last, so texts appended one after another become one node. -/
def appendText : List Node → (content : String) → (consumed : Nat) → List Node
  | [], content, consumed => [text content consumed]
  | [text before n], content, consumed => [text (before ++ content) (n + consumed)]
  | [node], content, consumed => [node, text content consumed]
  | first :: second :: rest, content, consumed =>
    first :: appendText (second :: rest) content consumed

end Node
end TagTemplate.Template
