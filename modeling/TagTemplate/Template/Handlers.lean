import TagTemplate.Scan.Outcome
import TagTemplate.Template.Compile

/-! The productions as chains of handlers. Each handler looks at one kind of character, and a
construct inside another one is a production that a handler calls. -/
namespace TagTemplate.Template
open Scan

/-- Why a production gives no node: an error in the text, or a scan that has come to a stall. -/
inductive Breakdown (ε : Type) where
  | error (e : ε)
  | stall (message : String)

def Breakdown.map (f : ε → δ) : Breakdown ε → Breakdown δ
  | error e => error (f e)
  | stall message => stall message

namespace Node

def lengthen (more : Nat) : Node → Node
  | text content n => text content (n + more)
  | quoted quote content n => quoted quote content (n + more)
  | template children n => template children (n + more)
  | tag name arguments n => tag name arguments (n + more)
  | comment content n => comment content (n + more)
  | declaration name value n => declaration name value (n + more)
  | foreign kind n => foreign kind (n + more)

/-- Takes in a node that stands behind what the node stands for. -/
def receive (node child : Node) : Node :=
  match node with
  | template children n => template (children ++ [child]) (n + child.length)
  | tag name arguments n => tag name (arguments ++ [child]) (n + child.length)
  | declaration name _ n => declaration name (some child) (n + child.length)
  | node => node

end Node

/-- What a production has built: its node, and the marks that its handlers set for each other. A tag's
`turn` is zero while its name is read. -/
structure Build where
  node : Node
  closed : Bool
  escaped : Bool
  turn : Nat

/-- A production inside another one, by the position of its opening delimiter and its index in the
source. -/
abbrev Nested := Production → (start : Nat) → (index : Int) → Except (Breakdown Reader.Refusal) Node

/-- What the handlers of a production are given. The body begins at `body` in the data, which is
`index` in the source. -/
structure Setting where
  nested : Nested
  body : Nat
  index : Int
  delimited : Bool

abbrev Handle := Act (Breakdown Reader.Refusal) Build

abbrev EndHandle := EndAct (Breakdown Reader.Refusal) Build

namespace Setting

def fault (x : Setting) (fault : Fault) (position : Int) : Breakdown Reader.Refusal :=
  .error ⟨fault, x.index + position⟩

def fail (x : Setting) (fault : Fault) (position : Nat) : Outcome (Breakdown Reader.Refusal) Build :=
  .raise (x.fault fault position)

def call (x : Setting) (p : Production) (position : Nat) (b : Build) :
    Outcome (Breakdown Reader.Refusal) Build :=
  match x.nested p (x.body + position) (x.index + position) with
  | .ok child => .take { b with node := b.node.receive child } child.length
  | .error e => .raise e

def closing (b : Build) : Outcome (Breakdown Reader.Refusal) Build :=
  .finish { b with node := b.node.lengthen 1, closed := true } 1

/-- The node of what has been built. What is delimited stands for its opening delimiter, too. -/
def complete (x : Setting) (b : Build) : Node :=
  b.node.lengthen (if x.delimited then 1 else 0)

def checkClosed (x : Setting) : EndHandle := fun position b =>
  if !b.closed ∧ x.delimited then .error (x.fault .unexpectedEnd (position - 1)) else .ok b

end Setting

def handleEscape : Handle := fun c _ b =>
  if c = escapeMark ∧ !b.escaped then
    .take { b with node := b.node.lengthen 1, escaped := true } 1
  else .skip

def handleQuote (x : Setting) : Handle := fun c _ b =>
  match b.node with
  | .quoted quote .. =>
    if c = quote.mark ∧ x.delimited ∧ !b.escaped then Setting.closing b else .skip
  | _ => .skip

def handleStringLetter : Handle := fun c _ b =>
  match b.node with
  | .quoted quote content n =>
    let content := content ++ escapedText c b.escaped quote.delimiters
    .take { b with node := .quoted quote content (n + 1), escaped := false } 1
  | _ => .skip

def handleTagOpen (x : Setting) : Handle := fun c position b =>
  if c = tagOpen ∧ !b.escaped then x.call .tag position b else .skip

/-- The mark closes a nested template, and opens one in a document. -/
def handleTemplateMark (x : Setting) : Handle := fun c position b =>
  if c ≠ templateMark ∨ b.escaped then .skip
  else if x.delimited then Setting.closing b
  else x.call .template position b

def handleTemplateLetter : Handle := fun c _ b =>
  match b.node with
  | .template children n =>
    let children :=
      Node.appendText children (escapedText c b.escaped templateDelimiters) (if b.escaped then 2 else 1)
    .take { b with node := .template children (n + 1), escaped := false } 1
  | _ => .skip

/-- An escape that nothing follows stays in a document as text. -/
def keepEscape (x : Setting) : EndHandle := fun _ b =>
  match b.node with
  | .template children n =>
    if b.escaped ∧ !x.delimited then
      .ok { b with
        node := .template (Node.appendText children (String.singleton escapeMark) 1) n }
    else .ok b
  | _ => .ok b

def handleTagClose (x : Setting) : Handle := fun c position b =>
  if c = tagClose ∧ x.delimited then
    match b.node with
    | .tag name .. =>
      if name = "" then x.fail .expressionExpected position else Setting.closing b
    | _ => Setting.closing b
  else .skip

/-- The first character may make the tag a comment, which takes everything from then on. -/
def handleComment : Handle := fun c position b =>
  match b.node with
  | .tag _ _ n =>
    if c = commentMark ∧ position = 0 then .take { b with node := .comment "" (n + 1) } 1 else .skip
  | .comment content n => .take { b with node := .comment (content.push c) (n + 1) } 1
  | _ => .skip

def handleAssign (x : Setting) : Handle := fun c position b =>
  match b.node with
  | .tag name arguments n =>
    if c ≠ assignMark then .skip
    else if arguments ≠ [] then x.fail .unexpectedToken position
    else if name = "" then x.fail .invalidName position
    else .take { b with node := .declaration name none (n + 1), turn := 1 } 1
  | _ => .skip

def handleName (x : Setting) : Handle := fun c position b =>
  match b.node with
  | .tag name arguments n =>
    if b.turn ≠ 0 then .skip
    else if isSpace c then
      .take { b with
        node := .tag name arguments (n + 1), turn := if name = "" then b.turn else b.turn + 1 } 1
    else if isNameChar c then .take { b with node := .tag (name.push c) arguments (n + 1) } 1
    else x.fail .invalidName position
  | _ => .skip

/-- Whether an argument or a value stands in front, which a space ends. -/
def Build.ended (b : Build) : Bool :=
  match b.node with
  | .tag _ arguments _ => b.turn ≤ arguments.length
  | .declaration _ value _ => value.isSome
  | _ => false

/-- A space ends an argument, but no two of them make an empty one. -/
def handleSpace : Handle := fun c _ b =>
  if b.turn = 0 ∨ !isSpace c then .skip
  else
    .take { b with node := b.node.lengthen 1, turn := if b.ended then b.turn + 1 else b.turn } 1

def Production.ofOpening? (c : Char) : Option Production :=
  if c = tagOpen then some .tag
  else if c = templateMark then some .template
  else if c = Quote.single.mark ∨ c = Quote.double.mark then some .string
  else none

def Build.valued (b : Build) : Bool :=
  match b.node with
  | .declaration _ value _ => 1 < b.turn || value.isSome
  | _ => false

def handleValue (x : Setting) : Handle := fun c position b =>
  match b.node with
  | .comment .. => .skip
  | _ =>
    if isSpace c then .skip
    else if b.valued then x.fail .unexpectedToken position
    else
      match Production.ofOpening? c with
      | some p => x.call p position b
      | none => x.fail .invalidToken position

def Build.lacksValue (b : Build) : Bool :=
  match b.node with
  | .declaration _ none _ => true
  | _ => false

def checkComplete (x : Setting) : EndHandle := fun position b =>
  if b.lacksValue then .error (x.fault .unexpectedEnd (position - 1)) else x.checkClosed position b

namespace Production

def handlers (x : Setting) : Production → List Handle
  | string => [handleEscape, handleQuote x, handleStringLetter]
  | template => [handleEscape, handleTagOpen x, handleTemplateMark x, handleTemplateLetter]
  | tag =>
    [handleTagClose x, handleComment, handleAssign x, handleName x, handleSpace, handleValue x]

def endHandlers (x : Setting) : Production → List EndHandle
  | string => [x.checkClosed]
  | template => [x.checkClosed, keepEscape x]
  | tag => [checkComplete x]

def seed (data : List Char) (start : Nat) : Production → Node
  | string => .quoted (Quote.ofOpening data[start]?) "" 0
  | tag => .tag "" [] 0
  | template => .template [] 0

def handleWith (nested : Nested) (data : List Char) (delimited : Bool) (p : Production)
    (start : Nat) (index : Int) : Except (Breakdown Reader.Refusal) Node :=
  let x : Setting := ⟨nested, p.body delimited start, index, delimited⟩
  let chain := chainOfActs (p.handlers x) (p.endHandlers x)
  match chain.run (data.drop x.body) 0 (.ok ⟨p.seed data start, false, false, 0⟩) with
  | .error s => .error (.stall (s.message fun b => (b.toOption.map (·.node.kind)).getD ""))
  | .ok s => s.node.map x.complete

/-- Productions inside others call others again, up to `limit` deep. -/
def nested (data : List Char) : (limit : Nat) → Nested
  | 0 => fun _ _ index => .error (.error ⟨.nestingTooDeep, index⟩)
  | limit + 1 => fun p start index => p.handleWith (nested data limit) data true start (index + 1)

def handle (limit : Nat) (data : List Char) (delimited : Bool) (start : Nat) (index : Int)
    (p : Production) : Except (Breakdown Reader.Refusal) Node :=
  p.handleWith (nested data limit) data delimited start index

def parseByHandlers (p : Production) (data : List Char) (origin : Option Origin) (delimited : Bool)
    (start : Nat) : Except (Breakdown ReadError) Node :=
  let origin := origin.getD ⟨data, p.body delimited start⟩
  (p.handle nestingLimit data delimited start origin.index).mapError
    (.map (.ofRefusal origin.source))

end Production

def compileByHandlers (source : String) : Except (Breakdown ReadError) Node :=
  (Production.template.handle nestingLimit source.toList false 0 0).mapError
    (.map fun r => .ofRefusal source.toList r.reported)

end TagTemplate.Template
