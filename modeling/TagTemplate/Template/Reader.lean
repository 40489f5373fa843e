import TagTemplate.Template.Node
import TagTemplate.Template.Error

/-! Reading templates, one character after another. The state holds the construct being read and
those around it; a character goes on with the innermost one, opens another inside it, or closes
it. A character that can do none of this is refused at once, so no text that begins with what was
read up to a refusal, that character included, can be read. -/
namespace TagTemplate.Template

/-- A construct that others can stand in, as far as it has been read. A tag's `turn` is zero while
its name is read and then the number of the argument that may come next; a declaration's turn is
one until a space follows its value. -/
inductive Holder where
  | template (children : List Node) (escaped : Bool)
  | tag (name : String) (arguments : List Node) (turn : Nat)
  | declaration (name : String) (value : Option Node) (turn : Nat)

/-- The construct that the next character belongs to. Strings and comments hold characters only. -/
inductive Construct where
  | holder (h : Holder)
  | quoted (quote : Quote) (content : String) (escaped : Bool)
  | comment (content : String)

def Holder.receive (node : Node) : Holder → Holder
  | template children escaped => template (children ++ [node]) escaped
  | tag name arguments turn => tag name (arguments ++ [node]) turn
  | declaration name _ turn => declaration name (some node) turn

def Holder.toNode (length : Nat) : Holder → Node
  | template children _ => .template children length
  | tag name arguments _ => .tag name arguments length
  | declaration name value _ => .declaration name value length

def Construct.toNode (length : Nat) : Construct → Node
  | holder h => h.toNode length
  | quoted quote content _ => .quoted quote content length
  | comment content => .comment content length

def Construct.emptyTag : Construct := .holder (.tag "" [] 0)

def Construct.emptyTemplate : Construct := .holder (.template [] false)

def Construct.opening? (c : Char) : Option Construct :=
  if c = tagOpen then some .emptyTag
  else if c = templateMark then some .emptyTemplate
  else if c = Quote.single.mark then some (.quoted .single "" false)
  else if c = Quote.double.mark then some (.quoted .double "" false)
  else none

/-- What a character does to the innermost construct: it leaves the construct `inner`, it closes
the construct, or it opens another one inside it, which then waits as `holder`. -/
inductive Move where
  | take (inner : Construct)
  | close
  | enter (holder : Holder) (inner : Construct)

/-- A character of a string. Only one that is `enclosed` ends at its quote. -/
def moveQuoted (enclosed : Bool) (quote : Quote) (content : String) (escaped : Bool) (c : Char) :
    Move :=
  if c = escapeMark ∧ !escaped then .take (.quoted quote content true)
  else if c = quote.mark ∧ enclosed ∧ !escaped then .close
  else .take (.quoted quote (content ++ escapedText c escaped quote.delimiters) false)

/-- A character of a template. A nested template cannot hold another one except inside a tag. -/
def moveTemplate (enclosed : Bool) (children : List Node) (escaped : Bool) (c : Char) : Move :=
  if c = escapeMark ∧ !escaped then .take (.holder (.template children true))
  else if c = tagOpen ∧ !escaped then .enter (.template children false) .emptyTag
  else if c = templateMark ∧ !escaped then
    if enclosed then .close else .enter (.template children false) .emptyTemplate
  else
    let children :=
      Node.appendText children (escapedText c escaped templateDelimiters) (if escaped then 2 else 1)
    .take (.holder (.template children false))

def moveComment (enclosed : Bool) (content : String) (c : Char) : Move :=
  if c = tagClose ∧ enclosed then .close else .take (.comment (content.push c))

def moveValue (holder : Holder) (c : Char) : Except Fault Move :=
  match Construct.opening? c with
  | some inner => .ok (.enter holder inner)
  | none => .error .invalidToken

def moveName (name : String) (arguments : List Node) (c : Char) : Except Fault Move :=
  if isSpace c then .ok (.take (.holder (.tag name arguments (if name = "" then 0 else 1))))
  else if isNameChar c then .ok (.take (.holder (.tag (name.push c) arguments 0)))
  else .error .invalidName

/-- A character of a tag. Its first one may make it a comment, and an assignment behind its name
makes it a declaration. -/
def moveTag (enclosed : Bool) (length : Nat) (name : String) (arguments : List Node) (turn : Nat)
    (c : Char) : Except Fault Move :=
  if c = tagClose ∧ enclosed then
    if name = "" then .error .expressionExpected else .ok .close
  else if c = commentMark ∧ length = 0 then .ok (.take (.comment ""))
  else if c = assignMark then
    if arguments ≠ [] then .error .unexpectedToken
    else if name = "" then .error .invalidName
    else .ok (.take (.holder (.declaration name none 1)))
  else if turn = 0 then moveName name arguments c
  else if isSpace c then
    let turn := if turn ≤ arguments.length then turn + 1 else turn
    .ok (.take (.holder (.tag name arguments turn)))
  else moveValue (.tag name arguments turn) c

/-- A character of a declaration, behind the assignment. It has one value. -/
def moveDeclaration (enclosed : Bool) (name : String) (value : Option Node) (turn : Nat)
    (c : Char) : Except Fault Move :=
  if c = tagClose ∧ enclosed then
    if value.isNone then .error .unexpectedEnd else .ok .close
  else if isSpace c then
    let turn := if value.isSome then turn + 1 else turn
    .ok (.take (.holder (.declaration name value turn)))
  else if 1 < turn ∨ value.isSome then .error .unexpectedToken
  else moveValue (.declaration name value turn) c

/-- A character of a construct of which `length` characters have been read. -/
def Construct.move (enclosed : Bool) (length : Nat) (c : Char) : Construct → Except Fault Move
  | .quoted quote content escaped => .ok (moveQuoted enclosed quote content escaped c)
  | .comment content => .ok (moveComment enclosed content c)
  | .holder (.template children escaped) => .ok (moveTemplate enclosed children escaped c)
  | .holder (.tag name arguments turn) => moveTag enclosed length name arguments turn c
  | .holder (.declaration name value turn) => moveDeclaration enclosed name value turn c

namespace Reader

/-- What has been read: the innermost construct, the number of characters behind its opening
delimiter, and around it the constructs that hold it, each with its own number. Where the outermost
construct is not `delimited` it ends only with the text. -/
structure State where
  inner : Construct
  length : Nat
  outer : List (Holder × Nat)
  delimited : Bool

inductive Progress where
  | reading (s : State)
  | closed (node : Node)

namespace State

def start (inner : Construct) (delimited : Bool) : State := ⟨inner, 0, [], delimited⟩

def enclosed (s : State) : Bool :=
  s.delimited || !s.outer.isEmpty

/-- Closes the innermost construct. It stands for its body and two delimiters. -/
def close (s : State) : Progress :=
  let node := s.inner.toNode (s.length + 2)
  match s.outer with
  | [] => .closed node
  | (holder, length) :: outer =>
    .reading { s with
      inner := .holder (holder.receive node), length := length + node.length, outer }

/-- Makes a move. A construct is opened unless there are `limit` constructs around it already. -/
def apply (limit : Nat) (s : State) : Move → Except Fault Progress
  | .take inner => .ok (.reading { s with inner, length := s.length + 1 })
  | .close => .ok s.close
  | .enter holder inner =>
    if s.outer.length < limit then
      .ok (.reading { s with inner, length := 0, outer := (holder, s.length) :: s.outer })
    else .error .nestingTooDeep

end State

def step (limit : Nat) (s : State) (c : Char) : Except Fault Progress :=
  (s.inner.move s.enclosed s.length c).bind (s.apply limit)

/-- The node that the end of the text completes, unless something is open or lacks its value. An
escape that nothing follows stays in a document as text. -/
def finish? (s : State) : Option Node :=
  if s.enclosed then none
  else
    match s.inner with
    | .holder (.declaration _ none _) => none
    | .holder (.template children true) =>
      some (.template (Node.appendText children (String.singleton escapeMark) 1) s.length)
    | inner => some (inner.toNode s.length)

structure Refusal where
  fault : Fault
  index : Int
  deriving DecidableEq, Repr

/-- Reads from a state on; `index` is that of the next character. What follows the end of a
delimited construct is not read. An end that comes too early is told of the last character. -/
def read (limit : Nat) : State → (index : Int) → List Char → Except Refusal Node
  | s, index, [] =>
    match finish? s with
    | some node => .ok node
    | none => .error ⟨.unexpectedEnd, index - 1⟩
  | s, index, c :: rest =>
    match step limit s c with
    | .error fault => .error ⟨fault, index⟩
    | .ok (.closed node) => .ok node
    | .ok (.reading s) => read limit s (index + 1) rest

end Reader
end TagTemplate.Template
