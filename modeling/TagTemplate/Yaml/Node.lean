import TagTemplate.Yaml.Lexer
import TagTemplate.Yaml.Plain

/-! From tokens to the nodes of a document. Nodes name each other by number, so that an alias is the
node that it names, and a collection may hold itself. A stream must hold one document at most. -/
namespace TagTemplate.Yaml

abbrev NodeId := Nat

inductive Content where
  | scalar (text : String)
  | sequence (items : List NodeId)
  | mapping (entries : List (NodeId × NodeId))
  deriving Inhabited

structure Node where
  tag : Tag
  content : Content
  deriving Inhabited

def Node.entries (n : Node) : List (NodeId × NodeId) :=
  match n.content with
  | .mapping entries => entries
  | _ => []

/-- A document: its nodes, the outermost of them, and the version that it is written in. -/
structure Document where
  nodes : Array Node
  root : NodeId
  version : Version

namespace Document

/-- What the tokens so far have defined: nodes, the names of some of them, and what handles of tags
stand for. -/
structure Scope where
  tokens : List Token
  fault : Option DocumentError
  version : Version
  handles : List (String × String)
  anchors : List (String × NodeId)
  nodes : Array Node
  depth : Nat

abbrev Reader := StateT Scope (Except DocumentError)

namespace Reader

def malformed : Reader α := throw .malformed

def peek : Reader (Option Token) := do
  let s ← get
  match s.tokens, s.fault with
  | t :: _, _ => return some t
  | [], some e => throw e
  | [], none => return none

def skip : Reader Unit := modify fun s => { s with tokens := s.tokens.tail }

def sees (ts : List Token) : Reader Bool := do
  match ← peek with
  | some t => return ts.contains t
  | none => return false

def add (n : Node) : Reader NodeId := do
  let s ← get
  set { s with nodes := s.nodes.push n }
  return s.nodes.size

/-- Lets an anchor name a node, and no longer what it named before. -/
def define (anchor : Option String) (id : NodeId) : Reader Unit :=
  match anchor with
  | none => pure ()
  | some name => modify fun s => { s with anchors := (name, id) :: s.anchors }

def charOfHex (digits : List Char) : Except DocumentError Char :=
  match Numeral.integerIn? 16 (String.ofList digits) with
  | none => .error (.noInteger 16 (String.ofList digits))
  | some n => if n < 0 then .error .noCharacter else .ok (Char.ofNat n.toNat)

/-- A suffix is written with percent signs once more than other texts. -/
def unescapeSuffix : List Char → Except DocumentError (List Char)
  | '%' :: a :: b :: rest => do return (← charOfHex [a, b]) :: (← unescapeSuffix rest)
  | '%' :: rest => do return [← charOfHex rest]
  | c :: rest => do return c :: (← unescapeSuffix rest)
  | [] => .ok []

def tagName (handle : Option String) (suffix : String) : Reader String := do
  let beginning ← match handle with
    | none => pure ""
    | some handle =>
      match (← get).handles.lookup handle with
      | some beginning => pure beginning
      | none => malformed
  return beginning ++ String.ofList (← unescapeSuffix suffix.toList)

/-- Takes an anchor and a tag in front of a node, in either order. -/
def properties : Reader (Option String × Option String) := do
  match ← peek with
  | some (.anchor name) => do
    skip
    match ← peek with
    | some (.tag handle suffix) => do
      skip
      return (some name, some (← tagName handle suffix))
    | _ => return (some name, none)
  | some (.tag handle suffix) => do
    skip
    match ← peek with
    | some (.anchor name) => do
      skip
      return (some name, some (← tagName handle suffix))
    | _ => return (none, some (← tagName handle suffix))
  | _ => return (none, none)

def nonSpecific : String := "!"

def plainTag (text : String) : Reader Tag := do
  let version := (← get).version
  if version = .standard ∨ version = .old then return plainTagOf (version == .old) text
  else throw (.unknownVersion version.major version.minor)

/-- The tag of a text: the one that is written, unless it says nothing; otherwise what the form of
a plain text tells. -/
def scalarTag (written : Option String) (text : String) (plain : Bool) : Reader Tag := do
  match written with
  | some name => if name = nonSpecific then plainTag text else return .ofName name
  | none => if plain then plainTag text else return .text

def collectionTag (written : Option String) (standard : Tag) : Tag :=
  match written with
  | some name => if name = nonSpecific then standard else .ofName name
  | none => standard

def scalar (anchor tag : Option String) (text : String) (plain : Bool) : Reader NodeId := do
  let id ← add ⟨← scalarTag tag text plain, .scalar text⟩
  define anchor id
  return id

def empty : Reader NodeId := scalar none none "" true

def deepest : Nat := 480

/-- A collection under its anchor, which names it inside it too. -/
def collection (anchor : Option String) (tag : Tag) (read : Reader Content) : Reader NodeId := do
  if deepest ≤ (← get).depth then throw .tooDeep
  let id ← add ⟨tag, .scalar ""⟩
  define anchor id
  modify fun s => { s with depth := s.depth + 1 }
  let content ← read
  modify fun s =>
    { s with depth := s.depth - 1, nodes := s.nodes.setIfInBounds id ⟨tag, content⟩ }
  return id

def keysMayBeMissing : Reader Bool := do return (← get).version.isRecent

mutual
/-- Reads a node. Block collections may begin where `block` says so, and a sequence that is not
indented where `indentless` says so. -/
def node : (fuel : Nat) → (block indentless : Bool) → Reader NodeId
  | 0, _, _ => malformed
  | fuel + 1, block, indentless => do
    if let some (.alias name) ← peek then
      skip
      match (← get).anchors.lookup name with
      | some id => return id
      | none => malformed
    else
      let (anchor, tag) ← properties
      let sequence := collection anchor (collectionTag tag .sequence)
      let mapping := collection anchor (collectionTag tag .mapping)
      match ← peek with
      | some (.scalar text plain) => do
        skip
        scalar anchor tag text plain
      | some .flowSequenceStart => do
        skip
        sequence do return .sequence (← flowItems fuel true)
      | some .flowMappingStart => do
        skip
        mapping do return .mapping (← flowEntries fuel true)
      | found =>
        if indentless && found == some .blockEntry then
          sequence do return .sequence (← indentlessItems fuel)
        else if block && found == some .blockSequenceStart then do
          skip
          sequence do return .sequence (← blockItems fuel)
        else if block && found == some .blockMappingStart then do
          skip
          mapping do return .mapping (← blockEntries fuel)
        else if anchor.isSome || tag.isSome then scalar anchor tag "" true
        else malformed

def nodeUnless (fuel : Nat) (ends : List Token) (block indentless : Bool) : Reader NodeId := do
  match fuel with
  | 0 => malformed
  | fuel + 1 => if ← sees ends then empty else node fuel block indentless

def blockItems : (fuel : Nat) → Reader (List NodeId)
  | 0 => malformed
  | fuel + 1 => do
    match ← peek with
    | some .blockEntry => do
      skip
      let item ← nodeUnless fuel [.blockEntry, .blockEnd] true false
      return item :: (← blockItems fuel)
    | some .blockEnd => do
      skip
      return []
    | _ => malformed

def indentlessItems : (fuel : Nat) → Reader (List NodeId)
  | 0 => malformed
  | fuel + 1 => do
    match ← peek with
    | some .blockEntry => do
      skip
      let item ← nodeUnless fuel [.blockEntry, .key, .value, .blockEnd] true false
      return item :: (← indentlessItems fuel)
    | _ => return []

def blockEntries : (fuel : Nat) → Reader (List (NodeId × NodeId))
  | 0 => malformed
  | fuel + 1 => do
    let ends : List Token := [.key, .value, .blockEnd]
    let entry (key : Reader NodeId) : Reader (List (NodeId × NodeId)) := do
      let key ← key
      let value ← valueUnless fuel ends true
      return (key, value) :: (← blockEntries fuel)
    match ← peek with
    | some .key => do
      skip
      entry (nodeUnless fuel ends true true)
    | some .value => do
      if ← keysMayBeMissing then entry empty else malformed
    | some .blockEnd => do
      skip
      return []
    | _ => malformed

def valueUnless (fuel : Nat) (ends : List Token) (block : Bool) : Reader NodeId := do
  match fuel with
  | 0 => malformed
  | fuel + 1 =>
    if (← peek) == some .value then
      skip
      nodeUnless fuel ends block block
    else empty

/-- Reads items up to the closing bracket; commas stand between them, and one may stand behind. A
key among them makes a mapping with one entry. -/
def flowItems : (fuel : Nat) → (first : Bool) → Reader (List NodeId)
  | 0, _ => malformed
  | fuel + 1, first => do
    if (← peek) == some .flowSequenceEnd then
      skip
      return []
    else
      if !first then
        if (← peek) == some .flowEntry then skip else malformed
      match ← peek with
      | some .flowSequenceEnd => do
        skip
        return []
      | some .key => do
        let item ← collection none .mapping do
          skip
          let key ← nodeUnless fuel [.value, .flowEntry, .flowSequenceEnd] false false
          let value ← valueUnless fuel [.flowEntry, .flowSequenceEnd] false
          return .mapping [(key, value)]
        return item :: (← flowItems fuel false)
      | _ => do
        let item ← node fuel false false
        return item :: (← flowItems fuel false)

/-- Reads entries up to the closing brace. A node without a key's mark has no value. -/
def flowEntries : (fuel : Nat) → (first : Bool) → Reader (List (NodeId × NodeId))
  | 0, _ => malformed
  | fuel + 1, first => do
    if (← peek) == some .flowMappingEnd then
      skip
      return []
    else
      if !first then
        if (← peek) == some .flowEntry then skip else malformed
      let entry (key : Reader NodeId) : Reader (List (NodeId × NodeId)) := do
        let key ← key
        let value ← valueUnless fuel [.flowEntry, .flowMappingEnd] false
        return (key, value) :: (← flowEntries fuel false)
      let found ← peek
      let missing ← keysMayBeMissing
      if found == some .flowMappingEnd then
        skip
        return []
      else if found == some .key then
        skip
        entry (nodeUnless fuel [.value, .flowEntry, .flowMappingEnd] false false)
      else if found == some .value && missing then entry empty
      else
        let key ← node fuel false false
        let value ← empty
        return (key, value) :: (← flowEntries fuel false)
end

/-- Takes directives. There is one version at most, and each handle is defined once. -/
def directives : (fuel : Nat) → (version : Bool) → Reader Unit
  | 0, _ => malformed
  | fuel + 1, version => do
    match ← peek with
    | some (.version v) => do
      skip
      if version || v.major != 1 then malformed
      modify fun s => { s with version := v }
      directives fuel true
    | some (.tagHandle handle beginning) => do
      skip
      if ((← get).handles.lookup handle).isSome then malformed
      modify fun s => { s with handles := (handle, beginning) :: s.handles }
      directives fuel version
    | some .otherDirective => do
      skip
      directives fuel version
    | _ => pure ()

def beginsMarked : Token → Bool
  | .version _ | .tagHandle .. | .otherDirective | .documentStart => true
  | _ => false

/-- The handles that need no directive. -/
def standardHandles : List (String × String) :=
  [("!", "!"), ("!!", Tag.standardBeginning)]

def defineStandardHandles : Reader Unit :=
  modify fun s => { s with handles := s.handles ++ standardHandles }

def root (fuel : Nat) : Reader NodeId := do
  match ← peek with
  | some t =>
    if beginsMarked t then
      directives fuel false
      if (← peek) != some .documentStart then malformed
      skip
      defineStandardHandles
      match ← peek with
      | some t => if beginsMarked t || t == .documentEnd then empty else node fuel true false
      | none => empty
    else
      defineStandardHandles
      node fuel true false
  | none => malformed

/-- Takes marks of a document's end. The old version allows several. -/
def ends : (fuel : Nat) → (first : Bool) → Reader Unit
  | 0, _ => malformed
  | fuel + 1, first => do
    match ← peek with
    | none => pure ()
    | some .documentEnd => do
      skip
      if first || (← get).version == .old then ends fuel false else malformed
    | some _ => malformed

end Reader

def ofTokens (stream : TokenStream) : Except DocumentError (Option Document) := do
  let fuel := 8 * stream.tokens.length + 8
  let read : Reader (Option NodeId) := do
    if (← Reader.peek).isNone then return none
    else
      let id ← Reader.root fuel
      Reader.ends fuel true
      return some id
  let (root, scope) ← read.run ⟨stream.tokens, stream.fault, .standard, [], [], #[], 0⟩
  return root.map fun root => ⟨scope.nodes, root, scope.version⟩

def ofText (text : String) : Except DocumentError (Option Document) :=
  ofTokens (.ofText text.toList)

end Document
end TagTemplate.Yaml
