import TagTemplate.Text.Utf8
import TagTemplate.Yaml.Scalar
import TagTemplate.Yaml.Token

/-! From the characters of a YAML stream to its tokens. Whether a text is a key shows only at the
colon behind it, so its place among the tokens is kept until then. -/
namespace TagTemplate.Yaml

/-- A text that may turn out to be a key: where it stands, and its number among the tokens. One
that begins a line of a mapping has to be one. -/
structure Candidate where
  required : Bool
  token : Nat
  index : Nat
  line : Nat
  column : Nat

inductive Bracket where
  | square
  | curly
  deriving DecidableEq, Repr

/-- What is open: a bracket, or the block around all of them, and the candidate in it. -/
structure Level where
  bracket : Option Bracket
  candidate : Option Candidate

/-- Tokens so far and what they leave open. `indents` are the columns of the block collections that
are open, innermost first, each with what was open around it. -/
structure Lexer where
  cursor : Cursor
  version : Version
  tokens : Array Token
  /-- How many of the tokens are sure to stay where they are, before the next one is taken. -/
  settled : Nat
  indent : Int
  indents : List Int
  keyAllowed : Bool
  levels : List Level

namespace Lexer

def start (text : List Char) : Lexer :=
  { cursor := .start text, version := .standard, tokens := #[], settled := 0, indent := -1
    indents := [], keyAllowed := true, levels := [⟨none, none⟩] }

def bracket? (l : Lexer) : Option Bracket := l.levels.head?.bind (·.bracket)

def inFlow (l : Lexer) : Bool := l.bracket?.isSome

def isOld (l : Lexer) : Bool := l.version == .old

def push (l : Lexer) (t : Token) : Lexer := { l with tokens := l.tokens.push t }

def skip (l : Lexer) (n : Nat) : Lexer := { l with cursor := l.cursor.skip n }

def longestKey : Nat := 1024

/-- A candidate is over at the end of its line or when it has become too long. -/
def isOver (c : Cursor) (k : Candidate) : Bool :=
  k.line != c.line || k.index + longestKey < c.index

/-- Gives up candidates that are over. A required one may not be. -/
def dropOver? (l : Lexer) : Option Lexer :=
  let expired (k : Option Candidate) := k.filter (isOver l.cursor)
  if l.levels.any fun level => (expired level.candidate).any (·.required) then none
  else
    let levels := l.levels.map fun level =>
      if (expired level.candidate).isSome then { level with candidate := none } else level
    some { l with levels }

def candidate? (l : Lexer) : Option Candidate := l.levels.head?.bind (·.candidate)

def withCandidate (l : Lexer) (k : Option Candidate) : Lexer :=
  match l.levels with
  | level :: rest => { l with levels := { level with candidate := k } :: rest }
  | [] => l

def dropCandidate? (l : Lexer) : Option Lexer :=
  match l.candidate? with
  | some k => if k.required then none else some (l.withCandidate none)
  | none => some l

/-- Makes what comes next a candidate where a key may stand. -/
def saveCandidate? (l : Lexer) : Option Lexer :=
  if l.keyAllowed then do
    let l ← l.dropCandidate?
    let c := l.cursor
    let required := !l.inFlow && l.indent == c.column
    some (l.withCandidate (some ⟨required, l.tokens.size, c.index, c.line, c.column⟩))
  else some l

def firstOpen (l : Lexer) : Nat :=
  (l.levels.filterMap fun level => level.candidate.map (·.token)).foldl min l.tokens.size

/-- Opens a block collection at a column further in; its token comes before the token with the
given number, or last. -/
def roll (l : Lexer) (column : Nat) (number : Option Nat) (t : Token) : Lexer :=
  if !l.inFlow && l.indent < column then
    let tokens := match number with
      | some n => l.tokens.insertIdxIfInBounds n t
      | none => l.tokens.push t
    { l with tokens, indent := column, indents := l.indent :: l.indents }
  else l

def unrollTo (column : Int) (l : Lexer) : List Int → Lexer
  | [] => l
  | outer :: rest =>
    if column < l.indent then
      unrollTo column { l.push .blockEnd with indent := outer, indents := rest } rest
    else l

def unroll (l : Lexer) (column : Int) : Lexer :=
  if l.inFlow then l else unrollTo column l l.indents

/-- Moves to the next token, over spaces, comments and breaks; inside brackets over tabs too. -/
def skipGaps : (fuel : Nat) → Lexer → Lexer
  | 0, l => l
  | fuel + 1, l =>
    let c := l.cursor
    let c := if c.index == 0 && c.sees byteOrderMark then c.next else c
    let c := (c.skipWhile fun char => char == ' ' || (l.inFlow && char == '\t')).skipComment
    if c.breakAt 0 then
      skipGaps fuel { l with cursor := c.skipBreak, keyAllowed := l.keyAllowed || !l.inFlow }
    else { l with cursor := c }

def takeVersionNumber (c : Cursor) : Except DocumentError (Nat × Cursor) :=
  let (digits, c) := c.takeWhile Char.isDigit
  if digits.isEmpty then .error .malformed
  else if Numeral.maxIntegerDigits < digits.length then .error (.longInteger digits.length)
  else .ok (Numeral.digitsValue digits, c)

def isTagChar (version : Version) (c : Char) : Bool :=
  c.isAlphanum || "-;/?:@&=+$,_.!~*'()[]%".toList.contains c || (version.isRecent && c == '#')

def percentOctets : List Char → Option (List UInt8 × List Char)
  | '%' :: a :: b :: rest => do
    let octet := UInt8.ofNat (← Numeral.digitsValueIn? 16 [a, b])
    let (octets, rest) ← percentOctets rest
    some (octet :: octets, rest)
  | '%' :: _ => none
  | rest => some ([], rest)

def unescapePercent : (fuel : Nat) → List Char → Option (List Char)
  | 0, cs => some cs
  | _ + 1, [] => some []
  | fuel + 1, c :: rest =>
    if c = '%' then do
      let (octets, rest) ← percentOctets (c :: rest)
      let chars ← (Text.Utf8.decode octets).toOption
      return chars ++ (← unescapePercent fuel rest)
    else do return c :: (← unescapePercent fuel rest)

def takeTagText (version : Version) (c : Cursor) : Option (List Char × Cursor) := do
  let (text, c) := c.takeWhile (isTagChar version)
  guard (text ≠ [])
  return (← unescapePercent text.length text, c)

def takeHandle (c : Cursor) : Option (List Char × Cursor) := do
  guard (c.sees '!')
  if c.peek 1 = some ' ' then some (['!'], c.next)
  else
    let (word, c) := c.next.takeWhile isWordChar
    guard (c.sees '!')
    some ('!' :: word ++ ['!'], c.next)

def takeVersion (c : Cursor) : Except DocumentError (Version × Cursor) := do
  let (major, c) ← takeVersionNumber (c.skipWhile (· == ' '))
  if !c.sees '.' then .error .malformed
  let (minor, c) ← takeVersionNumber c.next
  if !c.gapAt 0 then .error .malformed
  return (⟨major, minor⟩, c)

def takeTagHandle (version : Version) (c : Cursor) : Option (Token × Cursor) := do
  let (handle, c) ← takeHandle (c.skipWhile (· == ' '))
  guard (c.sees ' ')
  let (beginning, c) ← takeTagText version (c.skipWhile (· == ' '))
  guard (c.gapAt 0)
  some (.tagHandle (String.ofList handle) (String.ofList beginning), c)

def isDirectiveChar (c : Char) : Bool :=
  isWordChar c || c == ':' || c == '.'

def orMalformed (x : Option α) : Except DocumentError α :=
  match x with
  | some a => .ok a
  | none => .error .malformed

def takeDirective (version : Version) (c : Cursor) : Except DocumentError (Token × Cursor) := do
  let (name, c) := c.next.takeWhile isDirectiveChar
  if name.isEmpty || !c.gapAt 0 then .error .malformed
  let (t, c) ←
    if name = ['Y', 'A', 'M', 'L'] then do
      let (v, c) ← takeVersion c
      pure (Token.version v, c)
    else if name = ['T', 'A', 'G'] then orMalformed (takeTagHandle version c)
    else pure (Token.otherDirective, c.skipWhile (!isLineEnd ·))
  return (t, ← orMalformed c.finishLine?)

/-- The characters of a name behind an anchor's or an alias's mark: all that are seen, save those
that end a plain text inside brackets. -/
def isNameChar (c : Char) : Bool :=
  let n := c.toNat
  ((0x21 ≤ n && n ≤ 0x7E) || 0xA0 ≤ n) && c != byteOrderMark &&
    !(c == ',' || c == '[' || c == ']' || c == '\x7b' || c == '\x7d')

def takeName (c : Cursor) : Option (String × Cursor) := do
  let (name, c) := c.next.takeWhile isNameChar
  guard (name ≠ [])
  guard (c.wordEndAt 0 || (c.peek 0).any (",[]\x7b\x7d".toList.contains ·))
  some (String.ofList name, c)

/-- Takes what follows an exclamation mark: a tag in angles as it is, nothing, or a handle and a
suffix. `mark` is the handle that has been read; another exclamation mark before the next space
makes it a handle of its own. -/
def takeTagBehind (version : Version) (mark : String) (c : Cursor) :
    Option (Option String × List Char × Cursor) := do
  if c.peek 1 = some '<' then do
    let (text, c) ← takeTagText version (c.skip 2)
    guard (c.sees '>')
    some (none, text, c.next)
  else if c.wordEndAt 1 then some (none, mark.toList, c.next)
  else
    let word := c.rest.tail.takeWhile fun char => !(char == ' ' || isBreak char)
    let (handle, c) ←
      if word.contains '!' then do
        let (handle, c) ← takeHandle c
        some (String.ofList handle, c)
      else some (mark, c.next)
    let (suffix, c) ← takeTagText version c
    some (some handle, suffix, c)

def takeTag (version : Version) (c : Cursor) : Option (Token × Cursor) := do
  let (handle, suffix, c) ←
    if c.peek 1 = some '!' then takeTagBehind version "!!" c.next else takeTagBehind version "!" c
  guard (c.gapAt 0)
  some (.tag handle (String.ofList suffix), c)

def settle? (l : Lexer) : Option Lexer := do
  let l ← (l.unroll (-1)).dropCandidate?
  some { l with keyAllowed := false }

def directive (l : Lexer) : Except DocumentError Lexer := do
  let l ← orMalformed l.settle?
  let (t, cursor) ← takeDirective l.version l.cursor
  let version := match t with
    | .version v => v
    | _ => l.version
  return { l.push t with cursor, version }

def documentMark? (l : Lexer) (t : Token) : Option Lexer := do
  let l ← l.settle?
  some ((l.push t).skip 3)

def flowStart? (l : Lexer) (bracket : Bracket) (t : Token) : Option Lexer := do
  let l ← l.saveCandidate?
  let levels := ⟨some bracket, none⟩ :: l.levels
  some (({ l with levels, keyAllowed := true }.push t).skip 1)

def flowEnd? (l : Lexer) (t : Token) : Option Lexer := do
  let l ← l.dropCandidate?
  let levels := if l.inFlow then l.levels.tail else l.levels
  some (({ l with levels, keyAllowed := false }.push t).skip 1)

def flowEntry? (l : Lexer) : Option Lexer := do
  let l ← l.dropCandidate?
  some (({ l with keyAllowed := true }.push .flowEntry).skip 1)

/-- In a block a collection may begin only where a key may stand. -/
def rollHere? (l : Lexer) (t : Token) : Option Lexer :=
  if l.inFlow then some l
  else if l.keyAllowed then some (l.roll l.cursor.column none t)
  else none

def blockEntry? (l : Lexer) : Option Lexer := do
  let l ← (← l.rollHere? .blockSequenceStart).dropCandidate?
  some (({ l with keyAllowed := true }.push .blockEntry).skip 1)

def key? (l : Lexer) : Option Lexer := do
  let l ← (← l.rollHere? .blockMappingStart).dropCandidate?
  some (({ l with keyAllowed := !l.inFlow }.push .key).skip 1)

/-- A colon makes the candidate a key, which gets its token in front of it. -/
def value? (l : Lexer) : Option Lexer := do
  match l.candidate? with
  | some k =>
    let l := { l with tokens := l.tokens.insertIdxIfInBounds k.token .key }
    let l := (l.withCandidate none).roll k.column (some k.token) .blockMappingStart
    some (({ l with keyAllowed := false }.push .value).skip 1)
  | none =>
    let l ← l.rollHere? .blockMappingStart
    some (({ l with keyAllowed := !l.inFlow }.push .value).skip 1)

def keyPart? (l : Lexer) (take : Cursor → Option (Token × Cursor)) : Option Lexer := do
  let l ← l.saveCandidate?
  let (t, cursor) ← take l.cursor
  some { l.push t with cursor, keyAllowed := false }

def quoted (l : Lexer) (quote : Char) : Except DocumentError Lexer := do
  let l ← orMalformed l.saveCandidate?
  let c := l.cursor
  let (text, cursor) ← takeQuoted quote c.rest.length [] c.next
  return { l.push (.scalar (String.ofList text) false) with cursor, keyAllowed := false }

def block? (l : Lexer) (literal : Bool) : Option Lexer := do
  let l ← l.dropCandidate?
  let (text, cursor) ← takeBlock literal l.indent l.cursor.next
  some { l.push (.scalar (String.ofList text) false) with cursor, keyAllowed := true }

def plain? (l : Lexer) : Option Lexer := do
  let l ← l.saveCandidate?
  let c := l.cursor
  let rules : PlainRules := ⟨l.inFlow, l.isOld, (l.indent + 1).toNat⟩
  let (t, cursor) := takePlain rules (c.rest.length + 1) ⟨[], false⟩ [] c
  some { l.push (.scalar (String.ofList t.text) true) with cursor, keyAllowed := t.broken }

def seesKey (l : Lexer) : Bool :=
  l.cursor.sees '?' && (l.inFlow || l.cursor.wordEndAt 1)

/-- Whether a colon is a value's mark: before a space, and inside braces before anything, unless
the colon of the value stands right before it among tokens that may still move. -/
def seesValue (l : Lexer) : Bool :=
  l.cursor.sees ':' &&
    (l.cursor.wordEndAt 1 ||
      match l.bracket? with
      | none => false
      | some .square => l.isOld
      | some .curly =>
        l.isOld || !(l.settled < l.tokens.size && l.tokens.back? == some .value))

def startsPlain (l : Lexer) (char : Char) : Bool :=
  let c := l.cursor
  !(isBlank char || isBreak char || "-?:,[]\x7b\x7d#&*!|>'\"%@\x60".toList.contains char) ||
    (char == '-' && !c.wordEndAt 1) ||
    (!l.inFlow && (char == '?' || char == ':') && !c.wordEndAt 1) ||
    (!l.isOld && l.inFlow && char == ':' && !c.blankAt 1)

def fetch (l : Lexer) (char : Char) : Except DocumentError Lexer :=
  let c := l.cursor
  if c.column = 0 ∧ char = '%' then l.directive
  else if char = '\'' then l.quoted '\''
  else if char = '"' then l.quoted '"'
  else
    orMalformed <|
      if c.atDocumentMark '-' then l.documentMark? .documentStart
      else if c.atDocumentMark '.' then l.documentMark? .documentEnd
      else if char = '[' then l.flowStart? .square .flowSequenceStart
      else if char = '\x7b' then l.flowStart? .curly .flowMappingStart
      else if char = ']' then l.flowEnd? .flowSequenceEnd
      else if char = '\x7d' then l.flowEnd? .flowMappingEnd
      else if char = ',' then l.flowEntry?
      else if char = '-' ∧ c.wordEndAt 1 then l.blockEntry?
      else if l.seesKey then l.key?
      else if l.seesValue then l.value?
      else if char = '*' then l.keyPart? fun c => (takeName c).map fun (n, c) => (.alias n, c)
      else if char = '&' then l.keyPart? fun c => (takeName c).map fun (n, c) => (.anchor n, c)
      else if char = '!' then l.keyPart? (takeTag l.version)
      else if char = '|' ∧ !l.inFlow then l.block? true
      else if char = '>' ∧ !l.inFlow then l.block? false
      else if l.startsPlain char then l.plain?
      else none

/-- The tokens up to a fault. Those that might still have moved are not among them. -/
def broken (l : Lexer) (e : DocumentError) : TokenStream :=
  ⟨l.tokens.toList.take l.settled, some e⟩

def run : (fuel : Nat) → Lexer → TokenStream
  | 0, l => l.broken .malformed
  | fuel + 1, l =>
    let l := { l with settled := l.firstOpen }
    match l.dropOver? with
    | none => l.broken .malformed
    | some l =>
      let l := { l with settled := l.firstOpen }
      match (skipGaps (l.cursor.rest.length + 1) l).dropOver? with
      | none => l.broken .malformed
      | some next =>
        let next := next.unroll next.cursor.column
        match next.cursor.peek 0 with
        | none =>
          match next.settle? with
          | some last => ⟨last.tokens.toList, none⟩
          | none => l.broken .malformed
        | some char =>
          match next.fetch char with
          | .ok next => run fuel next
          | .error e => l.broken e

end Lexer

def TokenStream.ofText (text : List Char) : TokenStream :=
  if text.all isAllowed then Lexer.run (text.length + 1) (.start text) else ⟨[], some .malformed⟩

end TagTemplate.Yaml
