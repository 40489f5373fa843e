import TagTemplate.Yaml.Cursor
import TagTemplate.Yaml.Error

/-! The texts of a YAML stream: plain ones, quoted ones and blocks. In plain and quoted texts a
line break counts as a space, and further ones count as they are. -/
namespace TagTemplate.Yaml

/-- What stands for breaks in a text: the first one is a space if it is read as a line feed and no
others follow. -/
def foldBreaks (first more : List Char) : List Char :=
  if first = ['\n'] then (if more.isEmpty then [' '] else more) else first ++ more

/-- The space behind a word of a plain text: what stands for it in the text, which is nothing where
the text is over, and whether it holds a break. -/
structure Gap where
  text : List Char
  broken : Bool

/-- Takes the breaks behind a first one, with the spaces around them. There are none where a
document's mark follows a break. -/
def takeMoreBreaks : (fuel : Nat) → (breaks : List Char) → Cursor → Option (List Char) × Cursor
  | 0, breaks, c => (some breaks, c)
  | fuel + 1, breaks, c =>
    if c.sees ' ' then takeMoreBreaks fuel breaks c.next
    else if c.breakAt 0 then
      let (text, c) := c.takeBreak
      if c.seesBoundary then (none, c) else takeMoreBreaks fuel (breaks ++ text) c
    else (some breaks, c)

def takeGap (c : Cursor) : Gap × Cursor :=
  let (spaces, c) := c.takeWhile (· == ' ')
  if c.breakAt 0 then
    let (first, c) := c.takeBreak
    if c.seesBoundary then (⟨[], true⟩, c)
    else
      match takeMoreBreaks c.rest.length [] c with
      | (some more, c) => (⟨foldBreaks first more, true⟩, c)
      | (none, c) => (⟨[], true⟩, c)
  else (⟨spaces, false⟩, c)

def isFlowMark (c : Char) : Bool :=
  c == ',' || c == '[' || c == ']' || c == '\x7b' || c == '\x7d'

/-- What the rules for plain texts hang on: whether brackets are open, whether the old version
holds, and from which column on a text outside of brackets goes on. -/
structure PlainRules where
  flow : Bool
  old : Bool
  least : Nat

/-- Whether a word of a plain text ends here. A colon with a word behind it belongs to the text. -/
def endsPlainWord (rules : PlainRules) (c : Cursor) : Bool :=
  match c.peek 0 with
  | none => true
  | some ':' => c.wordEndAt 1
  | some char =>
    c.wordEndAt 0 || (rules.flow && (isFlowMark char || (rules.old && char == '?')))

/-- Takes one word of a plain text; its characters come in reverse. -/
def takePlainWord (rules : PlainRules) : (fuel : Nat) → (word : List Char) → Cursor →
    List Char × Cursor
  | 0, word, c => (word, c)
  | fuel + 1, word, c =>
    match c.peek 0 with
    | none => (word, c)
    | some char =>
      if endsPlainWord rules c then (word, c) else takePlainWord rules fuel (char :: word) c.next

structure PlainText where
  text : List Char
  broken : Bool

/-- Takes words and the gaps between them. `gap` is what stands for the gap in front. -/
def takePlain (rules : PlainRules) : (fuel : Nat) → PlainText → (gap : List Char) → Cursor →
    PlainText × Cursor
  | 0, done, _, c => (done, c)
  | fuel + 1, done, gap, c =>
    match takePlainWord rules c.rest.length [] c with
    | ([], c) => (done, c)
    | (word, c) =>
      let text := done.text ++ gap ++ word.reverse
      let (gap, c) := takeGap c
      let done : PlainText := ⟨text, gap.broken⟩
      if gap.text.isEmpty || c.sees '#' || (!rules.flow && c.column < rules.least) then (done, c)
      else takePlain rules fuel done gap.text c

inductive Escape where
  | char (c : Char)
  | digits (n : Nat)

def escape? (c : Char) : Option Escape :=
  match c with
  | '0' => some (.char '\x00')
  | 'a' => some (.char '\x07')
  | 'b' => some (.char '\x08')
  | 't' => some (.char '\t')
  | '\t' => some (.char '\t')
  | 'n' => some (.char '\n')
  | 'v' => some (.char '\x0b')
  | 'f' => some (.char '\x0c')
  | 'r' => some (.char '\r')
  | 'e' => some (.char '\x1b')
  | ' ' => some (.char ' ')
  | '"' => some (.char '"')
  | '/' => some (.char '/')
  | '\\' => some (.char '\\')
  | 'N' => some (.char '\u0085')
  | '_' => some (.char '\u00a0')
  | 'L' => some (.char '\u2028')
  | 'P' => some (.char '\u2029')
  | 'x' => some (.digits 2)
  | 'u' => some (.digits 4)
  | 'U' => some (.digits 8)
  | _ => none

def hexNumber? (count : Nat) (cs : List Char) : Option Nat :=
  let digits := cs.take count
  if digits.length = count then Numeral.digitsValueIn? 16 digits else none

def isHighHalf (n : Nat) : Bool := 0xD800 ≤ n && n < 0xDC00

def isLowHalf (n : Nat) : Bool := 0xDC00 ≤ n && n < 0xE000

def lowHalf? (c : Cursor) : Option Nat :=
  if c.rest.take 2 = ['\\', 'u'] then (hexNumber? 4 (c.rest.drop 2)).filter isLowHalf else none

/-- Takes what an escape with a number stands for; the cursor stands behind the digits. Two halves
make one character, and a half without the other stands for a character that is not known. -/
def takeNumbered (n : Nat) (c : Cursor) : Except DocumentError (Char × Cursor) :=
  if 0x10FFFF < n then .error .noCharacter
  else if isHighHalf n || isLowHalf n then
    match if isHighHalf n then lowHalf? c else none with
    | some low => .ok (Char.ofNat (0x10000 + (n - 0xD800) * 0x400 + (low - 0xDC00)), c.skip 6)
    | none => .ok ('\ufffd', c)
  else .ok (Char.ofNat n, c)

def takeEscape (c : Cursor) : Except DocumentError (Char × Cursor) :=
  match (c.peek 1).bind escape? with
  | none => .error .malformed
  | some (.char char) => .ok (char, c.skip 2)
  | some (.digits count) =>
    match hexNumber? count (c.rest.drop 2) with
    | none => .error .malformed
    | some n => takeNumbered n (c.skip (2 + count))

def takeQuotedBreaks : (fuel : Nat) → (breaks : List Char) → Cursor →
    Except DocumentError (List Char × Cursor)
  | 0, _, _ => .error .malformed
  | fuel + 1, breaks, c =>
    if c.seesBoundary then .error .malformed
    else
      let c := c.skipWhile isBlank
      if c.breakAt 0 then
        let (text, c) := c.takeBreak
        takeQuotedBreaks fuel (breaks ++ text) c
      else .ok (breaks, c)

def takeQuotedGap (c : Cursor) : Except DocumentError (List Char × Cursor) :=
  let (blanks, c) := c.takeWhile isBlank
  if c.breakAt 0 then do
    let (first, c) := c.takeBreak
    let (more, c) ← takeQuotedBreaks (c.rest.length + 1) [] c
    return (foldBreaks first more, c)
  else .ok (blanks, c)

def isQuotedWordChar (quote c : Char) : Bool :=
  !(isBlank c || isBreak c || c == quote || (quote == '"' && c == '\\'))

/-- Takes a quoted text up to its closing quote. In double quotes backslashes escape characters and
line breaks; in single ones a quote is written twice. -/
def takeQuoted (quote : Char) : (fuel : Nat) → (text : List Char) → Cursor →
    Except DocumentError (List Char × Cursor)
  | 0, _, _ => .error .malformed
  | fuel + 1, text, c =>
    match c.peek 0 with
    | none => .error .malformed
    | some char =>
      if quote = '\'' ∧ char = quote ∧ c.peek 1 = some quote then
        takeQuoted quote fuel (text ++ [quote]) (c.skip 2)
      else if char = quote then .ok (text, c.next)
      else if quote = '"' ∧ char = '\\' then
        if c.breakAt 1 then do
          let c := c.next.skipBreak
          let (breaks, c) ← takeQuotedBreaks (c.rest.length + 1) [] c
          takeQuoted quote fuel (text ++ breaks) c
        else do
          let (char, c) ← takeEscape c
          takeQuoted quote fuel (text ++ [char]) c
      else if isBlank char || isBreak char then do
        let (gap, c) ← takeQuotedGap c
        takeQuoted quote fuel (text ++ gap) c
      else
        let (word, c) := c.takeWhile (isQuotedWordChar quote)
        takeQuoted quote fuel (text ++ word) c

inductive Chomping where
  | strip
  | clip
  | keep
  deriving DecidableEq, Repr

/-- The head of a block: how it ends, and how much further it is indented, if that is said. -/
structure BlockHead where
  chomping : Chomping
  increment : Option Nat

def chomping? (c : Cursor) : Option Chomping :=
  match c.peek 0 with
  | some '+' => some .keep
  | some '-' => some .strip
  | _ => none

def takeIncrement (c : Cursor) : Option (Option Nat × Cursor) :=
  match c.peek 0 with
  | some char =>
    if char = '0' then none
    else if char.isDigit then some (some (char.toNat - '0'.toNat), c.next)
    else some (none, c)
  | none => some (none, c)

def takeBlockHead (c : Cursor) : Option (BlockHead × Cursor) := do
  let (head, c) ← match chomping? c with
    | some chomping => do
      let (increment, c) ← takeIncrement c.next
      some (BlockHead.mk chomping increment, c)
    | none => do
      let (increment, c) ← takeIncrement c
      match increment, chomping? c with
      | some _, some chomping => some (⟨chomping, increment⟩, c.next)
      | _, _ => some (⟨.clip, increment⟩, c)
  guard (c.gapAt 0)
  return (head, ← c.finishLine?)

/-- What comes before the first line of a block: its breaks, the widest indentation, and the
indentation of the first empty line. -/
structure BlockFront where
  breaks : List Char
  widest : Nat
  first : Option Nat

def takeBlockFront : (fuel : Nat) → BlockFront → Cursor → BlockFront × Cursor
  | 0, front, c => (front, c)
  | fuel + 1, front, c =>
    if c.sees ' ' then
      let c := c.next
      takeBlockFront fuel { front with widest := max front.widest c.column } c
    else if c.breakAt 0 then
      let first := front.first.getD c.column
      let (text, c) := c.takeBreak
      takeBlockFront fuel { front with breaks := front.breaks ++ text, first } c
    else (front, c)

def skipIndentation (indent : Nat) (c : Cursor) : Cursor :=
  c.skip (min (c.rest.takeWhile (· == ' ')).length (indent - c.column))

def takeBlockBreaks (indent : Nat) : (fuel : Nat) → (breaks : List Char) → Cursor →
    List Char × Cursor
  | 0, breaks, c => (breaks, c)
  | fuel + 1, breaks, c =>
    let c := skipIndentation indent c
    if c.breakAt 0 then
      let (text, c) := c.takeBreak
      takeBlockBreaks indent fuel (breaks ++ text) c
    else (breaks, c)

/-- How a block is laid out: whether its lines stay apart, the column of its lines, and whether
nothing holds it, so that a document may end behind it. -/
structure BlockRules where
  literal : Bool
  indent : Nat
  outermost : Bool

/-- The lines of a block as far as they have been read: the text, the last line break and the empty
lines behind it. -/
structure BlockText where
  text : List Char
  lastBreak : List Char
  empty : List Char

def BlockRules.lineComes (rules : BlockRules) (c : Cursor) : Bool :=
  c.column == rules.indent && (c.peek 0).isSome

/-- What stands for the breaks between two lines. Lines that begin with a blank stay apart. -/
def BlockText.joint (b : BlockText) (literal blank : Bool) : List Char :=
  if !literal && b.lastBreak == ['\n'] && !blank then
    if b.empty.isEmpty then [' '] else b.empty
  else b.lastBreak ++ b.empty

def takeBlockLines (rules : BlockRules) : (fuel : Nat) → (text : List Char) → Cursor →
    BlockText × Cursor
  | 0, text, c => (⟨text, [], []⟩, c)
  | fuel + 1, text, c =>
    let blank := c.blankAt 0
    let (line, c) := c.takeWhile (!isLineEnd ·)
    let (lastBreak, c) := c.takeBreak
    let (empty, c) := takeBlockBreaks rules.indent (c.rest.length + 1) [] c
    let b : BlockText := ⟨text ++ line, lastBreak, empty⟩
    let atEnd := rules.outermost && (c.atDocumentMark '-' || c.atDocumentMark '.')
    if !atEnd && rules.lineComes c then
      takeBlockLines rules fuel (b.text ++ b.joint rules.literal (blank || c.blankAt 0)) c
    else (b, c)

/-- Takes a block; the cursor stands behind its first character. `parent` is the column of the
collection that holds it. Where the indentation is not said, the first line tells it, and no empty
line before it may be indented further. -/
def takeBlock (literal : Bool) (parent : Int) (c : Cursor) : Option (List Char × Cursor) := do
  let (head, c) ← takeBlockHead c
  let least := (parent + 1).toNat
  let (indent, breaks, c) ← match head.increment with
    | some n =>
      let indent := max least 1 + n - 1
      let (breaks, c) := takeBlockBreaks indent (c.rest.length + 1) [] c
      some (indent, breaks, c)
    | none => do
      let (front, c) := takeBlockFront c.rest.length ⟨[], 0, none⟩ c
      guard (front.first.all fun first => first = 0 || front.widest ≤ first)
      some (max least front.widest, front.breaks, c)
  let rules : BlockRules := ⟨literal, indent, head.increment.isNone && least == 0⟩
  let (b, c) :=
    if rules.lineComes c then takeBlockLines rules (c.rest.length + 1) breaks c
    else (⟨[], [], breaks⟩, c)
  let tail := match head.chomping with
    | .strip => []
    | .clip => b.lastBreak
    | .keep => b.lastBreak ++ b.empty
  some (b.text ++ tail, c)

end TagTemplate.Yaml
