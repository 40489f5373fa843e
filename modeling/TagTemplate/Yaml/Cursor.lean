/-! A place in a YAML stream: the characters that are left, and the line and the column of the next
one. -/
namespace TagTemplate.Yaml

def isLineEnd (c : Char) : Bool :=
  c == '\n' || c == '\r' || c == '\u0085'

/-- Characters that break a text. Two of them separate lines and paragraphs without ending a line
of the stream. -/
def isBreak (c : Char) : Bool :=
  isLineEnd c || c == '\u2028' || c == '\u2029'

def isBlank (c : Char) : Bool :=
  c == ' ' || c == '\t'

def isWordChar (c : Char) : Bool :=
  c.isAlphanum || c == '_' || c == '-'

def isAllowed (c : Char) : Bool :=
  let n := c.toNat
  n == 0x09 || n == 0x0A || n == 0x0D || (0x20 ≤ n && n ≤ 0x7E) || n == 0x85 ||
    (0xA0 ≤ n && n ≤ 0xD7FF) || (0xE000 ≤ n && n ≤ 0xFFFD) || 0x10000 ≤ n

/-- The mark that may stand in front of a stream. It takes no column. -/
def byteOrderMark : Char := '\ufeff'

structure Cursor where
  rest : List Char
  index : Nat
  line : Nat
  column : Nat
  deriving Repr

namespace Cursor

def start (text : List Char) : Cursor := ⟨text, 0, 0, 0⟩

def peek (c : Cursor) (n : Nat) : Option Char := c.rest[n]?

def sees (c : Cursor) (char : Char) : Bool := c.peek 0 == some char

def blankAt (c : Cursor) (n : Nat) : Bool := (c.peek n).any isBlank

def breakAt (c : Cursor) (n : Nat) : Bool := (c.peek n).any isBreak

def lineEndAt (c : Cursor) (n : Nat) : Bool := (c.peek n).all isLineEnd

def wordEndAt (c : Cursor) (n : Nat) : Bool :=
  (c.peek n).all fun char => isBlank char || isLineEnd char

def gapAt (c : Cursor) (n : Nat) : Bool :=
  (c.peek n).all fun char => char == ' ' || isBreak char

/-- Moves over one character. Only line feeds and carriage returns begin a new line, both together
one. -/
def next (c : Cursor) : Cursor :=
  match c.rest with
  | [] => c
  | char :: rest =>
    if char == '\n' || (char == '\r' && rest.head? != some '\n') then
      ⟨rest, c.index + 1, c.line + 1, 0⟩
    else ⟨rest, c.index + 1, c.line, if char == byteOrderMark then c.column else c.column + 1⟩

def skip (c : Cursor) : (n : Nat) → Cursor
  | 0 => c
  | n + 1 => c.next.skip n

/-- Moves over a break, and gives the break as it is read: most become a line feed. -/
def takeBreak (c : Cursor) : List Char × Cursor :=
  match c.rest with
  | '\r' :: '\n' :: _ => (['\n'], c.skip 2)
  | char :: _ =>
    if isLineEnd char then (['\n'], c.next)
    else if isBreak char then ([char], c.next)
    else ([], c)
  | [] => ([], c)

def skipBreak (c : Cursor) : Cursor := c.takeBreak.2

def takeWhile (c : Cursor) (test : Char → Bool) : List Char × Cursor :=
  let taken := c.rest.takeWhile test
  (taken, c.skip taken.length)

def skipWhile (c : Cursor) (test : Char → Bool) : Cursor := (c.takeWhile test).2

def skipComment (c : Cursor) : Cursor :=
  if c.sees '#' then c.skipWhile (!isLineEnd ·) else c

def finishLine? (c : Cursor) : Option Cursor :=
  let c := (c.skipWhile (· == ' ')).skipComment
  if c.lineEndAt 0 then some c.skipBreak else none

/-- Three marks in a row stand here as a word. -/
def seesMark (c : Cursor) (mark : Char) : Bool :=
  c.rest.take 3 == [mark, mark, mark] && c.wordEndAt 3

def seesBoundary (c : Cursor) : Bool :=
  c.seesMark '-' || c.seesMark '.'

/-- Three marks at the beginning of a line start or end a document. -/
def atDocumentMark (c : Cursor) (mark : Char) : Bool :=
  c.column == 0 && c.seesMark mark

end Cursor
end TagTemplate.Yaml
