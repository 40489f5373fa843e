/-! Where a character stands in a source: its line and its column. Lines end at line feeds, and a
line feed belongs to the line it ends. -/
namespace TagTemplate.Source

/-- A character's line, counted from one, its offset in the line, counted from zero, and the text of
that line. -/
structure Place where
  line : Nat
  offset : Nat
  text : List Char
  deriving DecidableEq, Repr

def lineBefore (source : List Char) (index : Nat) : List Char :=
  ((source.take index).reverse.takeWhile (· ≠ '\n')).reverse

def lineFrom (source : List Char) (index : Nat) : List Char :=
  (source.drop index).takeWhile (· ≠ '\n')

def place (source : List Char) (index : Nat) : Place where
  line := (source.take index).count '\n' + 1
  offset := (lineBefore source index).length
  text := lineBefore source index ++ lineFrom source index

/-- An index at which a source has no character. -/
structure NoCharacter where
  index : Int
  length : Nat
  deriving DecidableEq, Repr

def NoCharacter.name : String := "DiagnosticsIndexError"

def NoCharacter.message (e : NoCharacter) : String :=
  s!"Invalid index {e.index} for source of length {e.length}"

def place? (source : List Char) (index : Int) : Except NoCharacter Place :=
  if 0 ≤ index ∧ index < source.length then .ok (place source index.toNat)
  else .error ⟨index, source.length⟩

def Place.lineAndColumn (p : Place) : Nat × Nat :=
  (p.line, p.offset + 1)

end TagTemplate.Source
