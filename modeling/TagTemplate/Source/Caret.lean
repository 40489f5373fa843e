import TagTemplate.Source.Place

/-! The trace of a character: its line, and a caret under it. A long line is cut on both sides, so
that a trace stays short and shows what is near the caret. -/
namespace TagTemplate.Source

def beforeLimit : Nat := 18

/-- How many of them stay next to the caret where the line is cut. -/
def beforeKept : Nat := 15

def fromLimit : Nat := 19

def fromKept : Nat := 16

def ellipsis : List Char := ['.', '.', '.']

def shownBefore (text : List Char) : List Char :=
  if beforeLimit < text.length then ellipsis ++ text.drop (text.length - beforeKept) else text

def shownFrom (text : List Char) : List Char :=
  if fromLimit < text.length then text.take fromKept ++ ellipsis else text

/-- Two lines: the line as far as it is shown, and the caret between its two parts. -/
def caretBetween (before after : List Char) : List Char :=
  shownBefore before ++ shownFrom after ++ '\n' ::
    (List.replicate (shownBefore before).length ' ' ++ ['^'])

/-- Draws the caret under a column, counted from zero. A column behind the line stands for its end,
and a negative one counts from the end. -/
def focus (line : List Char) (column : Int) : String :=
  let column := if column < 0 then column + line.length else column
  String.ofList (caretBetween (line.take column.toNat) (line.drop column.toNat))

def trace (source : List Char) (index : Nat) : String :=
  let p := place source index
  focus p.text p.offset

def trace? (source : List Char) (index : Int) : Except NoCharacter String :=
  (place? source index).map fun p => focus p.text p.offset

end TagTemplate.Source
