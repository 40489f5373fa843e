/-! The characters that a template gives a meaning to. -/
namespace TagTemplate.Template

/-- Takes the meaning off the character behind it. -/
def escapeMark : Char := '\\'

def templateMark : Char := '\x60'

def tagOpen : Char := '{'

def tagClose : Char := '}'

def commentMark : Char := '!'

def assignMark : Char := '='

def isSpace (c : Char) : Bool :=
  c == ' ' || c == '\n'

/-- The characters of names. Digits are none of them. -/
def isNameChar (c : Char) : Bool :=
  c == '$' || c == '_' || c.isAlpha

inductive Quote where
  | single
  | double
  deriving DecidableEq, Repr

def Quote.mark : Quote → Char
  | single => '\''
  | double => '"'

/-- The quote that a string opened by this character stands in. -/
def Quote.ofOpening (opening : Option Char) : Quote :=
  if opening = some '\'' then .single else .double

def templateDelimiters : List Char := [templateMark, tagOpen, escapeMark]

def Quote.delimiters (q : Quote) : List Char := [q.mark, escapeMark]

/-- The text that a character gives. Behind an escape a delimiter gives itself, and any other
character keeps the escape in front of it. -/
def escapedText (c : Char) (escaped : Bool) (delimiters : List Char) : String :=
  if !escaped || delimiters.contains c then String.singleton c
  else (String.singleton escapeMark).push c

end TagTemplate.Template
