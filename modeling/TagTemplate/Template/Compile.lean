import TagTemplate.Template.Reader

/-! From a source to its tree. A document is a template without delimiters; strings, tags and
templates can also be read by themselves, from anywhere in a text. -/
namespace TagTemplate.Template

def nestingLimit : Nat := 320

def ReadError.ofRefusal (source : List Char) (r : Reader.Refusal) : ReadError :=
  match SyntaxError.at? r.fault r.fault.message source r.index with
  | .ok e => .malformed e
  | .error e => .misplaced e

def readDocument (limit : Nat) (cs : List Char) : Except Reader.Refusal Node :=
  Reader.read limit (.start .emptyTemplate false) 0 cs

/-- Nesting that goes too deep is told of the whole document, at its first character. -/
def Reader.Refusal.reported (r : Refusal) : Refusal :=
  { r with index := if r.fault = .nestingTooDeep then 0 else r.index }

def compileWithin (limit : Nat) (source : String) : Except ReadError Node :=
  (readDocument limit source.toList).mapError fun r => .ofRefusal source.toList r.reported

def compile (source : String) : Except ReadError Node :=
  compileWithin nestingLimit source

inductive Production where
  | string
  | tag
  | template
  deriving DecidableEq, Repr

/-- The source that errors show, and the index in it of the first character of the body. -/
structure Origin where
  source : List Char
  index : Int

namespace Production

/-- The construct at `start`, empty yet. Only a string takes its kind from the text. -/
def construct (data : List Char) (start : Nat) : Production → Construct
  | string => .quoted (Quote.ofOpening data[start]?) "" false
  | tag => .emptyTag
  | template => .emptyTemplate

/-- Where the body begins. A string has its opening quote even where it need not be closed. -/
def body (delimited : Bool) (start : Nat) : Production → Nat
  | string => start + 1
  | tag => if delimited then start + 1 else start
  | template => if delimited then start + 1 else start

/-- Reads one construct from `start` on. A `delimited` one must be closed, and what follows it is
not read; another one takes all the text there is. -/
def parse (p : Production) (data : List Char) (origin : Option Origin) (delimited : Bool)
    (start : Nat) : Except ReadError Node :=
  let body := p.body delimited start
  let origin := origin.getD ⟨data, body⟩
  (Reader.read nestingLimit (.start (p.construct data start) delimited) origin.index
    (data.drop body)).mapError (.ofRefusal origin.source)

end Production
end TagTemplate.Template
