import TagTemplate.Number.Numeral
import TagTemplate.Text.Quoted

/-! What keeps a YAML document from being read. -/
namespace TagTemplate.Yaml

/-- Why a text has no value. Of a text that is no document only that is told; the other reasons name
what is not of the kind that it has to be of. -/
inductive DocumentError where
  | malformed
  | tooDeep
  | unknownVersion (major minor : Nat)
  | noCharacter
  | noInteger (base : Nat) (text : String)
  | longInteger (digits : Nat)
  | noFloat (text : String)
  | manyExponents
  | emptyNumber
  | noTruthValue (text : String)
  | noMoment (problem : String)
  | momentOutOfRange
  | unhashableKey (kind : String)
  /-- A key that comes twice in a mapping that is written as a list. -/
  | repeatedEntry
  deriving DecidableEq, Repr

namespace DocumentError

def name : DocumentError → String
  | malformed => "ConfigLoadError"
  | tooDeep => "RecursionError"
  | unknownVersion .. => "KeyError"
  | noCharacter => "ValueError"
  | noInteger .. => "ValueError"
  | longInteger _ => "ValueError"
  | noFloat _ => "ValueError"
  | manyExponents => "ValueError"
  | emptyNumber => "IndexError"
  | noTruthValue _ => "KeyError"
  | noMoment _ => "ValueError"
  | momentOutOfRange => "OverflowError"
  | unhashableKey _ => "TypeError"
  | repeatedEntry => "AssertionError"

def message : DocumentError → String
  | malformed => "Invalid YAML"
  | tooDeep => "maximum recursion depth exceeded"
  | unknownVersion major minor => s!"({major}, {minor})"
  | noCharacter => "chr() arg not in range(0x110000)"
  | noInteger base text =>
    s!"invalid literal for int() with base {base}: {Text.quoted text}"
  | longInteger digits =>
    s!"Exceeds the limit ({Numeral.maxIntegerDigits} digits) for integer string conversion: " ++
      s!"value has {digits} digits; use sys.set_int_max_str_digits() to increase the limit"
  | noFloat text => s!"could not convert string to float: {Text.quoted text}"
  | manyExponents => "too many values to unpack (expected 2)"
  | emptyNumber => "string index out of range"
  | noTruthValue text => Text.quoted text
  | noMoment problem => problem
  | momentOutOfRange => "date value out of range"
  | unhashableKey kind => s!"unhashable type: '{kind}'"
  | repeatedEntry => ""

end DocumentError
end TagTemplate.Yaml
