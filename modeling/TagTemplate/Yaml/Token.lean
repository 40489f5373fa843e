import TagTemplate.Yaml.Error

/-! The tokens of a YAML stream. Indentation shows as tokens of its own, which open and close block
collections. -/
namespace TagTemplate.Yaml

structure Version where
  major : Nat
  minor : Nat
  deriving DecidableEq, Repr

namespace Version

def standard : Version := ⟨1, 2⟩

def old : Version := ⟨1, 1⟩

def isRecent (v : Version) : Bool :=
  1 < v.major || (v.major == 1 && 1 < v.minor)

end Version

inductive Token where
  | version (v : Version)
  | tagHandle (handle beginning : String)
  | otherDirective
  | documentStart
  | documentEnd
  | blockSequenceStart
  | blockMappingStart
  | blockEnd
  | flowSequenceStart
  | flowSequenceEnd
  | flowMappingStart
  | flowMappingEnd
  | blockEntry
  | flowEntry
  | key
  | value
  | alias (name : String)
  | anchor (name : String)
  | tag (handle : Option String) (suffix : String)
  /-- A text; only a plain one may stand for something else. -/
  | scalar (text : String) (plain : Bool)
  deriving DecidableEq, Repr

/-- The tokens of a stream. A stream with a fault has tokens up to it only. -/
structure TokenStream where
  tokens : List Token
  fault : Option DocumentError

end TagTemplate.Yaml
