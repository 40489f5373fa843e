/-! What tags say of nodes: the kind of value that a node stands for, or what it marks in a
mapping. -/
namespace TagTemplate.Yaml

inductive Tag where
  | null
  | bool
  | int
  | float
  | timestamp
  | text
  | binary
  | sequence
  | mapping
  | orderedMapping
  | pairs
  | set
  | merge
  /-- The equals sign, which stands in a mapping for the value that the mapping is instead. -/
  | value
  | unknown
  deriving DecidableEq, Repr, Inhabited

namespace Tag

def standardBeginning : String := "tag:yaml.org,2002:"

def standardNames : List (String × Tag) :=
  [("null", null), ("bool", bool), ("int", int), ("float", float), ("timestamp", timestamp),
    ("str", text), ("binary", binary), ("seq", sequence), ("map", mapping),
    ("omap", orderedMapping), ("pairs", pairs), ("set", set), ("merge", merge), ("value", value)]

def ofName (name : String) : Tag :=
  match standardNames.find? fun (ending, _) => name = standardBeginning ++ ending with
  | some (_, tag) => tag
  | none => unknown

end Tag
end TagTemplate.Yaml
