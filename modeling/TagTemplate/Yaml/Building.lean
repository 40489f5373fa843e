import TagTemplate.Value.Basic
import TagTemplate.Yaml.Node

/-! A document on its way to a value. A collection has its place before it has its contents, so that
it can stand inside itself; its contents are filled in later, in the order in which the collections
were met, except where a key needs them at once. -/
namespace TagTemplate.Yaml

/-- What stands in a collection: a value, a list that does not change, or another collection. -/
inductive Item where
  | value (v : Value)
  | tuple (items : List Item)
  | collection (id : NodeId)
  deriving Inhabited

inductive Contents where
  | list (items : List Item)
  | mapping (entries : List (Value × Item))
  | ordered (entries : List (Value × Item))
  | set (keys : List Value)
  deriving Inhabited

def Contents.kind : Contents → String
  | list _ => "list"
  | mapping _ => "dict"
  | ordered _ => "ordereddict"
  | set _ => "set"

/-- A node and what has become of it: the entries that it takes over, what it is as an item, whether
it is being worked on, and what it holds if it is a collection. -/
structure Site where
  node : Node
  merged : Option (List (NodeId × NodeId))
  item : Option Item
  busy : Bool
  contents : Contents
  deriving Inhabited

/-- The sites of a document, and the collections whose contents are still due. -/
structure Building where
  version : Version
  sites : Array Site
  due : List NodeId

namespace Building

def ofDocument (d : Document) : Building :=
  { version := d.version, due := []
    sites := d.nodes.map fun node => ⟨node, none, none, false, .list []⟩ }

def site (b : Building) (id : NodeId) : Site := b.sites[id]?.getD default

def entryCount (b : Building) : Nat :=
  b.sites.toList.foldl (fun n s => n + s.node.entries.length) 0

end Building

abbrev Builder := StateT Building (Except DocumentError)

namespace Builder

def malformed : Builder α := throw .malformed

def site (id : NodeId) : Builder Site := do return (← get).site id

def update (id : NodeId) (change : Site → Site) : Builder Unit :=
  modify fun b => { b with sites := b.sites.modify id change }

def retag (id : NodeId) (tag : Tag) : Builder Unit :=
  update id fun s => { s with node := { s.node with tag } }

def putEntries (id : NodeId) (entries : List (NodeId × NodeId)) : Builder Unit :=
  update id fun s => { s with node := { s.node with content := .mapping entries } }

def putContents (id : NodeId) (contents : Contents) : Builder Unit :=
  update id fun s => { s with contents }

def postpone (id : NodeId) : Builder Unit :=
  modify fun b => { b with due := b.due ++ [id] }

def takeDue : Builder (List NodeId) := do
  let b ← get
  set { b with due := [] }
  return b.due

end Builder
end TagTemplate.Yaml
