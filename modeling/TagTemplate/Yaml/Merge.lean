import TagTemplate.Yaml.Building

/-! Entries that a mapping takes over from others: those of a mapping under the mark of merged
entries, or of a list of mappings, where the first ones come last. Entries that are taken over come
before the mapping's own, which replace them. -/
namespace TagTemplate.Yaml.Builder

def completeEntries (takeOver : NodeId → Builder Unit) (id : NodeId) :
    Builder (List (NodeId × NodeId)) := do
  match (← site id).node.content with
  | .mapping _ => do
    takeOver id
    return (← site id).node.entries
  | _ => malformed

def broughtEntries (takeOver : NodeId → Builder Unit) (id : NodeId) :
    Builder (List (NodeId × NodeId)) := do
  match (← site id).node.content with
  | .mapping _ => completeEntries takeOver id
  | .sequence items => do
    let parts ← items.mapM (completeEntries takeOver)
    return parts.reverse.flatten
  | .scalar _ => malformed

/-- Looks at the entries of a mapping from a place on. An entry under the mark goes, and brings
others; only one mark may bring any. An equals sign is a text here. -/
def collectMerged (takeOver : NodeId → Builder Unit) (id : NodeId) :
    (steps : Nat) → (place : Nat) → (merged : List (NodeId × NodeId)) →
    Builder (List (NodeId × NodeId))
  | 0, _, merged => return merged
  | steps + 1, place, merged => do
    let entries := (← site id).node.entries
    match entries[place]? with
    | none => return merged
    | some (key, value) =>
      match (← site key).node.tag with
      | .merge => do
        if !merged.isEmpty then malformed
        putEntries id (entries.eraseIdx place)
        let brought ← broughtEntries takeOver value
        collectMerged takeOver id steps place (merged ++ brought)
      | .value => do
        retag key .text
        collectMerged takeOver id steps (place + 1) merged
      | _ => collectMerged takeOver id steps (place + 1) merged

/-- Lets a mapping take over entries of others. Each level of that uses up a mark, so `fuel` need
not be more than there are entries. -/
def takeOver : (fuel : Nat) → NodeId → Builder Unit
  | 0, _ => throw .tooDeep
  | fuel + 1, id => do
    let merged ← collectMerged (takeOver fuel) id (← site id).node.entries.length 0 []
    if !merged.isEmpty then
      update id fun s => { s with merged := some merged }
      putEntries id (merged ++ (← site id).node.entries)

end TagTemplate.Yaml.Builder
