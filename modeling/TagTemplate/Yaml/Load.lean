import TagTemplate.Yaml.Merge
import TagTemplate.Yaml.TextValue

/-! The values of YAML documents. Tags say what a node is. A key is worked out with all that it
holds before anything else is; other collections are filled one after another. -/
namespace TagTemplate.Yaml
namespace Builder

/-- The text of a node. A mapping may have one under an equals sign. -/
def textOf : (fuel : Nat) → NodeId → Builder String
  | 0, _ => throw .tooDeep
  | fuel + 1, id => do
    match (← site id).node.content with
    | .scalar text => return text
    | .sequence _ => malformed
    | .mapping entries => do
      let marked ← entries.filterM fun (key, _) => do
        return (← site key).node.tag == .value
      match marked with
      | (_, value) :: _ => textOf fuel value
      | [] => malformed

def makeText (id : NodeId) : Builder Value := do
  let b ← get
  let node := (b.site id).node
  let text ← match node.tag, node.content with
    | .timestamp, .scalar text => pure text
    | .timestamp, _ => malformed
    | .unknown, _ | .merge, _ | .value, _ => malformed
    | _, _ => textOf (b.sites.size + 1) id
  textValue b.version node.tag text

/-- What an item is as a key, before it is known whether it can be one: a list becomes one that does
not change. -/
def keyItem : Item → Builder Item
  | .collection id => do
    match (← site id).contents with
    | .list items => return .tuple items
    | _ => malformed
  | item => return item

mutual
def keyValue : Item → Builder Value
  | .value v => return v
  | .tuple items => do return .tuple (← keyValues items)
  | .collection id => do throw (.unhashableKey (← site id).contents.kind)

def keyValues : List Item → Builder (List Value)
  | [] => return []
  | item :: rest => do
    let v ← keyValue item
    return v :: (← keyValues rest)
end

/-- A number that differs from itself. As a key it is one all the same. -/
def isUndefined : Value → Bool
  | .number (.float x) => x.isNaN
  | _ => false

def hasKey (entries : List (Value × Item)) (key : Value) : Bool :=
  entries.any fun (k, _) => k.sameKey key || (isUndefined k && isUndefined key)

/-- Makes the entries of a mapping. `make` makes a node, all at once where it is told so; `deep`
says whether that holds for the values too. Where `distinct` says so no key may come again. -/
def makeEntries (make : Bool → NodeId → Builder Item) (deep distinct : Bool) :
    (done : List (Value × Item)) → List (NodeId × NodeId) → Builder (List (Value × Item))
  | done, [] => return done
  | done, (key, value) :: rest => do
    let key ← keyItem (← make true key)
    let value ← make deep value
    let key ← keyValue key
    if distinct && hasKey done key then malformed
    makeEntries make deep distinct (Value.insertEntry done key value) rest

def makeMapping (make : Bool → NodeId → Builder Item) (deep : Bool) (id : NodeId) :
    Builder (List (Value × Item)) := do
  match (← site id).node.content with
  | .mapping _ => do
    takeOver ((← get).entryCount + 1) id
    let s ← site id
    match s.merged with
    | none => makeEntries make deep true [] s.node.entries
    | some merged => do
      let first ← makeEntries make deep false [] merged
      let all ← makeEntries make deep false [] s.node.entries
      return all.foldl (fun done (key, value) => Value.insertEntry done key value) first
  | _ => malformed

def itemsOf (id : NodeId) : Builder (List NodeId) := do
  match (← site id).node.content with
  | .sequence items => return items
  | _ => malformed

def singleEntry (id : NodeId) : Builder (NodeId × NodeId) := do
  match (← site id).node.entries with
  | [entry] => return entry
  | _ => malformed

def makeOrdered (make : Bool → NodeId → Builder Item) (deep : Bool) (id : NodeId) :
    (done : List (Value × Item)) → List NodeId → Builder Unit
  | _, [] => return
  | done, item :: rest => do
    let (key, value) ← singleEntry item
    let key ← keyValue (← make deep key)
    if hasKey done key then throw .repeatedEntry
    let done := done ++ [(key, ← make deep value)]
    putContents id (.ordered done)
    makeOrdered make deep id done rest

def makePairs (make : Bool → NodeId → Builder Item) (deep : Bool) (id : NodeId) :
    (done : List Item) → List NodeId → Builder Unit
  | _, [] => return
  | done, item :: rest => do
    let (key, value) ← singleEntry item
    let key ← make deep key
    let done := done ++ [.tuple [key, ← make deep value]]
    putContents id (.list done)
    makePairs make deep id done rest

def fill (make : Bool → NodeId → Builder Item) (deep : Bool) (id : NodeId) : Builder Unit := do
  match (← site id).node.tag with
  | .sequence => do putContents id (.list (← (← itemsOf id).mapM (make deep)))
  | .mapping => do putContents id (.mapping (← makeMapping make deep id))
  | .set => do putContents id (.set ((← makeMapping make deep id).map Prod.fst))
  | .orderedMapping => do makeOrdered make deep id [] (← itemsOf id)
  | .pairs => do makePairs make deep id [] (← itemsOf id)
  | _ => return

def emptyContents? : Tag → Option Contents
  | .sequence => some (.list [])
  | .pairs => some (.list [])
  | .mapping => some (.mapping [])
  | .orderedMapping => some (.ordered [])
  | .set => some (.set [])
  | _ => none

/-- Makes a node, each once. A collection is filled at once where `deep` says so; what stands inside
itself then is nothing there. -/
def make : (fuel : Nat) → (deep : Bool) → NodeId → Builder Item
  | 0, _, _ => throw .tooDeep
  | fuel + 1, deep, id => do
    let s ← site id
    match s.item with
    | some item => return item
    | none =>
      if s.busy then return .value .null
      update id fun s => { s with busy := true }
      let item ← match emptyContents? s.node.tag with
        | none => do pure (.value (← makeText id))
        | some contents => do
          putContents id contents
          if deep then fill (make fuel) true id else postpone id
          pure (.collection id)
      update id fun s => { s with busy := false, item := some item }
      return item

def fillAll : (fuel : Nat) → Builder Unit
  | 0 => return
  | fuel + 1 => do
    let due ← takeDue
    if !due.isEmpty then
      let size := (← get).sites.size
      due.forM (fill (make (size + 1)) false)
      fillAll fuel

def makeAll (root : NodeId) : Builder Item := do
  let size := (← get).sites.size
  let item ← make (size + 1) false root
  fillAll (size + 1)
  return item

end Builder

/-- The value of an item down to so many levels. Below them only kinds are told, since a collection
may hold itself. -/
def Building.valueOf (b : Building) : (levels : Nat) → Item → Value
  | _, .value v => v
  | 0, .tuple _ => .other "tuple" "..."
  | 0, .collection id => .other (b.site id).contents.kind "..."
  | levels + 1, .tuple items => .tuple (items.map (b.valueOf levels))
  | levels + 1, .collection id =>
    match (b.site id).contents with
    | .list items => .list (items.map (b.valueOf levels))
    | .mapping entries => .mapping (entries.map fun (key, item) => (key, b.valueOf levels item))
    | .ordered entries => .ordered (entries.map fun (key, item) => (key, b.valueOf levels item))
    | .set keys => .set keys

/-- The value of the document in a text, down to so many levels; a text without a document has
none. -/
def load (levels : Nat) (text : String) : Except DocumentError Value := do
  match ← Document.ofText text with
  | none => return .null
  | some document =>
    let (item, building) ← (Builder.makeAll document.root).run (.ofDocument document)
    return building.valueOf levels item

end TagTemplate.Yaml
