import TagTemplate.Template.Compile

/-! What is told of reading a source, step by step, to whoever asks for it: every construct when it
is complete, and every tag that turns out to be something else. -/
namespace TagTemplate.Template

def parsedLine (node : Node) : String :=
  match node with
  | .template children length =>
    s!"Parsed template string with {children.length} children, length {length}"
  | node => s!"Parsed {node.kind} of length {node.length}"

def turnedLines (before after : Construct) : List String :=
  match before, after with
  | .holder (.tag ..), .comment _ => ["Tag reclassified as comment"]
  | .holder (.tag ..), .holder (.declaration name ..) =>
    [s!"Tag reclassified as declaration of '{name}'"]
  | _, _ => []

def stepLines (s : Reader.State) (next : Reader.Progress) : List String :=
  match next with
  | .closed node => [parsedLine node]
  | .reading t =>
    if t.outer.length < s.outer.length then [parsedLine (s.inner.toNode (s.length + 2))]
    else if s.outer.length = t.outer.length then turnedLines s.inner t.inner
    else []

def readJournal (limit : Nat) : Reader.State → List Char → List String
  | s, [] => (Reader.finish? s).toList.map parsedLine
  | s, c :: rest =>
    match Reader.step limit s c with
    | .error _ => []
    | .ok (.closed node) => stepLines s (.closed node)
    | .ok (.reading t) => stepLines s (.reading t) ++ readJournal limit t rest

def compileJournal (source : String) : List String :=
  let lines := readJournal nestingLimit (.start .emptyTemplate false) source.toList
  match compile source with
  | .ok (.template children _) =>
    lines ++
      [s!"Compiled template of {source.length} chars into {children.length} top-level nodes"]
  | _ => lines

end TagTemplate.Template
