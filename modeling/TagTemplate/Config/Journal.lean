import TagTemplate.Config.Load

/-! What is told of loading settings, step by step, to whoever asks for it. -/
namespace TagTemplate.Config

def Schema.name : Schema → String
  | .any => "Any"
  | .null => "NoneType"
  | .text => "str"
  | .int => "int"
  | .float => "float"
  | .bool => "bool"
  | .union _ => "Union"
  | .mapping .. => "Dict"
  | .record name _ => name
  | .unsupported name => name

def refusalLine (path : String) (result : Except LoadError Value) : List String :=
  match result with
  | .error (.misfit place reason) =>
    if place = path then [s!"RAISE at {place}: {reason.message}"] else []
  | _ => []

/-- The entries of a mapping up to the first that is refused, with what each of them tells. -/
def entriesJournal (loadKey loadValue : String → Value → Except LoadError Value)
    (tellKey tellValue : String → Value → List String) (path : String) :
    List (Value × Value) → List String
  | [] => []
  | (k, v) :: rest =>
    let keyPath := s!"{path}.<key>"
    let told := tellKey keyPath k
    match loadKey keyPath k with
    | .error _ => told
    | .ok key =>
      if !key.isWritable then told
      else
        let valuePath := s!"{path}.{key.toText}"
        let told := told ++ tellValue valuePath v
        match loadValue valuePath v with
        | .error _ => told
        | .ok _ => told ++ entriesJournal loadKey loadValue tellKey tellValue path rest

mutual
def journal : Schema → (path : String) → Value → List String
  | .union variants, path, value =>
    let names := variants.map fun v => Text.quoted v.name
    s!"Union at {path}: variants=[{Value.commas names}], val={value.shown}" ::
      (variantsJournal variants path value ++ refusalLine path (loadUnion variants [] path value))
  | .mapping keySchema valueSchema, path, value =>
    match value.entries? with
    | some entries =>
      entriesJournal (load keySchema) (load valueSchema) (journal keySchema) (journal valueSchema)
        path entries
    | none => refusalLine path (load (.mapping keySchema valueSchema) path value)
  | .record name fields, path, value =>
    let line := s!"Dataclass at {path}: {name}, val-type={value.kind}"
    let refused := line :: refusalLine path (load (.record name fields) path value)
    match value.entries? with
    | some entries =>
      match checkKeys path ((fields.filter Field.settable).map Field.name) entries with
      | .ok () => line :: fieldsJournal fields path entries
      | .error _ => refused
    | none => refused
  | schema, path, value => refusalLine path (load schema path value)

def variantsJournal : List Schema → (path : String) → Value → List String
  | [], _, _ => []
  | .null :: rest, path, value =>
    if value matches .null then [] else variantsJournal rest path value
  | variant :: rest, path, value =>
    let told := journal variant path value
    match load variant path value with
    | .error (.misfit ..) => told ++ variantsJournal rest path value
    | _ => told

def fieldsJournal : List Field → (path : String) → List (Value × Value) → List String
  | [], _, _ => []
  | .mk name schema default settable :: rest, path, entries =>
    let fieldPath := s!"{path}.{name}"
    match if settable then lookup entries name else none with
    | none =>
      if default.isSome || !settable then fieldsJournal rest path entries
      else [s!"RAISE at {fieldPath}: {Reason.missing.message}"]
    | some value =>
      let told := journal schema fieldPath value
      match load schema fieldPath value with
      | .error _ => told
      | .ok _ => told ++ fieldsJournal rest path entries
end

section
variable (document : String → Except Yaml.DocumentError Value)

def settingsJournal (source : Source) (text : String) : List String :=
  match (document text).toOption with
  | none => []
  | some value =>
    let value := if value.isEmpty then .mapping [] else value
    match value.entries? with
    | some _ =>
      let told := journal settingsSchema source.path.name value
      match settingsOf document source text with
      | .ok settings =>
        told ++ [s!"Loaded config from {source.shown.toString}: {settings.toValue.shown}"]
      | .error _ => told
    | none => []

def journalIn (fs : Files.FileSystem) (path root : Option Files.Path) : List String :=
  match source? fs path root with
  | .error _ => []
  | .ok none =>
    let shown := (Source.standard fs root).shown
    [s!"No {fileName} in {shown.parent.toString}, using defaults"]
  | .ok (some source) =>
    match fs.read source.path with
    | .error _ => []
    | .ok text => settingsJournal document source text

end

def loadJournal (fs : Files.FileSystem) (path root : Option Files.Path) : List String :=
  journalIn (Yaml.load documentLevels) fs path root

end TagTemplate.Config
