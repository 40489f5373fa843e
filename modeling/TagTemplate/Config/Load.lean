import TagTemplate.Config.Settings
import TagTemplate.Files.FileSystem
import TagTemplate.Yaml.Load

/-! Settings from a file. A file that is asked for has to be there; otherwise one is looked for in
the working directory, and without it everything has its default. -/
namespace TagTemplate.Config
open Files (FileSystem FileError Path)

def fileName : String := "occ.yaml"

def pathIn (root : Path) : Path := root.child fileName

structure Source where
  path : Path
  shown : Path

/-- The file that is looked for in a directory, or else in the working directory. -/
def Source.standard (fs : FileSystem) (root : Option Path) : Source :=
  match root with
  | some root => ⟨pathIn root, pathIn root⟩
  | none => ⟨pathIn ⟨0, []⟩, pathIn fs.directory⟩

inductive SettingsError where
  | notFound (path : String)
  | notMapping (path : String)
  | document (e : Yaml.DocumentError)
  | load (e : LoadError)
  | file (e : FileError)
  deriving DecidableEq, Repr

namespace SettingsError

def name : SettingsError → String
  | notFound _ => "ConfigLoadError"
  | notMapping _ => "ConfigLoadError"
  | document e => e.name
  | load e => e.name
  | file e => e.name

def message : SettingsError → String
  | notFound path => s!"Config file not found: {path}"
  | notMapping path => s!"YAML must be a mapping: {path}"
  | document e => e.message
  | load e => e.message
  | file e => e.message

def isUser (e : SettingsError) : Bool := e.name = "ConfigLoadError"

end SettingsError

/-- The settings in the value of a document. They are told of in full, even where nobody asks. -/
def settingsOfValue (source : Source) (value : Value) : Except SettingsError Settings := do
  let value := if value.isEmpty then .mapping [] else value
  match value.entries? with
  | some _ =>
    let loaded ← (load settingsSchema source.path.name value).mapError .load
    if loaded.isWritable then return .ofValue loaded
    else .error (.load .tooLong)
  | none => .error (.notMapping source.shown.toString)

def source? (fs : FileSystem) (path root : Option Path) : Except SettingsError (Option Source) :=
  match path with
  | some path =>
    match fs.find path with
    | .file _ => .ok (some ⟨path, path⟩)
    | .nameTooLong => .error (.file (.nameTooLong path.toString))
    | .denied => .error (.file (.denied path.toString))
    | _ => .error (.notFound path.toString)
  | none =>
    let standard := Source.standard fs root
    .ok (if fs.isFile standard.path then some standard else none)

section
variable (document : String → Except Yaml.DocumentError Value)

def settingsOf (source : Source) (text : String) : Except SettingsError Settings := do
  settingsOfValue source (← (document text).mapError .document)

/-- The settings in a file, or in the standard one below a root, or the defaults. What a text has for
its value is up to `document`. -/
def settingsIn (fs : FileSystem) (path root : Option Path) : Except SettingsError Settings := do
  match ← source? fs path root with
  | none => return .default
  | some source => settingsOf document source (← (fs.read source.path).mapError .file)

end

/-- How many levels of a document the settings look at: the document, the names in it, and what each
of them stands for. -/
def documentLevels : Nat := 3

def loadSettings (fs : FileSystem) (path root : Option Path) : Except SettingsError Settings :=
  settingsIn (Yaml.load documentLevels) fs path root

end TagTemplate.Config
