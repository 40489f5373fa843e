import TagTemplate.Files.Path
import TagTemplate.Text.Utf8
import TagTemplate.Text.Quoted

/-! Reading files by their paths. -/
namespace TagTemplate.Files

inductive Found where
  | file (octets : List UInt8)
  | directory
  | missing
  /-- A part before the last one is no directory. -/
  | blocked
  | denied
  | nameTooLong
  | badName
  deriving DecidableEq

structure FileSystem where
  directory : Path
  find : Path → Found

inductive FileError where
  | missing (path : String)
  | isDirectory (path : String)
  | blocked (path : String)
  | denied (path : String)
  | nameTooLong (path : String)
  | badName
  | encoding (e : Text.Utf8.Failure)
  deriving DecidableEq, Repr

namespace FileError

def name : FileError → String
  | missing _ => "FileNotFoundError"
  | isDirectory _ => "IsADirectoryError"
  | blocked _ => "NotADirectoryError"
  | denied _ => "PermissionError"
  | nameTooLong _ => "OSError"
  | badName => "ValueError"
  | encoding _ => "UnicodeDecodeError"

def message : FileError → String
  | missing path => s!"[Errno 2] No such file or directory: {Text.quoted path}"
  | isDirectory path => s!"[Errno 21] Is a directory: {Text.quoted path}"
  | blocked path => s!"[Errno 20] Not a directory: {Text.quoted path}"
  | denied path => s!"[Errno 13] Permission denied: {Text.quoted path}"
  | nameTooLong path => s!"[Errno 36] File name too long: {Text.quoted path}"
  | badName => "embedded null byte"
  | encoding e => e.message

end FileError

namespace FileSystem

def isFile (fs : FileSystem) (path : Path) : Bool :=
  fs.find path matches .file _

def read (fs : FileSystem) (path : Path) : Except FileError String :=
  let shown := path.toString
  match fs.find path with
  | .file octets => (Text.Utf8.text octets).mapError .encoding
  | .directory => .error (.isDirectory shown)
  | .missing => .error (.missing shown)
  | .blocked => .error (.blocked shown)
  | .denied => .error (.denied shown)
  | .nameTooLong => .error (.nameTooLong shown)
  | .badName => .error .badName

end FileSystem

inductive Entry where
  | file (octets : List UInt8)
  | directory

def entryAt (entries : List (Path × Entry)) (parts : List String) : Found :=
  match entries.find? fun (path, _) => path.parts = parts with
  | some (_, .file octets) => .file octets
  | some (_, .directory) => .directory
  | none =>
    if parts.isEmpty || entries.any fun (path, _) => parts.isPrefixOf path.parts then .directory
    else .missing

def longestName : Nat := 255

/-- Follows the parts of a path from a place that is `above` levels above the working directory, or
below it. Nothing is known of what lies above except that it is a directory. -/
def follow (entries : List (Path × Entry)) (here : List String) (above : Nat) :
    List String → Found
  | [] => if above = 0 then entryAt entries here else .directory
  | part :: rest =>
    match if above = 0 then entryAt entries here else .directory with
    | .directory =>
      if longestName < part.utf8ByteSize then .nameTooLong
      else if part = ".." then
        if above = 0 ∧ here ≠ [] then follow entries here.dropLast 0 rest
        else follow entries [] (above + 1) rest
      else if above = 0 then follow entries (here ++ [part]) 0 rest
      else .missing
    | .file _ => .blocked
    | found => found

def FileSystem.ofEntries (directory : Path) (entries : List (Path × Entry)) : FileSystem where
  directory
  find path :=
    if path.parts.any fun part => part.toList.contains '\x00' then .badName
    else if path.rootMarks = 0 then follow entries [] 0 path.parts
    else if path.parts.isEmpty then .directory
    else .missing

end TagTemplate.Files
