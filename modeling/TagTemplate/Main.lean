import TagTemplate.CommandLine.Program
import TagTemplate.Host.Scripted

/-! The command line as a program. The files that an invocation names are read before it is carried
out, and the shell takes its lines one by one. The clock is read when the program starts and then
steps on by a microsecond at every reading. -/
namespace TagTemplate
open CommandLine
open Evaluation (Session)
open Files (FileSystem Found Path)
open Host (Stage Tag)

def foundOfError : IO.Error → Found
  | .inappropriateType none .. => .directory
  | .inappropriateType .. => .blocked
  | .permissionDenied .. => .denied
  | .invalidArgument _ code _ => if code = 22 then .badName else .nameTooLong
  | _ => .missing

def look (path : Path) : IO Found := do
  try
    let octets ← IO.FS.readBinFile path.toString
    return .file octets.toList
  catch e => return foundOfError e

def filesOf (i : Invocation) : IO FileSystem := do
  let standard := Config.pathIn ⟨0, []⟩
  let paths := standard :: (configPath i).toList ++ (templatePath i).toList
  let entries ← paths.mapM fun path => do return (path, ← look path)
  return {
    directory := Path.ofString (← IO.currentDir).toString
    find := fun path => (entries.lookup path).getD .missing }

/-- The state of the host at the start. Without a seed the time gives one. -/
def startStage (nanoseconds : Nat) (seed : Option Int) : Stage where
  clock := .float (Float.ofNat nanoseconds / 1000000)
  step := .float 0.001
  generator := .ofSeed (seed.or (some nanoseconds))
  counts := []
  calls := []

def conclude (ending : Ending) : IO UInt32 := do
  let stdout ← IO.getStdout
  let stderr ← IO.getStderr
  stderr.putStr (journalText ending.journal ++ ending.err)
  stdout.putStr ending.out
  stdout.flush
  match ending.status with
  | .ok status => return UInt32.ofNat status
  | .error e =>
    stderr.putStr (e.name ++ ": " ++ e.message ++ "\n")
    return 1

partial def converse (verbose : Bool) (s : Session Tag Stage) : IO UInt32 := do
  let stdout ← IO.getStdout
  stdout.putStr Shell.defaultPrompt
  stdout.flush
  let line ← (← IO.getStdin).getLine
  if line.isEmpty then
    stdout.putStr "\n"
    return 0
  let line := (linesOf line).headD ""
  if verbose then (← IO.getStderr).putStr (journalText (shellJournal Host.scripted s [line]))
  match Shell.react Host.scripted s line with
  | (.leave, _) => return 0
  | (.nothing, s) => converse verbose s
  | (.print text, s) =>
    stdout.putStr (text ++ "\n")
    converse verbose s

def carryOut (arguments : List String) : IO UInt32 := do
  let stage := startStage (← IO.monoNanosNow)
  match request arguments with
  | .ok (.run i) =>
    let fs ← filesOf i
    let journal := if i.verbose then prepareJournal fs i ++ Template.compileJournal "" else []
    match sourceOf fs i, prepare (H := Tag) stage fs i with
    | .ok none, .ok s =>
      (← IO.getStderr).putStr (journalText journal)
      converse i.verbose s
    | _, _ => conclude (run Host.scripted stage fs arguments [])
  | _ => conclude (run Host.scripted stage (.ofEntries ⟨0, []⟩ []) arguments [])

end TagTemplate

def main (arguments : List String) : IO UInt32 :=
  TagTemplate.carryOut arguments
