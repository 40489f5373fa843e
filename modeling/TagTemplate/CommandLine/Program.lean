import TagTemplate.CommandLine.Error
import TagTemplate.CommandLine.Invocation
import TagTemplate.Config.Journal
import TagTemplate.Evaluation.Journal
import TagTemplate.Shell
import TagTemplate.Version

/-! The program: it loads settings, lets the flags override them, and then renders a file or a text,
or runs the shell. What it does depends on the files and lines it is given and on nothing else. -/
namespace TagTemplate.CommandLine
open Evaluation (Binding Host Session)
open Files (FileSystem Path)

def programName : String := "occ"

/-- What the program writes, and how it ends: with a status, or with an error it does not expect.
The journal is written only where it is asked for. -/
structure Ending where
  status : Except ProgramError Nat
  out : String
  err : String
  journal : List String

def journalText (lines : List String) : String :=
  String.join (lines.map fun line => "[DEBUG] " ++ line ++ "\n")

def Ending.failed (e : ProgramError) (journal : List String) : Ending :=
  if e.isExpected then ⟨.ok 2, "", Text.stripEnd e.message ++ "\n", journal⟩
  else ⟨.error e, "", "", journal⟩

def variableOf (spec : String) : Except ProgramError (String × String) :=
  match splitAssignment? spec with
  | some (name, value) => .ok (Text.strip name, value)
  | none => .error (.badVariable spec)

def configPath (i : Invocation) : Option Path :=
  (i.config.filter (· ≠ "")).map Path.ofString

def templatePath (i : Invocation) : Option Path :=
  (i.file.filter (· ≠ "")).map Path.ofString

/-- The session of settings, as far as no flag overrides them. The state of the host depends on the
seed. -/
def sessionOf (state : Option Int → σ) (i : Invocation) (settings : Config.Settings) :
    Except ProgramError (Session H σ) := do
  let constants ← i.vars.mapM variableOf
  let given : List (String × Binding H) :=
    settings.bindings ++ constants.map fun (name, value) => (name, .constant value)
  return .start given ((i.timeout.map Number.float).or settings.timeout)
    (state (i.seed.or settings.seed))

def prepare (state : Option Int → σ) (fs : FileSystem) (i : Invocation) :
    Except ProgramError (Session H σ) := do
  sessionOf state i (← (Config.loadSettings fs (configPath i) none).mapError .settings)

def prepareJournal (fs : FileSystem) (i : Invocation) : List String :=
  Config.loadJournal fs (configPath i) none

def sourceOf (fs : FileSystem) (i : Invocation) :
    Except ProgramError (Option (String × String)) :=
  match templatePath i, i.eval with
  | some path, _ => ((fs.read path).mapError .file).map fun text => some (text, "")
  | none, some text => .ok (some (text, "\n"))
  | none, none => .ok none

def render (host : Host H σ) (s : Session H σ) (source : String × String)
    (journal : List String) : Ending :=
  let (result, after) := s.run host source.1
  let journal := journal ++ Evaluation.runJournal s source.1 result after
  match result with
  | .ok text => ⟨.ok 0, text ++ source.2, "", journal⟩
  | .error e => .failed (.run e) journal

def shellJournal (host : Host H σ) (s : Session H σ) : List String → List String
  | [] => []
  | line :: rest =>
    match Shell.react host s line with
    | (.leave, _) => []
    | (.nothing, s) => shellJournal host s rest
    | (.print _, after) =>
      if Text.strip line = Shell.namesCommand then shellJournal host after rest
      else
        let (result, after) := s.run host line
        Evaluation.runJournal s line result after ++ shellJournal host after rest

def runShell (host : Host H σ) (s : Session H σ) (lines : List String)
    (journal : List String) : Ending :=
  let (pieces, _) := Shell.run host s lines
  ⟨.ok 0, Shell.transcript Shell.defaultPrompt pieces, "",
    journal ++ Template.compileJournal "" ++ shellJournal host s lines⟩

def invoke (host : Host H σ) (state : Option Int → σ) (fs : FileSystem) (i : Invocation)
    (lines : List String) : Ending :=
  let journal := prepareJournal fs i
  match prepare state fs i with
  | .error e => .failed e journal
  | .ok session =>
    match sourceOf fs i with
    | .error e => .failed e journal
    | .ok (some source) => render host session source journal
    | .ok none => runShell host session lines journal

def usage : String :=
  "usage: " ++ programName ++ " [-h] [-v] [-e CODE] [--config PATH] [--timeout MS] " ++
    "[--seed SEED] [--var NAME=VALUE] [--verbose] [file]\n"

def run (host : Host H σ) (state : Option Int → σ) (fs : FileSystem)
    (arguments lines : List String) : Ending :=
  match request arguments with
  | .error e => ⟨.ok 2, "", programName ++ ": error: " ++ e.message ++ "\n", []⟩
  | .ok .help => ⟨.ok 0, usage, "", []⟩
  | .ok .version => ⟨.ok 0, programName ++ " " ++ toolVersion true ++ "\n", "", []⟩
  | .ok (.run i) =>
    let ending := invoke host state fs i lines
    if i.verbose then ending else { ending with journal := [] }

def linesOf (text : String) : List String :=
  let lines := text.splitOn "\n"
  if lines.getLast? = some "" then lines.dropLast else lines

end TagTemplate.CommandLine
