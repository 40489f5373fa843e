import TagTemplate.Evaluation.Session
import TagTemplate.Text.Blank

/-! The interactive shell. Every line is a source that is run in one session; what fails is
reported and the shell goes on. Blank lines and two commands are no sources. -/
namespace TagTemplate.Shell
open Evaluation

def exitCommand : String := ".exit"

def namesCommand : String := ".context"

def defaultPrompt : String := "> "

/-- What the shell says about a failure. Errors that no template can mend are marked. -/
def report : RunError → String
  | .read (.malformed e) => s!"{e.fault.name}: {e.text}"
  | .read (.misplaced e) => s!"Error: {Source.NoCharacter.name}: {e.message}"
  | .eval e => if e.isUser then s!"{e.name}: {e.message}" else s!"Error: {e.name}: {e.message}"

inductive Reaction where
  | nothing
  | print (text : String)
  | leave

def react (host : Host H σ) (s : Session H σ) (line : String) : Reaction × Session H σ :=
  let command := Text.strip line
  if command = "" then (.nothing, s)
  else if command = exitCommand then (.leave, s)
  else if command = namesCommand then (.print (", ".intercalate s.names), s)
  else
    match s.run host line with
    | (.ok text, s) => (.print text, s)
    | (.error e, s) => (.print (report e), s)

inductive Piece where
  | prompt
  | output (text : String)

/-- Answers lines until one ends the shell or there are no more, which is answered by an empty
line. Every line is asked for by a prompt, and so is the end. -/
def run (host : Host H σ) (s : Session H σ) : List String → List Piece × Session H σ
  | [] => ([.prompt, .output "\n"], s)
  | line :: rest =>
    match react host s line with
    | (.leave, s) => ([.prompt], s)
    | (.nothing, s) =>
      let (pieces, s) := run host s rest
      (.prompt :: pieces, s)
    | (.print text, s) =>
      let (pieces, s) := run host s rest
      (.prompt :: .output (text ++ "\n") :: pieces, s)

def output (pieces : List Piece) : String :=
  String.join (pieces.map fun
    | .prompt => ""
    | .output text => text)

def transcript (prompt : String) (pieces : List Piece) : String :=
  String.join (pieces.map fun
    | .prompt => prompt
    | .output text => text)

def promptCount (pieces : List Piece) : Nat :=
  pieces.countP fun
    | .prompt => true
    | .output _ => false

end TagTemplate.Shell
