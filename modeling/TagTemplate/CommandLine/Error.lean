import TagTemplate.Config.Load
import TagTemplate.Evaluation.Session

/-! How a run of the program can fail. Errors that the program expects are told in one message;
others are defects of what it was given to run with, and leave it. -/
namespace TagTemplate.CommandLine
open Evaluation (RunError)

inductive ProgramError where
  | settings (e : Config.SettingsError)
  | badVariable (spec : String)
  | file (e : Files.FileError)
  | run (e : RunError)

namespace ProgramError

def name : ProgramError → String
  | settings e => e.name
  | badVariable _ => "ValueError"
  | file e => e.name
  | run (.read (.malformed e)) => e.fault.name
  | run (.read (.misplaced _)) => Source.NoCharacter.name
  | run (.eval e) => e.name

def message : ProgramError → String
  | settings e => e.message
  | badVariable spec => s!"Invalid variable format '{spec}'. Expected 'name=value'"
  | file e => e.message
  | run (.read (.malformed e)) => e.text
  | run (.read (.misplaced e)) => e.message
  | run (.eval e) => e.message

/-- Whether a document's text is at fault, and not what the program made of it: the errors of form,
and those of texts that are no numbers, dates or characters. -/
def isDocumentFault : Yaml.DocumentError → Bool
  | .malformed | .noCharacter | .noInteger .. | .longInteger _ | .noFloat _ | .manyExponents
  | .noMoment _ => true
  | .tooDeep | .unknownVersion .. | .emptyNumber | .noTruthValue _ | .momentOutOfRange
  | .unhashableKey _ | .repeatedEntry => false

def isExpected : ProgramError → Bool
  | settings (.document e) => isDocumentFault e
  | settings (.load .unsortable) | settings (.load .tooLarge) => false
  | settings _ => true
  | badVariable _ => true
  | file _ => true
  | run (.read (.malformed _)) => true
  | run (.read (.misplaced _)) => false
  | run (.eval e) => e.isUser || e.name = "ValueError"

end ProgramError
end TagTemplate.CommandLine
