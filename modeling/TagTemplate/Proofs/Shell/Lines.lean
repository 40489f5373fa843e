import Mathlib.Data.List.TakeWhile
import TagTemplate.Proofs.Evaluation.Acting
import TagTemplate.Proofs.Evaluation.Sessions
import TagTemplate.Proofs.Template.Printer
import TagTemplate.Shell

/-! The lines of the shell. It answers one after another until a line ends it, and each answer
depends on the session that the lines before have left. A line in which nothing is evaluated leaves
the session alone, so that the other answers are the same without it. -/
namespace TagTemplate

namespace Text

variable {c : Char} {cs : List Char}

end Text

namespace Template
open Grammar

end Template

namespace Shell
open Evaluation Template

variable {H σ : Type} {host : Host H σ} {s before after : Session H σ} {line : String}
  {lines : List String}

def isExit (line : String) : Bool :=
  Text.strip line = exitCommand

def told : Except RunError String → String
  | .ok text => text
  | .error e => report e

def Reaction.pieces : Reaction → List Piece
  | .print text => [.prompt, .output (text ++ "\n")]
  | _ => [.prompt]

def ending (lines : List String) : List Piece :=
  if lines.any isExit then [.prompt] else [.prompt, .output "\n"]

variable {marked : List (String × Bool)}

end Shell
end TagTemplate
