import TagTemplate.Text.Quoted
import TagTemplate.Text.Digit

/-! The flags of the command line, and what each of its words is: a flag, perhaps with a value in
the same word, or an argument. Long names may be shortened as long as only one flag fits. -/
namespace TagTemplate.CommandLine

inductive Flag where
  | help
  | version
  | eval
  | config
  | timeout
  | seed
  | var
  | verbose
  deriving DecidableEq, Repr

namespace Flag

def names : Flag → List String
  | help => ["-h", "--help"]
  | version => ["-v", "--version"]
  | eval => ["-e", "--eval"]
  | config => ["--config"]
  | timeout => ["--timeout"]
  | seed => ["--seed"]
  | var => ["--var"]
  | verbose => ["--verbose"]

def takesValue : Flag → Bool
  | help | version | verbose => false
  | _ => true

def label (f : Flag) : String := "/".intercalate f.names

def all : List Flag := [help, version, eval, config, timeout, seed, var, verbose]

end Flag

def flagNames : List (String × Flag) :=
  Flag.all.flatMap fun f => f.names.map fun name => (name, f)

/-- A flag as a word gives it. `joined` says whether a value follows in the same word without an
equals sign. -/
structure Given where
  flag : Flag
  name : String
  value : Option String
  joined : Bool
  deriving DecidableEq, Repr

inductive Word where
  | argument (text : String)
  | flag (given : Given)
  | unknown (text : String)
  | separator
  deriving DecidableEq, Repr

inductive UsageError where
  | ambiguous (text : String) (names : List String)
  | missingValue (flag : Flag)
  | unwantedValue (flag : Flag) (value : String)
  | badNumber (flag : Flag) (kind value : String)
  | unrecognized (texts : List String)
  deriving DecidableEq, Repr

def UsageError.message : UsageError → String
  | ambiguous text names => s!"ambiguous option: {text} could match " ++ ", ".intercalate names
  | missingValue flag => s!"argument {flag.label}: expected one argument"
  | unwantedValue flag value =>
    s!"argument {flag.label}: ignored explicit argument {Text.quoted value}"
  | badNumber flag kind value =>
    s!"argument {flag.label}: invalid {kind} value: {Text.quoted value}"
  | unrecognized texts => "unrecognized arguments: " ++ " ".intercalate texts

def splitAssignment? (text : String) : Option (String × String) :=
  let cs := text.toList
  match cs.dropWhile (· != '=') with
  | [] => none
  | _ :: value => some (String.ofList (cs.takeWhile (· != '=')), String.ofList value)

/-- A hyphen and a number without an exponent, which is an argument. -/
def isNegativeNumber (text : String) : Bool :=
  let isDigit (c : Char) := (Text.decimalDigit? c).isSome
  let cs := if text.endsWith "\n" then text.toList.dropLast else text.toList
  match cs with
  | '-' :: rest =>
    let whole := rest.takeWhile isDigit
    match rest.dropWhile isDigit with
    | [] => !whole.isEmpty
    | '.' :: fraction => !fraction.isEmpty && fraction.all isDigit
    | _ => false
  | _ => false

/-- The flags that a word may stand for, if it is no exact name. -/
def candidates (text : String) : List Given :=
  match text.toList with
  | '-' :: '-' :: _ =>
    let (start, value) := match splitAssignment? text with
      | some (start, value) => (start, some value)
      | none => (text, none)
    (flagNames.filter fun (name, _) => start.toList.isPrefixOf name.toList).map fun (name, flag) =>
      ⟨flag, name, value, false⟩
  | '-' :: c :: rest =>
    (flagNames.filter fun (name, _) => name = String.ofList ['-', c]).map fun (name, flag) =>
      ⟨flag, name, some (String.ofList rest), true⟩
  | _ => []

def wordOf (text : String) : Except UsageError Word :=
  if text = "--" then .ok .separator
  else if !text.startsWith "-" || text = "-" then .ok (.argument text)
  else
    let exact (name : String) (value : Option String) : Option Word :=
      (flagNames.lookup name).map fun flag => .flag ⟨flag, name, value, false⟩
    let assigned := (splitAssignment? text).bind fun (name, value) => exact name (some value)
    match (exact text none).or assigned with
    | some word => .ok word
    | none =>
      match candidates text with
      | [given] => .ok (.flag given)
      | [] =>
        if isNegativeNumber text || text.contains ' ' then .ok (.argument text)
        else .ok (.unknown text)
      | several => .error (.ambiguous text (several.map Given.name))

def wordsOf : List String → Except UsageError (List Word)
  | [] => .ok []
  | text :: rest => do
    let word ← wordOf text
    if word = .separator then return word :: rest.map .argument
    else return word :: (← wordsOf rest)

end TagTemplate.CommandLine
