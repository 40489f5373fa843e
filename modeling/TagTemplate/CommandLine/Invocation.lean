import TagTemplate.CommandLine.Flag
import TagTemplate.Number.Numeral

/-! What a command line asks for. Words are taken from left to right, and the first thing that is
wrong, or that needs no more words, settles it. One argument is the file; a second one is one too
many. -/
namespace TagTemplate.CommandLine

/-- The values of the flags and the file; each flag's last value counts, but all of `--var`. -/
structure Invocation where
  file : Option String
  eval : Option String
  config : Option String
  timeout : Option Float
  seed : Option Int
  vars : List String
  verbose : Bool

def Invocation.empty : Invocation := ⟨none, none, none, none, none, [], false⟩

inductive Request where
  | run (i : Invocation)
  | version
  | help

inductive Stop where
  | request (r : Request)
  | error (e : UsageError)

structure Progress where
  invocation : Invocation
  fileTaken : Bool
  extra : List String

def setValue (i : Invocation) (flag : Flag) (value : String) : Except Stop Invocation :=
  match flag with
  | .eval => .ok { i with eval := some value }
  | .config => .ok { i with config := some value }
  | .var => .ok { i with vars := i.vars ++ [value] }
  | .timeout =>
    match Numeral.float? value with
    | some x => .ok { i with timeout := some x }
    | none => .error (.error (.badNumber flag "float" value))
  | .seed =>
    match Numeral.integer? value with
    | some n => .ok { i with seed := some n }
    | none => .error (.error (.badNumber flag "int" value))
  | .help | .version | .verbose => .ok i

def setFlag (i : Invocation) (flag : Flag) : Except Stop Invocation :=
  match flag with
  | .help => .error (.request .help)
  | .version => .error (.request .version)
  | .verbose => .ok { i with verbose := true }
  | _ => .ok i

/-- What one word of flags comes to: flags without values in their order, and last perhaps a flag
with its value, a flag whose value is the next word, or letters that are no flag. -/
structure Cluster where
  plain : List Flag
  valued : Option (Flag × String)
  waiting : Option Flag
  extra : Option String

/-- Reads a word of flags. Flags of one letter may stand together behind one hyphen. -/
def clusterOf : (fuel : Nat) → Given → Except UsageError Cluster
  | 0, _ => .ok ⟨[], none, none, none⟩
  | fuel + 1, given =>
    match given.value with
    | none =>
      .ok (if given.flag.takesValue then ⟨[], none, some given.flag, none⟩
        else ⟨[given.flag], none, none, none⟩)
    | some value =>
      if given.flag.takesValue then .ok ⟨[], some (given.flag, value), none, none⟩
      else
        let unwanted := Except.error (.unwantedValue given.flag value)
        match value.toList with
        | [] => unwanted
        | c :: rest =>
          if given.name.startsWith "--" || !given.joined || c = '-' then unwanted
          else
            let name := String.ofList ['-', c]
            match flagNames.lookup name with
            | none => .ok ⟨[given.flag], none, none, some ("-" ++ value)⟩
            | some flag => do
              let next : Given := match rest with
                | [] => ⟨flag, name, none, false⟩
                | '=' :: assigned => ⟨flag, name, some (String.ofList assigned), false⟩
                | _ => ⟨flag, name, some (String.ofList rest), true⟩
              let cluster ← clusterOf fuel next
              return { cluster with plain := given.flag :: cluster.plain }

def takeGiven (p : Progress) (given : Given) :
    Except Stop (Progress × Option (Flag × List Flag)) := do
  let length := (given.value.getD "").length
  let cluster ← (clusterOf (length + 1) given).mapError .error
  match cluster.waiting with
  | some flag => return (p, some (flag, cluster.plain))
  | none =>
    let i ← cluster.plain.foldlM setFlag p.invocation
    let i ← match cluster.valued with
      | some (flag, value) => setValue i flag value
      | none => pure i
    return ({ p with invocation := i, extra := p.extra ++ cluster.extra.toList }, none)

/-- Fills the place of the file, which may be given as nothing by a separator alone. -/
def takeFile (p : Progress) (file : Option String) : Progress :=
  { p with fileTaken := true, invocation := { p.invocation with file } }

def takeWords : List Word → Progress → Except Stop Progress
  | [], p => .ok p
  | .unknown text :: rest, p => takeWords rest { p with extra := p.extra ++ [text] }
  | .argument text :: .separator :: rest, p =>
    if p.fileTaken then takeWords rest { p with extra := p.extra ++ [text, "--"] }
    else takeWords rest (takeFile p (some text))
  | .argument text :: rest, p =>
    if p.fileTaken then takeWords rest { p with extra := p.extra ++ [text] }
    else takeWords rest (takeFile p (some text))
  | .separator :: .argument text :: rest, p =>
    if p.fileTaken then takeWords rest { p with extra := p.extra ++ ["--", text] }
    else takeWords rest (takeFile p (some text))
  | .separator :: rest, p =>
    if p.fileTaken then takeWords rest { p with extra := p.extra ++ ["--"] }
    else takeWords rest (takeFile p none)
  | .flag given :: .argument text :: rest, p => do
    match ← takeGiven p given with
    | (p, some (flag, plain)) =>
      let i ← plain.foldlM setFlag p.invocation
      takeWords rest { p with invocation := ← setValue i flag text }
    | (p, none) => takeWords (.argument text :: rest) p
  | .flag given :: rest, p => do
    match ← takeGiven p given with
    | (_, some (flag, _)) => .error (.error (.missingValue flag))
    | (p, none) => takeWords rest p
  termination_by words => words.length

def request (arguments : List String) : Except UsageError Request :=
  match wordsOf arguments with
  | .error e => .error e
  | .ok words =>
    match takeWords words ⟨.empty, false, []⟩ with
    | .error (.request r) => .ok r
    | .error (.error e) => .error e
    | .ok p => if p.extra.isEmpty then .ok (.run p.invocation) else .error (.unrecognized p.extra)

end TagTemplate.CommandLine
