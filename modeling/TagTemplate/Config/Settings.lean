import TagTemplate.Config.Schema
import TagTemplate.Evaluation.Bindings

/-! The settings of a run: how long it may take, the seed of its random tags, and names that stand
for texts. -/
namespace TagTemplate.Config

def settingsSchema : Schema :=
  .record "OccConfig"
    [.mk "timeout" (.union [.float, .null]) (some .null) true,
      .mk "seed" (.union [.int, .null]) (some .null) true,
      .mk "variables" (.mapping .text .text) (some (.mapping [])) true]

structure Settings where
  timeout : Option Number
  seed : Option Int
  constants : List (String × String)
  deriving DecidableEq

namespace Settings

def default : Settings := ⟨none, none, []⟩

def timeoutOf : Value → Option Number
  | .number n => some n
  | _ => none

def seedOf : Value → Option Int
  | .number (.int n) => some n
  | _ => none

def variablesOf : Value → List (String × String)
  | .mapping entries => entries.filterMap fun
    | (.text name, .text value) => some (name, value)
    | _ => none
  | _ => []

def ofValue (value : Value) : Settings :=
  match value with
  | .record _ fields =>
    let field (name : String) := (fields.lookup name).getD .null
    ⟨timeoutOf (field "timeout"), seedOf (field "seed"), variablesOf (field "variables")⟩
  | _ => default

def bindings (s : Settings) : List (String × Evaluation.Binding H) :=
  s.constants.map fun (name, value) => (name, .constant value)

def toValue (s : Settings) : Value :=
  .record "OccConfig"
    [("timeout", (s.timeout.map Value.number).getD .null),
      ("seed", (s.seed.map Value.int).getD .null),
      ("variables", .mapping (s.constants.map fun (n, v) => (.text n, .text v)))]

end Settings
end TagTemplate.Config
