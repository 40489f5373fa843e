import TagTemplate.Value.Order

/-! Loading values by schemas: a schema says what a value has to be, and loading turns the value
into one of its kind or says where it does not fit. Only integers change, where a number with a
fraction is asked for, and mappings become records. -/
namespace TagTemplate.Config

mutual
/-- What a value has to be. Left out are the annotations of a mapping with one or three arguments in
place of two, records that hold themselves, and records whose constructor can fail. -/
inductive Schema where
  | any
  | null
  | text
  | int
  | float
  | bool
  /-- What one of the variants accepts; the first one that does decides. -/
  | union (variants : List Schema)
  | mapping (key value : Schema)
  | record (name : String) (fields : List Field)
  | unsupported (name : String)

/-- A field of a record. One that is `settable` is required if it has no default; another one keeps
its default. -/
inductive Field where
  | mk (name : String) (schema : Schema) (default : Option Value) (settable : Bool)
end

instance : Inhabited Schema := ⟨.any⟩

instance : Inhabited Field := ⟨.mk "" .any none true⟩

def Field.name : Field → String
  | mk name .. => name

def Field.settable : Field → Bool
  | mk _ _ _ settable => settable

inductive Reason where
  | expected (what found : String)
  | expectedRecord (name found : String)
  | unknownKeys (keys : List String)
  | missing
  | unsupported (name : String)
  | variants (messages : List String)
  deriving DecidableEq, Repr

def Reason.message : Reason → String
  | expected what found => s!"expected {what}, got {found}"
  | expectedRecord name found => s!"expected mapping for {name}, got {found}"
  | unknownKeys keys => s!"unknown key(s): [{Value.commas keys}]"
  | missing => "required field missing"
  | unsupported name => s!"unsupported type {name}"
  | variants messages => " | ".intercalate messages

/-- Why a value could not be loaded. Only a `misfit` is about the value's form; the others come out
of unions too. -/
inductive LoadError where
  | misfit (path : String) (reason : Reason)
  /-- Unknown keys cannot be listed, because they have no order among each other. -/
  | unsortable
  | tooLarge
  /-- An integer has more digits than a message or a path may have. -/
  | tooLong
  deriving DecidableEq, Repr

namespace LoadError

def name : LoadError → String
  | misfit .. => "ConfigLoadError"
  | unsortable => "TypeError"
  | tooLarge => "OverflowError"
  | tooLong => "ValueError"

def message : LoadError → String
  | misfit path reason => s!"{path}: {reason.message}"
  | unsortable => "keys have no order"
  | tooLarge => "int too large to convert to float"
  | tooLong =>
    s!"Exceeds the limit ({Numeral.maxIntegerDigits} digits) for integer string conversion; " ++
      "use sys.set_int_max_str_digits() to increase the limit"

end LoadError

def lookup (entries : List (Value × Value)) (key : String) : Option Value :=
  (entries.find? fun (k, _) => k.sameKey (.text key)).map Prod.snd

def checkKeys (path : String) (names : List String) (entries : List (Value × Value)) :
    Except LoadError Unit :=
  let unknown := (entries.map Prod.fst).filter fun k => !names.any fun n => k.sameKey (.text n)
  if unknown.isEmpty then .ok ()
  else
    match Value.sorted? unknown with
    | some keys =>
      if keys.all Value.isWritable then
        .error (.misfit path (.unknownKeys (keys.map Value.shown)))
      else .error .tooLong
    | none => .error .unsortable

/-- Loads the entries of a mapping one after another. Keys that become the same are one. -/
def loadEntries (loadKey loadValue : String → Value → Except LoadError Value) (path : String)
    (done : List (Value × Value)) :
    List (Value × Value) → Except LoadError (List (Value × Value))
  | [] => .ok done
  | (k, v) :: rest => do
    let key ← loadKey s!"{path}.<key>" k
    if !key.isWritable then .error .tooLong
    let value ← loadValue s!"{path}.{key.toText}" v
    loadEntries loadKey loadValue path (Value.insertEntry done key value) rest

def expect (path what : String) (value : Value) (fits : Bool) : Except LoadError Value :=
  if fits then .ok value else .error (.misfit path (.expected what value.kind))

/-- A number with a fraction; an integer becomes the nearest one. -/
def loadFloat (path : String) (value : Value) : Except LoadError Value :=
  match value with
  | .number n =>
    match n.toFloat? with
    | some x => .ok (.float x)
    | none => .error .tooLarge
  | _ => .error (.misfit path (.expected "float" value.kind))

/-- What a field holds: the value given for it or else its default. Without either it must be one that
cannot be given, and holds nothing. -/
def loadField (loadGiven : String → Value → Except LoadError Value) (path : String)
    (given default : Option Value) (settable : Bool) : Except LoadError (Option Value) :=
  match given, default with
  | some value, _ => (loadGiven path value).map some
  | none, some value => .ok (some value)
  | none, none => if settable then .error (.misfit path .missing) else .ok none

mutual
/-- Loads a value as one of the schema's kind. The depth of the interpreter's stack is not modelled:
schemas and values may be as deep as one likes. -/
def load : Schema → (path : String) → Value → Except LoadError Value
  | .any, _, value => .ok value
  | .null, path, value => expect path "None" value (value matches .null)
  | .text, path, value => expect path "str" value (value matches .text _)
  | .int, path, value => expect path "int" value (value matches .number (.int _))
  | .bool, path, value => expect path "bool" value (value matches .bool _)
  | .float, path, value => loadFloat path value
  | .union variants, path, value => loadUnion variants [] path value
  | .mapping keySchema valueSchema, path, value =>
    match value.entries? with
    | some entries =>
      (loadEntries (load keySchema) (load valueSchema) path [] entries).map .mapping
    | none => .error (.misfit path (.expected "dict" value.kind))
  | .record name fields, path, value =>
    match value.entries? with
    | some entries => do
      checkKeys path ((fields.filter Field.settable).map Field.name) entries
      return .record name (← loadFields fields path entries)
    | none => .error (.misfit path (.expectedRecord name value.kind))
  | .unsupported name, path, _ => .error (.misfit path (.unsupported name))

/-- Loads a value by the first variant that accepts it. Nothing fits only where nothing is
asked for; `refusals` are what the variants before said. -/
def loadUnion : List Schema → (refusals : List String) → (path : String) → Value →
    Except LoadError Value
  | [], refusals, path, _ => .error (.misfit path (.variants refusals))
  | .null :: rest, refusals, path, value =>
    if value matches .null then .ok .null else loadUnion rest refusals path value
  | variant :: rest, refusals, path, value =>
    match load variant path value with
    | .ok loaded => .ok loaded
    | .error (.misfit place reason) =>
      loadUnion rest (refusals ++ [(LoadError.misfit place reason).message]) path value
    | .error e => .error e

def loadFields : List Field → (path : String) → List (Value × Value) →
    Except LoadError (List (String × Value))
  | [], _, _ => .ok []
  | .mk name schema default settable :: rest, path, entries => do
    let given := if settable then lookup entries name else none
    let held ← loadField (load schema) s!"{path}.{name}" given default settable
    let others ← loadFields rest path entries
    return (held.map fun value => (name, value)).toList ++ others
end

end TagTemplate.Config
