import TagTemplate.Number.Basic
import TagTemplate.Text.Octets
import TagTemplate.Value.Moment

/-! Values of documents and options: nothing, truth values, numbers, texts, octets, lists, sets,
mappings and dates. Mappings keep the order in which their keys came. -/
namespace TagTemplate

inductive Value where
  | null
  | bool (b : Bool)
  | number (n : Number)
  | text (s : String)
  | octets (os : List UInt8)
  | list (items : List Value)
  /-- A list that stands as a key. -/
  | tuple (items : List Value)
  | set (items : List Value)
  | mapping (entries : List (Value × Value))
  /-- A mapping that is written as a list of its entries. -/
  | ordered (entries : List (Value × Value))
  | record (name : String) (fields : List (String × Value))
  | moment (m : Moment)
  | other (kind : String) (shown : String)
  deriving Inhabited

namespace Value

def int (n : Int) : Value := number (.int n)

def float (x : Float) : Value := number (.float x)

def kind : Value → String
  | null => "NoneType"
  | bool _ => "bool"
  | number (.int _) => "int"
  | number (.float _) => "float"
  | text _ => "str"
  | octets _ => "bytes"
  | list _ => "list"
  | tuple _ => "tuple"
  | set _ => "set"
  | mapping _ => "dict"
  | ordered _ => "ordereddict"
  | record name _ => name
  | moment m => m.kind
  | other kind _ => kind

def commas (texts : List String) : String :=
  ", ".intercalate texts

mutual
def shown : Value → String
  | null => "None"
  | bool true => "True"
  | bool false => "False"
  | number n => n.text
  | text s => Text.quoted s
  | octets os => Text.Octets.shown os
  | list items => "[" ++ commas (shownItems items) ++ "]"
  | tuple [item] => "(" ++ shown item ++ ",)"
  | tuple items => "(" ++ commas (shownItems items) ++ ")"
  | set [] => "set()"
  | set items => "\x7b" ++ commas (shownItems items) ++ "\x7d"
  | mapping entries => "\x7b" ++ commas (shownEntries entries) ++ "\x7d"
  | ordered entries => "ordereddict(\x7b" ++ commas (shownEntries entries) ++ "\x7d)"
  | record name fields => name ++ "(" ++ commas (shownFields fields) ++ ")"
  | moment m => m.shown
  | other _ shown => shown

def shownItems : List Value → List String
  | [] => []
  | item :: rest => shown item :: shownItems rest

def shownEntries : List (Value × Value) → List String
  | [] => []
  | (key, value) :: rest => (shown key ++ ": " ++ shown value) :: shownEntries rest

def shownFields : List (String × Value) → List String
  | [] => []
  | (name, value) :: rest => (name ++ "=" ++ shown value) :: shownFields rest
end

mutual
/-- Whether all numbers that showing a value writes may be written. -/
def isWritable : Value → Bool
  | number n => n.isWritable
  | list items => areWritable items
  | tuple items => areWritable items
  | set items => areWritable items
  | mapping entries => entriesWritable entries
  | ordered entries => entriesWritable entries
  | record _ fields => fieldsWritable fields
  | _ => true

def areWritable : List Value → Bool
  | [] => true
  | item :: rest => isWritable item && areWritable rest

def entriesWritable : List (Value × Value) → Bool
  | [] => true
  | (key, value) :: rest => isWritable key && isWritable value && entriesWritable rest

def fieldsWritable : List (String × Value) → Bool
  | [] => true
  | (_, value) :: rest => isWritable value && fieldsWritable rest
end

/-- The text of a value: a text is itself, and anything else is what shows it. -/
def toText : Value → String
  | text s => s
  | v => v.shown

def number? : Value → Option Number
  | bool b => some (.int b.toInt)
  | number n => some n
  | _ => none

mutual
/-- Whether two values are the same key. Numbers are compared by value and not by kind. -/
def sameKey : Value → Value → Bool
  | null, null => true
  | text a, text b => a == b
  | octets a, octets b => a == b
  | tuple as, tuple bs => sameKeys as bs
  | list as, list bs => sameKeys as bs
  | moment a, moment b => a.same b
  | other k a, other l b => k == l && a == b
  | a, b =>
    match number? a, number? b with
    | some m, some n => m.order? n == some .eq
    | _, _ => false

def sameKeys : List Value → List Value → Bool
  | [], [] => true
  | a :: as, b :: bs => sameKey a b && sameKeys as bs
  | _, _ => false
end

/-- Puts an entry into a mapping: at the place of its key, or behind all others. -/
def insertEntry (entries : List (Value × α)) (key : Value) (value : α) : List (Value × α) :=
  match entries with
  | [] => [(key, value)]
  | (k, v) :: rest =>
    if sameKey k key then (k, value) :: rest else (k, v) :: insertEntry rest key value

/-- What counts as nothing where a document may be empty. -/
def isEmpty : Value → Bool
  | null => true
  | bool b => !b
  | number (.int n) => n == 0
  | number (.float x) => x == 0
  | text s => s == ""
  | octets os => os.isEmpty
  | list items => items.isEmpty
  | tuple items => items.isEmpty
  | set items => items.isEmpty
  | mapping entries => entries.isEmpty
  | ordered entries => entries.isEmpty
  | _ => false

def entries? : Value → Option (List (Value × Value))
  | mapping entries => some entries
  | ordered entries => some entries
  | _ => none

end Value
end TagTemplate
