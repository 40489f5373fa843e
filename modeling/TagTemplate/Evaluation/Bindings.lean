import TagTemplate.Evaluation.Builtin

/-! What names stand for while a template is evaluated. -/
namespace TagTemplate.Evaluation

inductive Binding (H : Type) where
  /-- The name is there but stands for nothing. -/
  | absent
  | builtin (b : Builtin)
  | constant (value : String)
  | host (h : H)

/-- Names and what they are bound to, each name once. -/
structure Bindings (H : Type) where
  entries : List (String × Binding H)

namespace Bindings

def empty : Bindings H := ⟨[]⟩

def find? (bs : Bindings H) (name : String) : Option (Binding H) :=
  bs.entries.lookup name

def contains (bs : Bindings H) (name : String) : Bool :=
  (bs.find? name).isSome

def insertEntry (name : String) (binding : Binding H) :
    List (String × Binding H) → List (String × Binding H)
  | [] => [(name, binding)]
  | (n, b) :: rest =>
    if n = name then (name, binding) :: rest else (n, b) :: insertEntry name binding rest

def insert (bs : Bindings H) (name : String) (binding : Binding H) : Bindings H :=
  ⟨insertEntry name binding bs.entries⟩

def erase (bs : Bindings H) (name : String) : Bindings H :=
  ⟨bs.entries.filter (·.1 ≠ name)⟩

def insertAll (bs : Bindings H) (more : List (String × Binding H)) : Bindings H :=
  more.foldl (fun bs (name, binding) => bs.insert name binding) bs

def size (bs : Bindings H) : Nat :=
  bs.entries.length

def names (bs : Bindings H) : List String :=
  (bs.entries.map Prod.fst).mergeSort fun a b => decide (a ≤ b)

def builtins : List (String × Binding H) :=
  [("join", .builtin .join), ("random", .builtin .random), ("randomNumber", .builtin .randomNumber)]

/-- The bindings that an evaluation begins with: those given, and the built-in tags, which stand
before others of the same name. -/
def initial (given : List (String × Binding H)) : Bindings H :=
  (empty.insertAll given).insertAll builtins

def resolve? (bs : Bindings H) (name : String) : Option (Binding H) :=
  match bs.find? name with
  | some .absent => none
  | found => found

end Bindings
end TagTemplate.Evaluation
