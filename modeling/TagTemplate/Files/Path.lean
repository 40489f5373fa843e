/-! Names of files. A path is kept without empty parts and without parts that stay where they are;
parts that go up are kept, since they depend on what the others lead to. -/
namespace TagTemplate.Files

/-- A path; `rootMarks` is the number of slashes at its beginning that count. -/
structure Path where
  rootMarks : Nat
  parts : List String
  deriving DecidableEq, Repr

namespace Path

/-- How many of the slashes at the beginning count: exactly two stay two, others are one. -/
def rootMarksOf (s : String) : Nat :=
  let slashes := (s.toList.takeWhile (· == '/')).length
  if slashes = 0 then 0 else if slashes = 2 then 2 else 1

def ofString (s : String) : Path where
  rootMarks := rootMarksOf s
  parts := (s.splitOn "/").filter fun part => part ≠ "" && part ≠ "."

def toString (p : Path) : String :=
  let text := String.ofList (List.replicate p.rootMarks '/') ++ "/".intercalate p.parts
  if text = "" then "." else text

def child (p : Path) (part : String) : Path := { p with parts := p.parts ++ [part] }

def name (p : Path) : String := p.parts.getLastD ""

def parent (p : Path) : Path := { p with parts := p.parts.dropLast }

end Path
end TagTemplate.Files
