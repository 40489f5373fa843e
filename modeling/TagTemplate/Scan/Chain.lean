import TagTemplate.Text.Quoted

/-! A text is scanned by a chain of handlers, which build a node from it. Every character goes
down the chain until a handler claims it; a pass over the chain has to move on or to finish, and so
every scan comes to an end or to a stall. -/
namespace TagTemplate.Scan

structure Cursor (ν : Type) where
  position : Nat
  finished : Bool
  node : ν

/-- Looks at one character and says whether it claims it. A handler never moves backwards. -/
structure Handler (ν : Type) where
  handle : Char → Cursor ν → Cursor ν × Bool
  position_le : ∀ c s, s.position ≤ (handle c s).1.position

/-- Runs when the text is over, and says whether the others need not run. -/
abbrev EndHandler (ν : Type) := Cursor ν → Cursor ν × Bool

structure Chain (ν : Type) where
  handlers : List (Handler ν)
  ends : List (EndHandler ν)

/-- A character that no handler moved over: the character, its position and what became of the
cursor. -/
structure Stall (ν : Type) where
  char : Char
  position : Nat
  cursor : Cursor ν

def Stall.message (kind : ν → String) (s : Stall ν) : String :=
  s!"No handler consumed {Text.quoted (String.singleton s.char)} at offset {s.position} while " ++
    s!"building {kind s.cursor.node}"

/-- Passes a character down the chain. Each handler sees what those before it have done. -/
def pass : List (Handler ν) → Char → Cursor ν → Cursor ν
  | [], _, s => s
  | h :: rest, c, s =>
    let (next, claimed) := h.handle c s
    if claimed then next else pass rest c next

theorem position_le_pass (handlers : List (Handler ν)) (c : Char) (s : Cursor ν) :
    s.position ≤ (pass handlers c s).position := by
  induction handlers generalizing s with
  | nil => exact Nat.le_refl _
  | cons h rest ih =>
    simp only [pass]
    split
    · exact h.position_le c s
    · exact Nat.le_trans (h.position_le c s) (ih _)

/-- Makes pass after pass until the text is over or a handler has finished. -/
def scan (handlers : List (Handler ν)) (text : List Char) (s : Cursor ν) :
    Except (Stall ν) (Cursor ν) :=
  if h : s.finished = false ∧ s.position < text.length then
    let next := pass handlers text[s.position] s
    if s.position < next.position then scan handlers text next
    else if next.finished then .ok next
    else .error ⟨text[s.position], s.position, next⟩
  else .ok s
termination_by text.length - s.position
decreasing_by simp_all only [next]; omega

def conclude : List (EndHandler ν) → Cursor ν → Cursor ν
  | [], s => s
  | h :: rest, s =>
    let (next, claimed) := h s
    if claimed then next else conclude rest next

namespace Chain

/-- A chain scans a text from `position` on. At the end the handlers that were added last come
first. -/
def run (chain : Chain ν) (text : List Char) (position : Nat) (node : ν) :
    Except (Stall ν) (Cursor ν) :=
  (scan chain.handlers text ⟨position, false, node⟩).map (conclude chain.ends.reverse)

end Chain
end TagTemplate.Scan
