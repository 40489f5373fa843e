import TagTemplate.Scan.Chain

/-! Handlers that can fail. They tell what they make of a character, and an error that one of them
raises takes the place of the node. -/
namespace TagTemplate.Scan

/-- What a handler makes of a character: nothing, a node that stands for `count` more characters, the
same as the end of the scan, or an error. -/
inductive Outcome (ε ν : Type) where
  | skip
  | take (node : ν) (count : Nat)
  | finish (node : ν) (count : Nat)
  | raise (e : ε)

abbrev Act (ε ν : Type) := Char → (position : Nat) → ν → Outcome ε ν

/-- The cursor behind an outcome, and whether the character is claimed. An error is the end of the
scan. -/
def Outcome.cursor (position : Nat) (node : ν) : Outcome ε ν → Cursor (Except ε ν) × Bool
  | skip => (⟨position, false, .ok node⟩, false)
  | take next count => (⟨position + count, false, .ok next⟩, true)
  | finish next count => (⟨position + count, true, .ok next⟩, true)
  | raise e => (⟨position, true, .error e⟩, true)

theorem Outcome.position_le_cursor (position : Nat) (node : ν) (o : Outcome ε ν) :
    position ≤ (o.cursor position node).1.position := by
  cases o with
  | skip => exact Nat.le_refl _
  | take next count => exact Nat.le_add_right _ _
  | finish next count => exact Nat.le_add_right _ _
  | raise e => exact Nat.le_refl _

def Act.handler (act : Act ε ν) : Handler (Except ε ν) where
  handle c s :=
    match s.node with
    | .ok node => (act c s.position node).cursor s.position node
    | .error _ => (s, true)
  position_le c s := by
    split
    · exact Outcome.position_le_cursor _ _ _
    · exact Nat.le_refl _

abbrev EndAct (ε ν : Type) := (position : Nat) → ν → Except ε ν

/-- Where an error has been raised nothing else runs. -/
def EndAct.handler (act : EndAct ε ν) : EndHandler (Except ε ν) := fun s =>
  match s.node with
  | .ok node => ({ s with node := act s.position node }, false)
  | .error _ => (s, true)

def chainOfActs (acts : List (Act ε ν)) (ends : List (EndAct ε ν)) : Chain (Except ε ν) where
  handlers := acts.map Act.handler
  ends := ends.map EndAct.handler

end TagTemplate.Scan
