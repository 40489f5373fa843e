import TagTemplate.Scan.Chain
import TagTemplate.Template.Node

/-! Handlers given by rules: on which characters they act, what text they add and how far they move.
The node they build carries a record of every call. -/
namespace TagTemplate.Scan
open Template

inductive Call where
  | skipped (handler : Nat) (char : Char)
  | used (handler : Nat) (char : Char) (kind : String)
  | ended (handler : Nat) (position : Nat)
  deriving DecidableEq, Repr

structure Draft where
  node : Node
  calls : List Call

namespace Draft

def content (d : Draft) : String :=
  match d.node with
  | .text content _ | .quoted _ content _ | .comment content _ => content
  | _ => ""

def append (d : Draft) (more : String) : Draft :=
  match d.node with
  | .text content n => { d with node := .text (content ++ more) n }
  | .quoted quote content n => { d with node := .quoted quote (content ++ more) n }
  | _ => d

def replace (d : Draft) : Draft :=
  { d with node := .quoted .single d.content 0 }

def record (d : Draft) (call : Call) : Draft :=
  { d with calls := d.calls ++ [call] }

end Draft

/-- A rule for characters. Without a list of characters it acts on all of them, and without a place
everywhere; without a text it adds the character itself. -/
structure Rule where
  chars : Option (List Char)
  place : Option Nat
  replaces : Bool
  text : Option String
  advance : Nat
  finishes : Bool
  claims : Bool

def Rule.applies (r : Rule) (c : Char) (position : Nat) : Bool :=
  r.chars.all (·.contains c) && r.place.all (· == position)

def Rule.act (r : Rule) (number : Nat) (c : Char) (s : Cursor Draft) : Cursor Draft × Bool :=
  if r.applies c s.position then
    let draft := s.node.record (.used number c s.node.node.kind)
    let draft :=
      if r.replaces then draft.replace else draft.append (r.text.getD (String.singleton c))
    (⟨s.position + r.advance, s.finished || r.finishes, draft⟩, r.claims)
  else ({ s with node := s.node.record (.skipped number c) }, false)

def Rule.handler (number : Nat) (r : Rule) : Handler Draft where
  handle := r.act number
  position_le c s := by
    unfold Rule.act
    split
    · exact Nat.le_add_right _ _
    · exact Nat.le_refl _

structure EndRule where
  text : String
  claims : Bool

def EndRule.handler (number : Nat) (r : EndRule) : EndHandler Draft := fun s =>
  ({ s with node := (s.node.record (.ended number s.position)).append r.text }, r.claims)

/-- The chain that rules describe; they are numbered in their order. -/
def chainOfRules (rules : List Rule) (ends : List EndRule) : Chain Draft where
  handlers := rules.mapIdx Rule.handler
  ends := ends.mapIdx EndRule.handler

def Draft.empty : Draft := ⟨.text "" 0, []⟩

end TagTemplate.Scan
