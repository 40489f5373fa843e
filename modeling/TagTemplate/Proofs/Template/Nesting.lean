import TagTemplate.Proofs.Template.Moves
import TagTemplate.Proofs.Template.Run

/-! Nesting and its limit. What is read within a limit nests no deeper, and another limit changes
nothing except where the first one is reached. -/
namespace TagTemplate.Template

def Construct.depth : Construct → Nat
  | .holder (.template children _) => Node.deepest children
  | .holder (.tag _ arguments _) => Node.deepest arguments
  | .holder (.declaration _ (some value) _) => value.nesting
  | _ => 0

theorem nesting_toNode (inner : Construct) (n : Nat) :
    (inner.toNode n).nesting = inner.depth + 1 := by
  cases inner with
  | quoted quote content escaped => rfl
  | comment content => rfl
  | holder h =>
    cases h with
    | template children escaped => rfl
    | tag name arguments turn => rfl
    | declaration name value turn => cases value <;> rfl

theorem depth_receive (holder : Holder) (node : Node) :
    (Construct.holder (holder.receive node)).depth ≤
      max (Construct.holder holder).depth node.nesting := by
  cases holder with
  | template children escaped => simp [Holder.receive, Construct.depth, Node.deepest]
  | tag name arguments turn => simp [Holder.receive, Construct.depth, Node.deepest]
  | declaration name value turn => exact Nat.le_max_right _ _

variable {enclosed : Bool} {n : Nat} {c : Char} {inner next : Construct} {holder : Holder}

theorem depth_take (h : inner.move enclosed n c = .ok (.take next)) : next.depth ≤ inner.depth := by
  cases inner with
  | quoted quote content escaped =>
    have hm := Except.ok.inj h
    unfold moveQuoted at hm
    split at hm
    · cases hm; exact Nat.le_refl 0
    · split at hm <;> cases hm
      exact Nat.le_refl 0
  | comment content =>
    have hm := Except.ok.inj h
    unfold moveComment at hm
    split at hm <;> cases hm
    exact Nat.le_refl 0
  | holder holder =>
    cases holder with
    | template children escaped =>
      rcases moveTemplate_eq_take (Except.ok.inj h) with ⟨-, -, rfl⟩ | ⟨l, -, rfl⟩
      · exact Nat.le_refl _
      · simp [Construct.depth]
    | tag name arguments turn =>
      rcases Nat.eq_zero_or_pos turn with rfl | hturn
      · rcases moveTag_zero_eq_take h with ⟨-, -, rfl⟩ | ⟨-, -, rfl⟩ | ⟨-, rfl⟩ | ⟨-, rfl⟩ <;>
          simp [Construct.depth]
      · rcases moveTag_pos_eq_take hturn h with ⟨-, -, rfl⟩ | ⟨-, -, rfl⟩ | ⟨-, later, -, rfl⟩ <;>
          simp [Construct.depth]
    | declaration name value turn =>
      obtain ⟨-, rfl⟩ := moveDeclaration_eq_take h
      cases value <;> exact Nat.le_refl _

theorem depth_opening? (h : Construct.opening? c = some next) : next.depth = 0 := by
  unfold Construct.opening? at h
  repeat' split at h
  all_goals cases h
  all_goals rfl

theorem depth_enter (h : inner.move enclosed n c = .ok (.enter holder next)) :
    next.depth = 0 ∧ (Construct.holder holder).depth = inner.depth := by
  cases inner with
  | quoted quote content escaped => exact absurd (Except.ok.inj h) moveQuoted_ne_enter
  | comment content => exact absurd (Except.ok.inj h) moveComment_ne_enter
  | holder h' =>
    cases h' with
    | template children escaped =>
      obtain ⟨-, rfl, ⟨-, rfl⟩ | ⟨-, -, rfl⟩⟩ := moveTemplate_eq_enter (Except.ok.inj h)
      · exact ⟨rfl, rfl⟩
      · exact ⟨rfl, rfl⟩
    | tag name arguments turn =>
      obtain ⟨-, hopen, rfl⟩ := moveTag_eq_enter h
      exact ⟨depth_opening? hopen, rfl⟩
    | declaration name value turn =>
      obtain ⟨-, hopen, rfl⟩ := moveDeclaration_eq_enter h
      exact ⟨depth_opening? hopen, rfl⟩

namespace Reader

def HoldersWithin (limit : Nat) : List (Holder × Nat) → Prop
  | [] => True
  | (holder, _) :: outer =>
    (Construct.holder holder).depth + outer.length ≤ limit ∧ HoldersWithin limit outer

/-- Nothing that the state holds nests deeper than the limit allows at its place. -/
def Within (limit : Nat) (s : State) : Prop :=
  s.outer.length ≤ limit ∧ s.inner.depth + s.outer.length ≤ limit ∧ HoldersWithin limit s.outer

variable {limit : Nat} {s t : State} {node : Node} {cs : List Char}

theorem within_start {inner : Construct} (h : inner.depth = 0) (limit : Nat) (delimited : Bool) :
    Within limit (.start inner delimited) :=
  ⟨Nat.zero_le _, by simp [State.start, h], trivial⟩

theorem Within.of_step (h : Within limit s) (hs : step limit s c = .ok (.reading t)) :
    Within limit t := by
  obtain ⟨hlength, hdepth, houter⟩ := h
  obtain ⟨m, hm, happly⟩ := step_eq_ok hs
  cases m with
  | take next =>
    cases happly
    have := depth_take hm
    exact ⟨hlength, by simp only; omega, houter⟩
  | close =>
    obtain ⟨inner, n, outer, delimited⟩ := s
    cases outer with
    | nil => cases happly
    | cons frame outer =>
      obtain ⟨holder, n'⟩ := frame
      cases happly
      have hreceive := depth_receive holder (inner.toNode (n + 2))
      rw [nesting_toNode] at hreceive
      simp only [List.length_cons, HoldersWithin] at hlength hdepth houter
      exact ⟨by simp only; omega, by simp only; omega, houter.2⟩
  | enter holder next =>
    obtain ⟨hnext, hholder⟩ := depth_enter hm
    simp only [State.apply] at happly
    split at happly
    · next hroom =>
      cases happly
      refine ⟨hroom, ?_, ?_, houter⟩
      · simp only [List.length_cons]; omega
      · rwa [hholder]
    · contradiction

theorem Within.of_finish? (h : Within limit s) (hf : finish? s = some node) :
    node.nesting ≤ limit + 1 := by
  obtain ⟨-, hdepth, -⟩ := h
  unfold finish? at hf
  split at hf
  · contradiction
  split at hf
  · contradiction
  · next children hinner =>
    cases hf
    rw [hinner] at hdepth
    simp only [Construct.depth] at hdepth
    simp only [Node.nesting, Node.deepest_appendText]
    omega
  · cases hf
    rw [nesting_toNode]
    omega

theorem Within.of_step_closed (h : Within limit s) (hs : step limit s c = .ok (.closed node)) :
    node.nesting ≤ limit + 1 := by
  obtain ⟨-, hdepth, -⟩ := h
  obtain ⟨m, hm, happly⟩ := step_eq_ok hs
  cases m with
  | take next => cases happly
  | close =>
    obtain ⟨inner, n, outer, delimited⟩ := s
    cases outer with
    | nil =>
      cases happly
      rw [nesting_toNode]
      exact Nat.succ_le_succ hdepth
    | cons frame outer => cases happly
  | enter holder next =>
    simp only [State.apply] at happly
    split at happly <;> cases happly

theorem Within.of_read (h : Within limit s) {index : Int} (hr : read limit s index cs = .ok node) :
    node.nesting ≤ limit + 1 := by
  induction cs generalizing s index with
  | nil =>
    simp only [read] at hr
    split at hr
    · next hf => cases hr; exact h.of_finish? hf
    · cases hr
  | cons c rest ih =>
    simp only [read] at hr
    split at hr
    · cases hr
    · next hs => cases hr; exact h.of_step_closed hs
    · next t hs => exact ih (h.of_step hs) hr

variable {limit' : Nat}

theorem step_eq_or_too_deep (h : limit ≤ limit') (s : State) (c : Char) :
    step limit s c = step limit' s c ∨ step limit s c = .error .nestingTooDeep := by
  unfold step
  cases hm : s.inner.move s.enclosed s.length c with
  | error f => exact .inl rfl
  | ok m =>
    cases m with
    | take next => exact .inl rfl
    | close => exact .inl rfl
    | enter holder next =>
      by_cases hroom : s.outer.length < limit
      · left
        simp [Except.bind, State.apply, hroom, Nat.lt_of_lt_of_le hroom h]
      · right
        simp [Except.bind, State.apply, hroom]

/-- A larger limit changes nothing where the smaller one is not exceeded. -/
theorem read_eq_or_too_deep (h : limit ≤ limit') (s : State) (index : Int) (cs : List Char) :
    read limit s index cs = read limit' s index cs ∨
      ∃ j, read limit s index cs = .error ⟨.nestingTooDeep, j⟩ := by
  induction cs generalizing s index with
  | nil => exact .inl rfl
  | cons c rest ih =>
    rcases step_eq_or_too_deep h s c with hs | hs
    · simp only [read, hs]
      split
      · exact .inl rfl
      · exact .inl rfl
      · exact ih _ _
    · right
      exact ⟨index, by simp only [read, hs]⟩

end Reader
end TagTemplate.Template
