import TagTemplate.Proofs.Template.Run

/-! A construct inside another one is read as it would be by itself. What stands around it matters
only when it is complete, and then goes on with its node and behind its closing delimiter. -/
namespace TagTemplate.Template

@[simp] theorem length_toNode (inner : Construct) (n : Nat) : (inner.toNode n).length = n := by
  cases inner with
  | holder h => cases h <;> rfl
  | _ => rfl

namespace Reader

def charsAround : List (Holder × Nat) → Nat
  | [] => 0
  | (_, n) :: outer => n + 1 + charsAround outer

/-- The number of characters behind the opening delimiter of the outermost construct. -/
def State.extent (s : State) : Nat :=
  s.length + charsAround s.outer

def State.inside (s : State) (outer : List (Holder × Nat)) (delimited : Bool) : State :=
  { s with outer := s.outer ++ outer, delimited }

variable {limit : Nat} {s t : State} {c : Char} {cs : List Char} {node : Node} {holder : Holder}
  {n : Nat} {outer : List (Holder × Nat)}

theorem extent_of_step (h : step limit s c = .ok (.reading t)) :
    t.extent = s.extent + 1 ∧ t.delimited = s.delimited := by
  obtain ⟨inner, n, outer, delimited⟩ := s
  obtain ⟨m, -, happly⟩ := step_eq_ok h
  cases m with
  | take next =>
    cases happly
    exact ⟨by simp only [State.extent]; omega, rfl⟩
  | close =>
    cases outer with
    | nil => cases happly
    | cons frame outer =>
      cases happly
      exact ⟨by simp only [State.extent, charsAround, length_toNode]; omega, rfl⟩
  | enter holder next =>
    simp only [State.apply] at happly
    split at happly
    · cases happly
      exact ⟨by simp only [State.extent, charsAround]; omega, rfl⟩
    · contradiction

theorem length_of_step_closed (h : step limit s c = .ok (.closed node)) :
    node.length = s.extent + 2 := by
  obtain ⟨inner, n, outer, delimited⟩ := s
  obtain ⟨m, -, happly⟩ := step_eq_ok h
  cases m with
  | take next => cases happly
  | close =>
    cases outer with
    | nil =>
      cases happly
      rw [length_toNode]
      rfl
    | cons frame outer => cases happly
  | enter holder next =>
    simp only [State.apply] at happly
    split at happly <;> cases happly

theorem length_of_read (hd : s.delimited = true) {index : Int}
    (h : read limit s index cs = .ok node) :
    s.extent + 2 ≤ node.length ∧ node.length ≤ s.extent + 1 + cs.length := by
  induction cs generalizing s index with
  | nil => simp [read, finish?, State.enclosed, hd] at h
  | cons c rest ih =>
    simp only [read] at h
    split at h
    · cases h
    · next hs =>
      cases h
      have := length_of_step_closed hs
      simp only [List.length_cons]
      omega
    · next t hs =>
      obtain ⟨hextent, hdelimited⟩ := extent_of_step hs
      have := ih (hdelimited.trans hd) h
      simp only [List.length_cons]
      omega

theorem step_inside (hd : s.delimited = true) (delimited : Bool) (c : Char) :
    step (limit + (outer.length + 1)) (s.inside ((holder, n) :: outer) delimited) c =
      match step limit s c with
      | .error fault => .error fault
      | .ok (.reading t) => .ok (.reading (t.inside ((holder, n) :: outer) delimited))
      | .ok (.closed node) =>
        .ok (.reading ⟨.holder (holder.receive node), n + node.length, outer, delimited⟩) := by
  obtain ⟨inner, k, frames, _⟩ := s
  obtain rfl : _ = true := hd
  have henclosed :
      (State.inside ⟨inner, k, frames, true⟩ ((holder, n) :: outer) delimited).enclosed = true := by
    simp [State.enclosed, State.inside]
  simp only [step, henclosed]
  simp only [State.inside, State.enclosed, Bool.true_or]
  cases inner.move true k c with
  | error fault => rfl
  | ok m =>
    cases m with
    | take next => rfl
    | close => cases frames <;> rfl
    | enter holder' next =>
      simp only [Except.bind, State.apply, List.length_append, List.length_cons,
        Nat.add_lt_add_iff_right]
      split <;> rfl

/-- What is read inside other constructs is what is read by itself, up to the closing delimiter. -/
theorem read_inside (outer : List (Holder × Nat)) (hd : s.delimited = true) (delimited : Bool) (index : Int) (cs : List Char) :
    read (limit + (outer.length + 1)) (s.inside ((holder, n) :: outer) delimited) index cs =
      match read limit s index cs with
      | .error r => .error r
      | .ok node =>
        read (limit + (outer.length + 1))
          ⟨.holder (holder.receive node), n + node.length, outer, delimited⟩
          (index + (node.length - (s.extent + 1) : Nat)) (cs.drop (node.length - (s.extent + 1))) := by
  induction cs generalizing s index with
  | nil =>
    simp [read, finish?, State.enclosed, State.inside, hd]
  | cons c rest ih =>
    simp only [read, step_inside hd]
    cases hs : step limit s c with
    | error fault => rfl
    | ok p =>
      cases p with
      | closed node =>
        -- The closing delimiter is the only character that is left of the node.
        have hlength := length_of_step_closed hs
        have hcount : node.length - (s.extent + 1) = 1 := by omega
        simp only [hcount, List.drop_succ_cons, List.drop_zero]
        rfl
      | reading t =>
        obtain ⟨hextent, hdelimited⟩ := extent_of_step hs
        simp only
        rw [ih (hdelimited.trans hd)]
        cases hr : read limit t (index + 1) rest with
        | error r => rfl
        | ok node =>
          have hlength := length_of_read (hdelimited.trans hd) hr
          have hcount : node.length - (s.extent + 1) = (node.length - (t.extent + 1)) + 1 := by omega
          simp only [hcount, List.drop_succ_cons]
          congr 1
          omega

variable {inner next : Construct} {delimited : Bool}

theorem step_alone {m : Except Fault Move} (h : inner.move delimited n c = m) :
    step limit ⟨inner, n, [], delimited⟩ c = m.bind (State.apply limit ⟨inner, n, [], delimited⟩) := by
  rw [← h]
  simp [step, State.enclosed]

theorem read_cons_of_error {fault : Fault} (h : inner.move delimited n c = .error fault)
    (index : Int) (rest : List Char) :
    read limit ⟨inner, n, [], delimited⟩ index (c :: rest) = .error ⟨fault, index⟩ := by
  simp only [read, step_alone h, Except.bind]

theorem read_cons_of_take (h : inner.move delimited n c = .ok (.take next)) (index : Int)
    (rest : List Char) :
    read limit ⟨inner, n, [], delimited⟩ index (c :: rest) =
      read limit ⟨next, n + 1, [], delimited⟩ (index + 1) rest := by
  simp only [read, step_alone h, Except.bind, State.apply]

theorem read_cons_of_close (h : inner.move delimited n c = .ok .close) (index : Int)
    (rest : List Char) :
    read limit ⟨inner, n, [], delimited⟩ index (c :: rest) = .ok (inner.toNode (n + 2)) := by
  simp only [read, step_alone h, Except.bind, State.apply, State.close]

/-- Opening a construct is reading it by itself, with one construct less allowed inside it, and going
on behind it. -/
theorem read_cons_of_enter (h : inner.move delimited n c = .ok (.enter holder next)) (index : Int)
    (rest : List Char) :
    read (limit + 1) ⟨inner, n, [], delimited⟩ index (c :: rest) =
      match read limit (.start next true) (index + 1) rest with
      | .error r => .error r
      | .ok node =>
        read (limit + 1) ⟨.holder (holder.receive node), n + node.length, [], delimited⟩
          (index + node.length) ((c :: rest).drop node.length) := by
  have hstep : step (limit + 1) ⟨inner, n, [], delimited⟩ c =
      .ok (.reading ((State.start next true).inside [(holder, n)] delimited)) := by
    rw [step_alone h]
    simp [Except.bind, State.apply, State.start, State.inside]
  rw [read_cons_of_step hstep]
  refine (read_inside [] rfl delimited (index + 1) rest).trans ?_
  cases hr : read limit (.start next true) (index + 1) rest with
  | error r => rfl
  | ok node =>
    have hlength := length_of_read rfl hr
    simp only [State.extent, State.start, charsAround] at hlength ⊢
    obtain ⟨k, hk⟩ : ∃ k, node.length = k + 2 := ⟨node.length - 2, by omega⟩
    simp only [hk, List.drop_succ_cons, List.length_nil]
    congr 1
    omega

theorem read_cons_of_enter_zero (h : inner.move delimited n c = .ok (.enter holder next))
    (index : Int) (rest : List Char) :
    read 0 ⟨inner, n, [], delimited⟩ index (c :: rest) = .error ⟨.nestingTooDeep, index⟩ := by
  simp [read, step_alone h, Except.bind, State.apply]

end Reader
end TagTemplate.Template
