import TagTemplate.Template.Compile

/-! Runs of the reader over a part of a text. A run that ends in a state lets the rest of the text be
read from there. A limit on nesting only cuts runs short. -/
namespace TagTemplate.Template

@[simp] theorem mapError_ok {ε δ α : Type} (f : ε → δ) (a : α) :
    (Except.ok a : Except ε α).mapError f = .ok a := rfl

@[simp] theorem mapError_error {ε δ α : Type} (f : ε → δ) (e : ε) :
    (Except.error e : Except ε α).mapError f = .error (f e) := rfl

namespace Reader

def run? (limit : Nat) : State → List Char → Option State
  | s, [] => some s
  | s, c :: rest =>
    match step limit s c with
    | .ok (.reading t) => run? limit t rest
    | _ => none

variable {limit : Nat} {s t : State} {c : Char} {p q : List Char}

theorem step_of_move {m : Move} (h : s.inner.move s.enclosed s.length c = .ok m) :
    step limit s c = s.apply limit m := by
  simp only [step, h, Except.bind]

theorem step_eq_ok {p : Progress} (h : step limit s c = .ok p) :
    ∃ m, s.inner.move s.enclosed s.length c = .ok m ∧ s.apply limit m = .ok p := by
  unfold step at h
  cases hm : s.inner.move s.enclosed s.length c with
  | error f => rw [hm] at h; cases h
  | ok m => rw [hm] at h; exact ⟨m, rfl, h⟩

theorem run?_cons_of_step (h : step limit s c = .ok (.reading t)) (q : List Char) :
    run? limit s (c :: q) = run? limit t q := by
  simp only [run?, h]

theorem read_cons_of_step (h : step limit s c = .ok (.reading t)) (index : Int) (q : List Char) :
    read limit s index (c :: q) = read limit t (index + 1) q := by
  simp only [read, h]

theorem read_nil_of_finish? {node : Node} (h : finish? s = some node) (limit : Nat) (index : Int) :
    read limit s index [] = .ok node := by
  simp only [read, h]

theorem run?_append (limit : Nat) (s : State) (p q : List Char) :
    run? limit s (p ++ q) = (run? limit s p).bind (run? limit · q) := by
  induction p generalizing s with
  | nil => rfl
  | cons c rest ih =>
    simp only [List.cons_append, run?]
    split
    · exact ih _
    · rfl

theorem run?_append_of_run? (h : run? limit s p = some t) (q : List Char) :
    run? limit s (p ++ q) = run? limit t q := by
  rw [run?_append, h, Option.bind_some]

/-- What is read behind a run does not depend on how the run came there. -/
theorem read_append_of_run? (h : run? limit s p = some t) (index : Int) (q : List Char) :
    read limit s index (p ++ q) = read limit t (index + p.length) q := by
  induction p generalizing s index with
  | nil =>
    obtain rfl : s = t := Option.some.inj h
    simp
  | cons c rest ih =>
    simp only [run?] at h
    split at h
    · next u hu =>
      simp only [List.cons_append, read, hu, ih h]
      congr 1
      simp only [List.length_cons]
      omega
    · contradiction

/-- A text is refused at its end, because something is open there, or at a character that the state
in front of it does not take. -/
theorem read_eq_error {index : Int} {r : Refusal} (h : read limit s index q = .error r) :
    (∃ t, run? limit s q = some t ∧ finish? t = none ∧
      r = ⟨.unexpectedEnd, index + q.length - 1⟩) ∨
    ∃ p c rest t, q = p ++ c :: rest ∧ run? limit s p = some t ∧
      step limit t c = .error r.fault ∧ r.index = index + p.length := by
  induction q generalizing s index with
  | nil =>
    simp only [read] at h
    split at h
    · cases h
    · next hf =>
      cases h
      exact .inl ⟨s, rfl, hf, by simp⟩
  | cons c rest ih =>
    simp only [read] at h
    split at h
    · next fault hs =>
      cases h
      exact .inr ⟨[], c, rest, s, rfl, rfl, hs, by simp⟩
    · cases h
    · next t hs =>
      rcases ih h with ⟨u, hu, hf, rfl⟩ | ⟨p, d, rest', u, rfl, hu, hd, hi⟩
      · refine .inl ⟨u, by rw [run?_cons_of_step hs, hu], hf, ?_⟩
        simp only [List.length_cons, Refusal.mk.injEq, true_and]
        omega
      · refine .inr ⟨c :: p, d, rest', u, rfl, by rw [run?_cons_of_step hs, hu], hd, ?_⟩
        simp only [List.length_cons]
        omega

theorem read_append_of_step_eq_error (hp : run? limit s p = some t) {fault : Fault}
    (h : step limit t c = .error fault) (index : Int) (q : List Char) :
    read limit s index (p ++ c :: q) = .error ⟨fault, index + p.length⟩ := by
  rw [read_append_of_run? hp]
  simp only [read, h]

end Reader
end TagTemplate.Template
