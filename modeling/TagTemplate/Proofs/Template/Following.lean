import TagTemplate.Proofs.Template.Joining

/-! A source behind others. What stands in front of it is among the children of the document and
nowhere else, and what is read next looks at no child of the document, so that a source is read, or
refused, as it is by itself. -/
namespace TagTemplate
namespace Template
namespace Reader
open Grammar

inductive AlikeInside : State → State → Prop
  | document (escaped : Bool) (children children' : List Node) (n n' : Nat) :
    AlikeInside ⟨.holder (.template children escaped), n, [], false⟩
      ⟨.holder (.template children' escaped), n', [], false⟩
  | inside (inner : Construct) (n : Nat) (frames : List (Holder × Nat)) (escaped : Bool)
      (children children' : List Node) (m m' : Nat) :
    AlikeInside ⟨inner, n, frames ++ [(.template children escaped, m)], false⟩
      ⟨inner, n, frames ++ [(.template children' escaped, m')], false⟩

def StepAlike (limit : Nat) (c : Char) (s s' : State) : Prop :=
  (∃ fault, step limit s c = .error fault ∧ step limit s' c = .error fault) ∨
    ∃ t t', step limit s c = .ok (.reading t) ∧ step limit s' c = .ok (.reading t') ∧
      AlikeInside t t'

variable {limit : Nat} {s s' t : State} {cs : List Char}

theorem stepAlike_document (limit : Nat) (c : Char) (escaped : Bool) (children children' : List Node)
    (n n' : Nat) :
    StepAlike limit c ⟨.holder (.template children escaped), n, [], false⟩
      ⟨.holder (.template children' escaped), n', [], false⟩ := by
  have hmove : ∀ children n, step limit ⟨.holder (.template children escaped), n, [], false⟩ c =
      State.apply limit ⟨.holder (.template children escaped), n, [], false⟩
        (moveTemplate false children escaped c) := fun _ _ => rfl
  unfold StepAlike
  simp only [hmove, moveTemplate]
  by_cases hescape : c = escapeMark ∧ !escaped
  · simp only [if_pos hescape]
    exact .inr ⟨_, _, rfl, rfl, .document true children children' (n + 1) (n' + 1)⟩
  by_cases htag : c = tagOpen ∧ !escaped
  · simp only [if_neg hescape, if_pos htag, State.apply]
    split
    · exact .inr ⟨_, _, rfl, rfl, .inside .emptyTag 0 [] false children children' n n'⟩
    · exact .inl ⟨_, rfl, rfl⟩
  by_cases htemplate : c = templateMark ∧ !escaped
  · simp only [if_neg hescape, if_neg htag, if_pos htemplate, Bool.false_eq_true, if_false,
      State.apply]
    split
    · exact .inr ⟨_, _, rfl, rfl, .inside .emptyTemplate 0 [] false children children' n n'⟩
    · exact .inl ⟨_, rfl, rfl⟩
  · simp only [if_neg hescape, if_neg htag, if_neg htemplate]
    exact .inr ⟨_, _, rfl, rfl, .document false _ _ (n + 1) (n' + 1)⟩

theorem stepAlike_inside (limit : Nat) (c : Char) (inner : Construct) (n : Nat)
    (frames : List (Holder × Nat)) (escaped : Bool) (children children' : List Node) (m m' : Nat) :
    StepAlike limit c ⟨inner, n, frames ++ [(.template children escaped, m)], false⟩
      ⟨inner, n, frames ++ [(.template children' escaped, m')], false⟩ := by
  have hmove : ∀ children m,
      step limit ⟨inner, n, frames ++ [(.template children escaped, m)], false⟩ c =
        (inner.move true n c).bind
          (State.apply limit ⟨inner, n, frames ++ [(.template children escaped, m)], false⟩) := by
    intro children m
    cases frames <;> rfl
  unfold StepAlike
  simp only [hmove]
  cases inner.move true n c with
  | error fault => exact .inl ⟨fault, rfl, rfl⟩
  | ok move =>
    simp only [Except.bind]
    cases move with
    | take next => exact .inr ⟨_, _, rfl, rfl, .inside next _ frames _ _ _ _ _⟩
    | close =>
      cases frames with
      | nil => exact .inr ⟨_, _, rfl, rfl, .document escaped _ _ _ _⟩
      | cons frame outer => exact .inr ⟨_, _, rfl, rfl, .inside _ _ outer _ _ _ _ _⟩
    | enter holder next =>
      simp only [State.apply, List.length_append, List.length_singleton]
      split
      · exact .inr ⟨_, _, rfl, rfl, .inside next 0 ((holder, n) :: frames) _ _ _ _ _⟩
      · exact .inl ⟨_, rfl, rfl⟩

theorem AlikeInside.step (h : AlikeInside s s') (limit : Nat) (c : Char) :
    StepAlike limit c s s' := by
  cases h with
  | document escaped children children' n n' => exact stepAlike_document limit c escaped _ _ n n'
  | inside inner n frames escaped children children' m m' =>
    exact stepAlike_inside limit c inner n frames escaped _ _ m m'

theorem AlikeInside.finish?_eq_none (h : AlikeInside s s') (hs : finish? s = none) :
    finish? s' = none := by
  cases h with
  | document escaped children children' n n' => cases escaped <;> cases hs
  | inside inner n frames escaped children children' m m' => simp [finish?, State.enclosed]

theorem AlikeInside.read_eq_error (h : AlikeInside s s') {index : Int} {r : Refusal}
    (hr : read limit s index cs = .error r) (shift : Int) :
    read limit s' (shift + index) cs = .error { r with index := shift + r.index } := by
  induction cs generalizing s s' index with
  | nil =>
    simp only [read] at hr
    split at hr
    · cases hr
    · next hf =>
      cases hr
      simp only [read, h.finish?_eq_none hf, Int.add_sub_assoc]
  | cons c rest ih =>
    rcases h.step limit c with ⟨fault, hs, hs'⟩ | ⟨t, t', hs, hs', halike⟩
    · simp only [read, hs] at hr
      cases hr
      simp only [read, hs']
    · simp only [read, hs] at hr
      simp only [read, hs', Int.add_assoc]
      exact ih halike hr

end Reader

open Grammar Reader

variable {limit : Nat} {cs : List Char}

theorem readDocument_append_eq_error {d : Document} (hlone : d.loneEscape = false)
    (hdeep : Node.deepest d.nodes ≤ limit) {r : Refusal} (h : readDocument limit cs = .error r) :
    readDocument limit (d.spelling ++ cs) =
      .error { r with index := d.spelling.length + r.index } := by
  have hsections := (leads_sections d.sections [] (by
    simpa [Document.nodes, hlone, loneEscapeNodes] using hdeep)).run?_zero
  have hspelling : d.sections.flatMap Section.spelling = d.spelling := by
    simp [Document.spelling, hlone, escapeIf]
  rw [limit_documentContext, hspelling] at hsections
  have hstart : State.start .emptyTemplate false =
      (documentContext limit).state (.holder (.template (Node.mergeTexts []) false)) 0 := rfl
  have halike : AlikeInside (.start .emptyTemplate false) ((documentContext limit).state
      (.holder (.template (Node.mergeTexts ([] ++ d.sections.map Section.node)) false))
      d.spelling.length) := .document false _ _ _ _
  rw [readDocument, hstart, read_append_of_run? hsections, Int.add_comm]
  exact halike.read_eq_error h d.spelling.length

theorem readDocument_append_spelling {d e : Document} (hlone : d.loneEscape = false)
    (hdeep : Node.deepest d.nodes ≤ limit) (h : e.tree.nesting ≤ limit + 1) :
    readDocument limit (d.spelling ++ e.spelling) = .ok (d.append e).tree := by
  have hnesting : (d.append e).tree.nesting ≤ limit + 1 := by
    rw [Document.nesting_tree] at h ⊢
    rw [Document.nodes_append hlone, Node.deepest_append]
    omega
  rw [← Document.spelling_append hlone]
  exact readDocument_spelling limit (d.append e) hnesting

/-- The errors are alike, the second `shift` characters further on. Nesting that goes too deep is
told of no character. -/
def SyntaxError.Postponed (shift : Nat) (e e' : SyntaxError) : Prop :=
  e'.fault = e.fault ∧ e'.message = e.message ∧
    e'.index = if e.fault = .nestingTooDeep then e.index else shift + e.index

/-- What a source compiles to behind a document: its children stand behind the others, and what it
is refused for is told of the same character. -/
theorem compileWithin_source_append (d : Document) (hlone : d.loneEscape = false)
    (hdeep : Node.deepest d.nodes ≤ limit) (source : String) :
    (∃ e : Document, e.source = source ∧ compileWithin limit source = .ok e.tree ∧
      compileWithin limit (d.source ++ source) = .ok (d.append e).tree) ∨
    ∃ e e' : SyntaxError, compileWithin limit source = .error (.malformed e) ∧
      compileWithin limit (d.source ++ source) = .error (.malformed e') ∧
      SyntaxError.Postponed d.source.length e e' := by
  have hsource : (d.source ++ source).toList = d.spelling ++ source.toList := by
    rw [String.toList_append, Document.source, String.toList_ofList]
  rcases hread : readDocument limit source.toList with r | t
  · right
    have hbehind := readDocument_append_eq_error hlone hdeep hread
    rw [← hsource] at hbehind
    obtain ⟨e, he, hfault, hmessage, -, hindex⟩ := compileWithin_of_refusal hread
    obtain ⟨e', he', hfault', hmessage', -, hindex'⟩ := compileWithin_of_refusal hbehind
    refine ⟨e, e', he, he', hfault'.trans hfault.symm, hmessage'.trans hmessage.symm, ?_⟩
    have hlength : d.source.length = d.spelling.length := by
      rw [Document.source, String.length_ofList]
    simp only [Refusal.reported, ← hfault] at hindex hindex'
    split at hindex
    · next hdeepest => rw [if_pos hdeepest] at hindex' ⊢; omega
    · next hdeepest => rw [if_neg hdeepest] at hindex' ⊢; omega
  · left
    obtain ⟨e, hspelling, rfl, hnesting⟩ := readDocument_eq_ok_iff.mp hread
    refine ⟨e, ?_, compileWithin_eq_ok_iff.mpr hread, ?_⟩
    · rw [Document.source, hspelling, String.ofList_toList]
    · rw [compileWithin_eq_ok_iff, hsource, ← hspelling]
      exact readDocument_append_spelling hlone hdeep hnesting

theorem compile_source_append (d : Document) (hlone : d.loneEscape = false)
    (hdeep : Node.deepest d.nodes ≤ nestingLimit) (source : String) :
    (∃ e : Document, compile source = .ok e.tree ∧
      compile (d.source ++ source) = .ok (d.append e).tree) ∨
    ∃ e e' : SyntaxError, compile source = .error (.malformed e) ∧
      compile (d.source ++ source) = .error (.malformed e') ∧
      SyntaxError.Postponed d.source.length e e' :=
  (compileWithin_source_append d hlone hdeep source).imp_left fun ⟨e, _, he⟩ => ⟨e, he⟩

end Template
end TagTemplate
