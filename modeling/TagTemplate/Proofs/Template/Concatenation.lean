import TagTemplate.Proofs.Template.Following

/-! Compiling is a homomorphism. The tree of two sources, one behind the other, is put together from
the trees of both, and a source is refused behind another one as it is by itself. -/
namespace TagTemplate.Template

namespace Node

def joined (before after : List Node) : List Node :=
  match before.getLast?, after with
  | some (text s m), text t n :: rest => before.dropLast ++ text (s ++ t) (m + n) :: rest
  | _, _ => before ++ after

@[simp] theorem joined_nil_left (after : List Node) : joined [] after = after := by
  simp [joined]

@[simp] theorem joined_singleton (node : Node) (after : List Node) :
    joined [node] after = node.attach after := by
  cases after with
  | nil => cases node <;> rfl
  | cons first rest => cases node <;> cases first <;> rfl

@[simp] theorem joined_cons_cons (first second : Node) (rest after : List Node) :
    joined (first :: second :: rest) after = first :: joined (second :: rest) after := by
  simp only [joined, List.getLast?_cons_cons, List.dropLast_cons_cons]
  split <;> rfl

theorem joined_cons_of_isText_eq_false {first : Node} (h : first.isText = false)
    (rest after : List Node) : joined (first :: rest) after = first :: joined rest after := by
  cases rest with
  | nil => rw [joined_singleton, attach_of_isText_eq_false h, joined_nil_left]
  | cons second more => rw [joined_cons_cons]

theorem attach_joined_text (s t : String) (m n : Nat) (rest after : List Node) :
    (text s m).attach (joined (text t n :: rest) after) =
      joined (text (s ++ t) (m + n) :: rest) after := by
  cases rest with
  | cons second more => simp only [joined_cons_cons, attach]
  | nil =>
    cases after with
    | nil => rfl
    | cons next more => cases next <;> simp [attach, String.append_assoc, Nat.add_assoc]

theorem attach_joined (node : Node) (before after : List Node) :
    node.attach (joined before after) = joined (node.attach before) after := by
  cases before with
  | nil => simp
  | cons first rest =>
    by_cases htexts : node.isText ∧ first.isText
    · obtain ⟨s, m, rfl⟩ := exists_text_of_isText htexts.1
      obtain ⟨t, n, rfl⟩ := exists_text_of_isText htexts.2
      exact attach_joined_text s t m n rest after
    · rw [attach_cons_of_not_texts htexts, joined_cons_cons]
      -- The first node stays first, or becomes a longer text.
      cases hnode : node.isText with
      | false => exact attach_of_isText_eq_false hnode _
      | true =>
        have hfirst : first.isText = false := by simpa [hnode] using htexts
        rw [joined_cons_of_isText_eq_false hfirst, attach_cons_of_not_texts (by simp [hfirst])]

theorem mergeTexts_append (nodes others : List Node) :
    mergeTexts (nodes ++ others) = joined (mergeTexts nodes) (mergeTexts others) := by
  induction nodes with
  | nil => simp [mergeTexts]
  | cons node rest ih => rw [List.cons_append, mergeTexts, mergeTexts, ih, attach_joined]

end Node

open Grammar

variable {limit : Nat} {s : String} {tree : Node}

theorem tree_append {d : Document} (hlone : d.loneEscape = false) (e : Document) :
    (d.append e).tree =
      .template (Node.joined (Node.mergeTexts d.nodes) (Node.mergeTexts e.nodes))
        (d.source.length + e.source.length) := by
  rw [Document.tree_eq, Document.nodes_append hlone, Document.spelling_append hlone,
    Node.mergeTexts_append, List.length_append]
  simp only [Document.source, String.length_ofList]

/-- What compiles and ends with no escape pending is the source of a document. -/
theorem exists_paired_document (h : compileWithin limit s = .ok tree) (hpaired : ¬EndsUnpaired s) :
    ∃ d : Document, d.source = s ∧ d.tree = tree ∧ d.loneEscape = false ∧
      Node.deepest d.nodes ≤ limit := by
  rw [compileWithin_eq_ok_iff, readDocument_eq_ok_iff] at h
  obtain ⟨d, hspelling, rfl, hnesting⟩ := h
  have hsource : d.source = s := by rw [Document.source, hspelling, String.ofList_toList]
  have hlone : d.loneEscape = false := by
    simpa using mt d.endsUnpaired_source_iff.mpr (hsource ▸ hpaired)
  rw [Document.nesting_tree] at hnesting
  exact ⟨d, hsource, rfl, hlone, by omega⟩

/-- Behind a source that compiles and does not end with an escape that has nothing to escape,
another one compiles exactly if it does so by itself. Its nodes then stand behind those of the first,
and two texts that meet become one. What it is refused for by itself it is refused for there, at the
same character. -/
theorem compile_append (hs : compileWithin limit s = .ok tree) (hpaired : ¬EndsUnpaired s)
    (t : String) :
    ((∃ whole, compileWithin limit (s ++ t) = .ok whole) ↔
      ∃ other, compileWithin limit t = .ok other) ∧
    (∃ children, tree = .template children s.length ∧
      ∀ other, compileWithin limit t = .ok other →
        ∃ others, other = .template others t.length ∧
          compileWithin limit (s ++ t) =
            .ok (.template (Node.joined children others) (s.length + t.length))) ∧
    ∀ e, compileWithin limit t = .error e →
      ∃ refused refused' : SyntaxError, e = .malformed refused ∧
        compileWithin limit (s ++ t) = .error (.malformed refused') ∧
        refused.Postponed s.length refused' := by
  obtain ⟨d, rfl, rfl, hlone, hdeep⟩ := exists_paired_document hs hpaired
  have hchildren : ∀ e : Document,
      e.tree = .template (Node.mergeTexts e.nodes) e.source.length := by
    intro e
    rw [Document.tree_eq, Document.source, String.length_ofList]
  rcases compileWithin_source_append d hlone hdeep t with
    ⟨e, rfl, ht, hwhole⟩ | ⟨refused, refused', ht, hwhole, hpostponed⟩
  · rw [ht, hwhole, tree_append hlone]
    refine ⟨by simp, ⟨_, hchildren d, ?_⟩, ?_⟩
    · rintro _ ⟨⟩
      exact ⟨_, hchildren e, rfl⟩
    · rintro _ ⟨⟩
  · rw [ht, hwhole]
    refine ⟨by simp, ⟨_, hchildren d, ?_⟩, ?_⟩
    · rintro _ ⟨⟩
    · rintro _ ⟨⟩
      exact ⟨refused, refused', rfl, rfl, hpostponed⟩

/-- The escapes at the end of the first source are a pair, and its last text goes on in the
second. -/
theorem text_goes_on_in_next_source :
    ¬EndsUnpaired "\x7bgreet\x7da\\\\" ∧
      compileWithin nestingLimit ("\x7bgreet\x7da\\\\" ++ "b\x7bgreet\x7d") =
        .ok (.template [.tag "greet" [] 7, .text "a\\b" 4, .tag "greet" [] 7] 18) := by
  have hpaired : ¬EndsUnpaired "\x7bgreet\x7da\\\\" := by
    unfold EndsUnpaired
    decide
  have hfirst : compileWithin nestingLimit "\x7bgreet\x7da\\\\" =
      .ok (.template [.tag "greet" [] 7, .text "a\\" 3] 10) := rfl
  have hsecond : compileWithin nestingLimit "b\x7bgreet\x7d" =
      .ok (.template [.text "b" 1, .tag "greet" [] 7] 8) := rfl
  obtain ⟨-, ⟨children, hchildren, hjoined⟩, -⟩ := compile_append hfirst hpaired "b\x7bgreet\x7d"
  obtain ⟨others, hothers, hwhole⟩ := hjoined _ hsecond
  cases hchildren
  cases hothers
  exact ⟨hpaired, hwhole⟩

end TagTemplate.Template
