import TagTemplate.Proofs.Template.Behind
import TagTemplate.Proofs.Template.Nesting
import TagTemplate.Proofs.Template.Refusals

/-! Compiling decides the grammar. A source has a tree where it is derived and does not nest too deep,
and the tree is the one that every derivation of it gives. -/
namespace TagTemplate.Template
open Grammar Reader

variable {limit : Nat} {cs : List Char} {t : Node}

theorem exists_document_of_readDocument (h : readDocument limit cs = .ok t) :
    t.nesting ≤ limit + 1 ∧ ∃ d : Document, d.spelling = cs ∧ d.tree = t :=
  ⟨(within_start rfl limit false).of_read h, behind_start.of_read h⟩

theorem readDocument_spelling (limit : Nat) (d : Document) (h : d.tree.nesting ≤ limit + 1) :
    readDocument limit d.spelling = .ok d.tree :=
  read_document d h 0

theorem tree_eq_of_spelling_eq {d e : Document} (h : d.spelling = e.spelling) : d.tree = e.tree := by
  have hd := readDocument_spelling (max d.tree.nesting e.tree.nesting) d (by omega)
  have he := readDocument_spelling (max d.tree.nesting e.tree.nesting) e (by omega)
  rw [h] at hd
  exact Except.ok.inj (hd.symm.trans he)

theorem readDocument_eq_ok_iff :
    readDocument limit cs = .ok t ↔
      ∃ d : Document, d.spelling = cs ∧ d.tree = t ∧ t.nesting ≤ limit + 1 := by
  constructor
  · intro h
    obtain ⟨hnesting, d, hspelling, htree⟩ := exists_document_of_readDocument h
    exact ⟨d, hspelling, htree, hnesting⟩
  · rintro ⟨d, rfl, rfl, hnesting⟩
    exact readDocument_spelling limit d hnesting

theorem readDocument_too_deep (d : Document) (h : limit + 1 < d.tree.nesting) :
    ∃ j, readDocument limit d.spelling = .error ⟨.nestingTooDeep, j⟩ := by
  have hle : limit ≤ d.tree.nesting := by omega
  rcases read_eq_or_too_deep hle (.start .emptyTemplate false) 0 d.spelling with heq | hdeep
  · have hread := readDocument_spelling d.tree.nesting d (Nat.le_succ _)
    have hnesting := (exists_document_of_readDocument (heq.trans hread)).1
    omega
  · exact hdeep

theorem compile_eq_ok_iff {source : String} {t : Node} :
    compile source = .ok t ↔
      ∃ d : Document, d.spelling = source.toList ∧ d.tree = t ∧ t.nesting ≤ nestingLimit + 1 := by
  rw [compile, compileWithin_eq_ok_iff, readDocument_eq_ok_iff]

/-- A source compiles exactly if the grammar derives it within the limit, and then to the tree of its
derivations, which all agree. A source that is derived but nests too deep is told of just that, at
its first character. -/
theorem compile_decides_grammar (source : String) :
    (∀ t, compile source = .ok t ↔
      ∃ d : Document, d.spelling = source.toList ∧ d.tree = t ∧ t.nesting ≤ nestingLimit + 1) ∧
    (∀ d e : Document, d.spelling = source.toList → e.spelling = source.toList →
      d.tree = e.tree) ∧
    (∀ d : Document, d.spelling = source.toList → nestingLimit + 1 < d.tree.nesting →
      ∃ e : SyntaxError, compile source = .error (.malformed e) ∧ e.fault = .nestingTooDeep ∧
        e.index = 0) := by
  refine ⟨fun t => compile_eq_ok_iff, ?_, ?_⟩
  · intro d e hd he
    exact tree_eq_of_spelling_eq (hd.trans he.symm)
  · intro d hd hdeep
    obtain ⟨j, hj⟩ := readDocument_too_deep d hdeep
    rw [hd] at hj
    obtain ⟨e, he, hfault, -, -, hindex⟩ := compileWithin_of_refusal hj
    refine ⟨e, he, hfault, ?_⟩
    simpa [Refusal.reported] using hindex

end TagTemplate.Template
