import TagTemplate.Proofs.Template.Documents

/-! Sources one behind another. What compiles gives the same nodes when more follows, unless it ends
with an escape that would then have something to escape. -/
namespace TagTemplate
namespace Template
open Grammar

def escapeRun (cs : List Char) : Nat :=
  (cs.reverse.takeWhile (· == escapeMark)).length

/-- Of the escapes at the end, taken in pairs, one is left over. -/
def EndsUnpaired (source : String) : Prop :=
  escapeRun source.toList % 2 = 1

theorem escapeRun_append_escapeMark (cs : List Char) :
    escapeRun (cs ++ [escapeMark]) = escapeRun cs + 1 := by
  simp [escapeRun]

theorem escapeRun_append_of_ne {c : Char} (h : c ≠ escapeMark) (cs : List Char) :
    escapeRun (cs ++ [c]) = 0 := by
  simp [escapeRun, h]

theorem closing_ne_escapeMark (v : Value) : v.closing ≠ escapeMark := by
  cases v with
  | quoted quote letters => cases quote <;> simp [Value.closing, Quote.mark, escapeMark]
  | _ => simp [Value.closing, tagClose, templateMark, escapeMark]

theorem escapeRun_append_value (cs : List Char) (v : Value) :
    escapeRun (cs ++ v.spelling) = 0 := by
  have hlast : cs ++ v.spelling = cs ++ v.opening :: v.body ++ [v.closing] := by
    simp [Value.spelling, Value.wrap]
  rw [hlast]
  exact escapeRun_append_of_ne (closing_ne_escapeMark v) _

theorem escapeRun_append_section {cs : List Char} (h : escapeRun cs % 2 = 0) (sec : Section) :
    escapeRun (cs ++ sec.spelling) % 2 = 0 := by
  cases sec with
  | template items =>
    rw [Section.spelling, escapeRun_append_value]
  | item i =>
    cases i with
    | tag t => rw [Section.spelling, Item.spelling, escapeRun_append_value]
    | letter l =>
      cases l with
      | plain c ordinary =>
        have hc : c ≠ escapeMark := fun hc => ordinary (by simp [hc, templateDelimiters])
        exact congrArg (· % 2) (escapeRun_append_of_ne hc cs)
      | pair c =>
        have hlast : cs ++ [escapeMark, c] = cs ++ [escapeMark] ++ [c] := by simp
        simp only [Section.spelling, Item.spelling, Letter.spelling]
        rw [hlast]
        by_cases hc : c = escapeMark
        · rw [hc, escapeRun_append_escapeMark, escapeRun_append_escapeMark]
          omega
        · rw [escapeRun_append_of_ne hc]

theorem escapeRun_append_sections (sections : List Section) {cs : List Char}
    (h : escapeRun cs % 2 = 0) :
    escapeRun (cs ++ sections.flatMap Section.spelling) % 2 = 0 := by
  induction sections generalizing cs with
  | nil => simpa using h
  | cons sec rest ih =>
    rw [List.flatMap_cons, ← List.append_assoc]
    exact ih (escapeRun_append_section h sec)

end Template

namespace Grammar
open Template

namespace Document

def source (d : Document) : String :=
  String.ofList d.spelling

def nodes (d : Document) : List Node :=
  d.sections.map Section.node ++ loneEscapeNodes d.loneEscape

def append (d e : Document) : Document :=
  ⟨d.sections ++ e.sections, e.loneEscape⟩

variable {d e : Document}

theorem endsUnpaired_source_iff (d : Document) : EndsUnpaired d.source ↔ d.loneEscape = true := by
  have hempty : escapeRun [] % 2 = 0 := rfl
  have heven : escapeRun (d.sections.flatMap Section.spelling) % 2 = 0 :=
    escapeRun_append_sections d.sections hempty
  rw [EndsUnpaired, source, String.toList_ofList, spelling]
  cases d.loneEscape with
  | false => simp [escapeIf, heven]
  | true =>
    simp only [escapeIf, if_true, escapeRun_append_escapeMark, iff_true]
    omega

theorem tree_eq (d : Document) : d.tree = .template (Node.mergeTexts d.nodes) d.spelling.length :=
  rfl

theorem nesting_tree (d : Document) : d.tree.nesting = Node.deepest d.nodes + 1 := by
  rw [tree_eq, Node.nesting, Node.deepest_mergeTexts]

theorem spelling_append (h : d.loneEscape = false) (e : Document) :
    (d.append e).spelling = d.spelling ++ e.spelling := by
  simp only [spelling, append, h, escapeIf, List.flatMap_append, List.append_assoc]
  rfl

theorem nodes_append (h : d.loneEscape = false) (e : Document) :
    (d.append e).nodes = d.nodes ++ e.nodes := by
  simp only [nodes, append, h, loneEscapeNodes, List.map_append, List.append_assoc]
  rfl

theorem deepest_nodes_le {limit : Nat} (documents : List Document)
    (h : ∀ d ∈ documents, d.tree.nesting ≤ limit + 1) :
    Node.deepest (documents.flatMap nodes) ≤ limit := by
  induction documents with
  | nil => simp [Node.deepest]
  | cons d rest ih =>
    have hd := h d (by simp)
    have hrest := ih fun d' hd' => h d' (by simp [hd'])
    rw [nesting_tree] at hd
    rw [List.flatMap_cons, Node.deepest_append]
    omega

theorem exists_joined (documents : List Document)
    (h : ∀ d ∈ documents.dropLast, d.loneEscape = false) :
    ∃ joined : Document, joined.spelling = documents.flatMap spelling ∧
      joined.nodes = documents.flatMap nodes := by
  induction documents with
  | nil => exact ⟨⟨[], false⟩, rfl, rfl⟩
  | cons d rest ih =>
    cases rest with
    | nil => exact ⟨d, by simp, by simp⟩
    | cons e more =>
      have hd : d.loneEscape = false := h d (by simp)
      obtain ⟨joined, hspelling, hnodes⟩ := ih fun d' hd' => h d' (by simp [hd'])
      refine ⟨d.append joined, ?_, ?_⟩
      · rw [spelling_append hd, hspelling]
        rfl
      · rw [nodes_append hd, hnodes]
        rfl

end Document
end Grammar

namespace Template
open Grammar

theorem compile_source {d : Document} (h : d.tree.nesting ≤ nestingLimit + 1) :
    compile d.source = .ok d.tree := by
  rw [compile_eq_ok_iff]
  exact ⟨d, (String.toList_ofList).symm, rfl, h⟩

theorem exists_documents (sources : List String)
    (h : ∀ source ∈ sources, ∃ t, compile source = .ok t) :
    ∃ documents : List Document, sources = documents.map Document.source ∧
      ∀ d ∈ documents, d.tree.nesting ≤ nestingLimit + 1 := by
  induction sources with
  | nil => exact ⟨[], rfl, by simp⟩
  | cons source rest ih =>
    obtain ⟨documents, hrest, hnesting⟩ := ih fun other hother => h other (by simp [hother])
    obtain ⟨t, ht⟩ := h source (by simp)
    rw [compile_eq_ok_iff] at ht
    obtain ⟨d, hspelling, rfl, hd⟩ := ht
    have hsource : source = d.source := by
      rw [Document.source, hspelling, String.ofList_toList]
    refine ⟨d :: documents, by rw [hsource, hrest, List.map_cons], ?_⟩
    simpa using ⟨hd, hnesting⟩

theorem join_sources (documents : List Document) :
    String.join (documents.map Document.source) =
      String.ofList (documents.flatMap Document.spelling) := by
  apply String.toList_inj.mp
  simp [String.toList_join, Document.source, List.flatMap_map]

/-- Put together, sources compile to the nodes that each of them gives, one behind another, in which
texts that meet become one. -/
theorem compile_join_sources (documents : List Document)
    (hnesting : ∀ d ∈ documents, d.tree.nesting ≤ nestingLimit + 1)
    (hpaired : ∀ d ∈ documents.dropLast, d.loneEscape = false) :
    ∃ n, compile (String.join (documents.map Document.source)) =
      .ok (.template (Node.mergeTexts (documents.flatMap Document.nodes)) n) := by
  obtain ⟨joined, hspelling, hnodes⟩ := Document.exists_joined documents hpaired
  have hdeepest := Document.deepest_nodes_le documents hnesting
  have hjoined : compile joined.source = .ok joined.tree := by
    apply compile_source
    rw [Document.nesting_tree, hnodes]
    omega
  refine ⟨joined.spelling.length, ?_⟩
  rw [join_sources, ← hspelling, ← hnodes]
  exact hjoined

end Template
end TagTemplate
