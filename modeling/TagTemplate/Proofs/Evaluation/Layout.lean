import TagTemplate.Proofs.Evaluation.Sessions
import TagTemplate.Proofs.Template.Layout
import TagTemplate.Proofs.Template.Printer

/-! Layout has no part in the evaluation. The lengths that a tree records are not looked at, so that
sources which differ in the layout of their tags do the same. -/
namespace TagTemplate.Evaluation
open Template Grammar

variable {H σ : Type} {host : Host H σ} {allowance : Allowance}

mutual
theorem evalNode_unmeasured : (node : Node) → (depth : Nat) →
    evalNode host allowance depth node.unmeasured = evalNode host allowance depth node
  | node, 0 => by rw [evalNode_zero, evalNode_zero]
  | .text .., _ + 1 => rfl
  | .quoted .., _ + 1 => rfl
  | .comment .., _ + 1 => rfl
  | .template children _, depth + 1 => by
    simp only [Node.unmeasured, evalNode_succ, evalInside, evalNodes_allUnmeasured children depth]
  | .tag name arguments _, depth + 1 => by
    simp only [Node.unmeasured, evalNode_succ, evalInside, evalNodes_allUnmeasured arguments depth]
  | .declaration _ none _, _ + 1 => rfl
  | .declaration name (some value) _, depth + 1 => by
    simp only [Node.unmeasured, evalNode_succ, evalInside, evalNode_unmeasured value depth]
  | .foreign .., _ + 1 => rfl

theorem evalNodes_allUnmeasured : (nodes : List Node) → (depth : Nat) →
    evalNodes host allowance depth (Node.allUnmeasured nodes) =
      evalNodes host allowance depth nodes
  | [], _ => rfl
  | node :: rest, depth => by
    rw [Node.allUnmeasured, evalNodes_cons, evalNodes_cons, evalNode_unmeasured node depth,
      evalNodes_allUnmeasured rest depth]
end

theorem evaluate_unmeasured (host : Host H σ) (timeout : Option Number) (tree : Node) :
    evaluate host timeout tree.unmeasured = evaluate host timeout tree := by
  simp only [evaluate, evalNode_unmeasured]

/-- Whatever an accepted source is derived by, other runs of spaces and newlines in its tags give a
source that is accepted, too. Its tree is the same but for the lengths, argument by argument, and
rendering it comes to the same text or error and the same world. -/
theorem layout_is_irrelevant {source : String} {t : Node} (h : compile source = .ok t) :
    (∃ d : Document, d.source = source) ∧
    ∀ d e : Document, d.source = source → d.Relaid e →
      ∃ u, compile e.source = .ok u ∧ u.unmeasured = t.unmeasured ∧
        ∀ (H σ : Type) (host : Host H σ) (given : List (String × Binding H))
          (timeout : Option Number) (state : σ),
          (render host given timeout state e.source).1 =
              (render host given timeout state source).1 ∧
            (render host given timeout state e.source).2.world =
              (render host given timeout state source).2.world := by
  constructor
  · rw [compile_eq_ok_iff] at h
    obtain ⟨d, hspelling, -, -⟩ := h
    exact ⟨d, by rw [Document.source, hspelling, String.ofList_toList]⟩
  · rintro d e rfl hrelaid
    obtain ⟨he, hsame⟩ := hrelaid.compile_source h
    refine ⟨e.tree, he, hsame, fun H σ host given timeout state => ?_⟩
    have hevaluate : evaluate host timeout e.tree = evaluate host timeout t := by
      rw [← evaluate_unmeasured, hsame, evaluate_unmeasured]
    rw [Session.render_of_tree he, Session.render_of_tree h, hevaluate]
    exact ⟨rfl, rfl⟩

def newline : Spaces := ⟨['\n'], List.forall_mem_singleton.mpr rfl⟩

def nameF : Name := ⟨['f'], List.cons_ne_nil _ _, List.forall_mem_singleton.mpr rfl⟩

def nameX : Name := ⟨['x'], List.cons_ne_nil _ _, List.forall_mem_singleton.mpr rfl⟩

def callDocument (gap : Gap) (front behind between back : Spaces) : Document :=
  ⟨[.item (.tag (.call front nameF gap
    (.quoted .single [.plain 'a' (by decide)])
    [.mk between (.tag (.declaration front nameX behind between
      (.template [.letter (.plain 'b' (by decide))]) back))] back))], false⟩

theorem relaid_callDocument (gap gap' : Gap)
    (front front' behind behind' between between' back back' : Spaces) :
    (callDocument gap front behind between back).Relaid
      (callDocument gap' front' behind' between' back') where
  sections := .cons (.tag (.call _ _ _ _ _ _ _ (.quoted _ _) (.cons _ _ (.tag (.declaration _ _ _ _ _
    _ _ _ _ (.template (.letter _ .nil)))) .nil))) .nil
  loneEscape := rfl

theorem spread_call_renders_alike :
    ∃ t u, compile "\x7bf 'a'\x7bx=\x60b\x60\x7d\x7d" = .ok t ∧
      compile "\x7b\nf 'a'\x7b\nx =\x60b\x60\n\x7d\n\x7d" = .ok u ∧ u.unmeasured = t.unmeasured ∧
      ∀ (H σ : Type) (host : Host H σ) (given : List (String × Binding H)) (state : σ),
        (render host given none state "\x7b\nf 'a'\x7b\nx =\x60b\x60\n\x7d\n\x7d").1 =
          (render host given none state "\x7bf 'a'\x7bx=\x60b\x60\x7d\x7d").1 := by
  let d := callDocument oneSpace noSpaces noSpaces noSpaces noSpaces
  let e := callDocument oneSpace newline oneSpace.toSpaces noSpaces newline
  have hd : d.source = "\x7bf 'a'\x7bx=\x60b\x60\x7d\x7d" := by decide
  have he : e.source = "\x7b\nf 'a'\x7b\nx =\x60b\x60\n\x7d\n\x7d" := by decide
  have ht : compile "\x7bf 'a'\x7bx=\x60b\x60\x7d\x7d" = .ok d.tree := hd ▸ compile_source (by decide)
  obtain ⟨u, hu, hsame, hrender⟩ :=
    (layout_is_irrelevant ht).2 d e hd (relaid_callDocument _ _ _ _ _ _ _ _ _ _)
  rw [he] at hu hrender
  exact ⟨_, u, ht, hu, hsame, fun H σ host given state => (hrender H σ host given none state).1⟩

end TagTemplate.Evaluation
