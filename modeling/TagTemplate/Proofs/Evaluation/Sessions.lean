import TagTemplate.Evaluation.Session
import TagTemplate.Proofs.Evaluation.Clock
import TagTemplate.Proofs.Host.Scripted
import TagTemplate.Proofs.Template.Joining

/-! Sources run one after another in a session. They do what their concatenation does in a single
run, as far as the clock is not looked at: only that is read more often. -/
namespace TagTemplate.Evaluation
open Template Grammar

variable {H σ τ α β : Type}

variable {host : Host H σ} {view : σ → τ} {depth : Nat}

def joinedText (host : Host H σ) (depth : Nat) (nodes : List Node) : Eval H σ String := do
  let texts ← evalNodes host .unlimited depth nodes
  pure (String.join texts)

theorem joinedText_nil : joinedText host depth [] = pure "" := by
  simp only [joinedText, evalNodes, pure_bind, String.join_nil]

theorem joinedText_cons (node : Node) (rest : List Node) :
    joinedText host depth (node :: rest) =
      evalNode host .unlimited depth node >>= fun text =>
        joinedText host depth rest >>= fun more => pure (text ++ more) := by
  simp only [joinedText, evalNodes_cons, bind_assoc, pure_bind, String.join_cons]

theorem joinedText_singleton (node : Node) :
    joinedText host depth [node] = evalNode host .unlimited depth node := by
  simp only [joinedText_cons, joinedText_nil, pure_bind, String.append_empty, bind_pure]

theorem joinedText_append (nodes others : List Node) :
    joinedText host depth (nodes ++ others) =
      joinedText host depth nodes >>= fun text =>
        joinedText host depth others >>= fun more => pure (text ++ more) := by
  simp only [joinedText, evalNodes_append, bind_assoc, pure_bind, String.join_append]

theorem alike_joinedText (h : ClockApart host view) (depth : Nat) (nodes : List Node) :
    Alike view (joinedText host depth nodes) (joinedText host depth nodes) :=
  ((congruence_alike h).evalNodes nodes depth).bind fun _ => (callCongruence_alike h).pure _

theorem alike_append_pure (h : ClockApart host view) {x y : Eval H σ String} (hxy : Alike view x y)
    (s : String) :
    Alike view (x >>= fun more => pure (s ++ more)) (y >>= fun more => pure (s ++ more)) :=
  hxy.bind fun more => (callCongruence_alike h).pure (s ++ more)

theorem alike_evalNode_of_pure (h : ClockApart host view) {node : Node} {s : String}
    (hinside : evalInside host .unlimited depth node = pure s) :
    Alike view (evalNode host .unlimited (depth + 1) node) (pure s) := by
  rw [evalNode_succ, hinside]
  exact (alike_checkTime h).bind fun _ => (callCongruence_alike h).pure s

theorem alike_joinedText_cons (h : ClockApart host view) {node : Node} {s : String}
    (hnode : Alike view (evalNode host .unlimited depth node) (pure s)) (rest : List Node) :
    Alike view (joinedText host depth (node :: rest))
      (joinedText host depth rest >>= fun more => pure (s ++ more)) := by
  have hcons := hnode.bind fun text => alike_append_pure h (alike_joinedText h depth rest) text
  rwa [pure_bind, ← joinedText_cons] at hcons

theorem alike_text_cons (h : ClockApart host view) (depth : Nat) (s : String) (n : Nat)
    (rest : List Node) :
    Alike view (joinedText host (depth + 1) (.text s n :: rest))
      (joinedText host (depth + 1) rest >>= fun more => pure (s ++ more)) :=
  alike_joinedText_cons h (alike_evalNode_of_pure h rfl) rest

theorem alike_two_texts (h : ClockApart host view) (depth : Nat) (s t : String) (m n k : Nat)
    (rest : List Node) :
    Alike view (joinedText host (depth + 1) (.text s m :: .text t n :: rest))
      (joinedText host (depth + 1) (.text (s ++ t) k :: rest)) := by
  have hone := alike_text_cons h depth (s ++ t) k rest
  have htwo := (alike_text_cons h depth s m (.text t n :: rest)).trans
    (alike_append_pure h (alike_text_cons h depth t n rest) s)
  simp only [bind_assoc, pure_bind, ← String.append_assoc] at htwo
  exact htwo.trans hone.symm

theorem alike_attach (h : ClockApart host view) (depth : Nat) (node : Node) (rest : List Node) :
    Alike view (joinedText host (depth + 1) (node.attach rest))
      (joinedText host (depth + 1) (node :: rest)) := by
  by_cases htexts : ∃ s m t n more, node = .text s m ∧ rest = .text t n :: more
  · obtain ⟨s, m, t, n, more, rfl, rfl⟩ := htexts
    exact (alike_two_texts h depth s t m n (m + n) more).symm
  · have hattach : node.attach rest = node :: rest := by
      cases rest with
      | nil => exact Node.attach_nil node
      | cons next more =>
        apply Node.attach_cons_of_not_texts
        rintro ⟨hnode, hnext⟩
        obtain ⟨s, m, rfl⟩ := Node.exists_text_of_isText hnode
        obtain ⟨t, n, rfl⟩ := Node.exists_text_of_isText hnext
        exact htexts ⟨s, m, t, n, more, rfl, rfl⟩
    rw [hattach]
    exact alike_joinedText h _ _

theorem alike_mergeTexts (h : ClockApart host view) (depth : Nat) (nodes : List Node) :
    Alike view (joinedText host (depth + 1) (Node.mergeTexts nodes))
      (joinedText host (depth + 1) nodes) := by
  induction nodes with
  | nil => exact alike_joinedText h _ _
  | cons node rest ih =>
    have hrest : Alike view (joinedText host (depth + 1) (node :: Node.mergeTexts rest))
        (joinedText host (depth + 1) (node :: rest)) := by
      rw [joinedText_cons, joinedText_cons]
      exact ((congruence_alike h).evalNode node _).bind fun text => alike_append_pure h ih text
    exact (alike_attach h depth node (Node.mergeTexts rest)).trans hrest

def documentText (host : Host H σ) (nodes : List Node) : Eval H σ String :=
  Eval.mapError .reported (Eval.mapError .acrossTemplate (joinedText host (depthLimit - 1) nodes))

theorem documentText_nil : documentText host [] = pure "" := by
  rw [documentText, joinedText_nil, Eval.mapError_pure, Eval.mapError_pure]

theorem documentText_append (nodes others : List Node) :
    documentText host (nodes ++ others) =
      documentText host nodes >>= fun text =>
        documentText host others >>= fun more => pure (text ++ more) := by
  simp only [documentText, joinedText_append, Eval.mapError_bind, Eval.mapError_pure]

theorem documentText_of_ok {nodes : List Node} {text : String} {v w : World H σ}
    (h : joinedText host (depthLimit - 1) nodes w = (.ok text, v)) :
    documentText host nodes w = (.ok text, v) :=
  Eval.mapError_of_ok (Eval.mapError_of_ok h)

theorem evaluate_template (nodes : List Node) (n : Nat) :
    evaluate host none (.template nodes n) =
      checkTime host .unlimited >>= fun _ => documentText host nodes := by
  have hcheck : Eval.mapError .reported (checkTime host .unlimited) = checkTime host .unlimited := rfl
  have hnode : evalNode host .unlimited depthLimit (.template nodes n) = _ :=
    evalNode_succ (.template nodes n)
  rw [evaluate_untimed, hnode, Eval.mapError_bind, hcheck, documentText, joinedText, Eval.mapError_bind]
  rfl

theorem alike_evaluate_mergeTexts (h : ClockApart host view) (nodes : List Node) (n : Nat) :
    Alike view (evaluate host none (.template (Node.mergeTexts nodes) n))
      (documentText host nodes) := by
  rw [evaluate_template, ← pure_bind () fun _ => documentText host nodes]
  exact (alike_checkTime h).bind fun _ => ((alike_mergeTexts h _ nodes).mapError _).mapError _

namespace Session

/-- Runs sources one after another, until one of them fails. -/
def runAll (host : Host H σ) (s : Session H σ) :
    List String → Except RunError (List String) × Session H σ
  | [] => (.ok [], s)
  | source :: rest =>
    match s.run host source with
    | (.error e, s) => (.error e, s)
    | (.ok text, s) =>
      let (result, s) := runAll host s rest
      (result.map (text :: ·), s)

variable {s s' : Session H σ} {source text : String} {e : RunError}

theorem runAll_cons_of_error (h : s.run host source = (.error e, s')) (rest : List String) :
    s.runAll host (source :: rest) = (.error e, s') := by
  simp only [runAll, h]

theorem runAll_cons_of_ok (h : s.run host source = (.ok text, s')) (rest : List String) :
    s.runAll host (source :: rest) =
      ((s'.runAll host rest).1.map (text :: ·), (s'.runAll host rest).2) := by
  simp only [runAll, h]

theorem run_of_tree {tree : Node} (h : compile source = .ok tree) (s : Session H σ) :
    s.run host source =
      ((evaluate host s.timeout tree s.world).1.mapError .eval,
        { s with tree, world := (evaluate host s.timeout tree s.world).2 }) := by
  rw [run, h]
  rfl

theorem run_of_refusal {e : ReadError} (h : compile source = .error e) (s : Session H σ) :
    s.run host source = (.error (.read e), s) := by
  rw [run, h]

theorem render_of_tree {tree : Node} (h : compile source = .ok tree)
    (given : List (String × Binding H)) (timeout : Option Number) (state : σ) :
    render host given timeout state source =
      ((evaluate host timeout tree ⟨.initial given, state, []⟩).1.mapError .eval,
        ⟨tree, timeout, (evaluate host timeout tree ⟨.initial given, state, []⟩).2⟩) :=
  run_of_tree h (.start given timeout state)

theorem runAll_sources (hclock : ClockApart host view) (documents : List Document)
    (hnesting : ∀ d ∈ documents, d.tree.nesting ≤ nestingLimit + 1) {s : Session H σ}
    (htimeout : s.timeout = none) {v : World H σ} (hagree : World.Agree view s.world v) :
    (s.runAll host (documents.map Document.source)).1.map String.join =
        (documentText host (documents.flatMap Document.nodes) v).1.mapError .eval ∧
      World.Agree view (s.runAll host (documents.map Document.source)).2.world
        (documentText host (documents.flatMap Document.nodes) v).2 := by
  induction documents generalizing s v with
  | nil =>
    rw [List.flatMap_nil, documentText_nil]
    exact ⟨rfl, hagree⟩
  | cons d rest ih =>
    obtain ⟨hresult, hworld⟩ :=
      alike_evaluate_mergeTexts hclock d.nodes d.spelling.length s.world v hagree
    rw [← Document.tree_eq] at hresult hworld
    rcases hx : evaluate host none d.tree s.world with ⟨r, w⟩
    rcases hy : documentText host d.nodes v with ⟨r', v'⟩
    rw [hx, hy] at hresult hworld
    obtain rfl : r = r' := hresult
    have hrun : s.run host d.source =
        (r.mapError .eval, { s with tree := d.tree, world := w }) := by
      rw [run_of_tree (compile_source (hnesting d (by simp))), htimeout, hx]
    rw [List.flatMap_cons, documentText_append, List.map_cons]
    cases r with
    | error e =>
      rw [runAll_cons_of_error hrun, Eval.bind_of_error hy]
      exact ⟨rfl, hworld⟩
    | ok text =>
      obtain ⟨hrest, hagree'⟩ := ih (fun d' hd' => hnesting d' (by simp [hd']))
        (s := { s with tree := d.tree, world := w }) htimeout hworld
      rw [runAll_cons_of_ok hrun, Eval.bind_of_ok hy]
      generalize runAll host _ _ = many at hrest hagree' ⊢
      rcases many with ⟨results, s'⟩
      rcases hone : documentText host (rest.flatMap Document.nodes) v' with ⟨r, u⟩
      rw [hone] at hrest hagree'
      cases r with
      | error e =>
        rw [Eval.bind_of_error hone]
        cases results with
        | error e' => exact ⟨hrest, hagree'⟩
        | ok texts => cases hrest
      | ok more =>
        rw [Eval.bind_of_ok hone]
        cases results with
        | error e' => cases hrest
        | ok texts =>
          obtain rfl : String.join texts = more := Except.ok.inj hrest
          exact ⟨congrArg Except.ok String.join_cons, hagree'⟩

/-- Sources run one after another give the texts that their concatenation gives at once, and leave
the same world, whatever the clock shows. Where one of them fails, the concatenation fails alike,
having done as much. No source but the last may end with an escape that has nothing to escape. -/
theorem run_join (hclock : ClockApart host view) {s : Session H σ} (htimeout : s.timeout = none)
    {sources : List String} (hcompile : ∀ source ∈ sources, ∃ t, compile source = .ok t)
    (hpaired : ∀ source ∈ sources.dropLast, ¬EndsUnpaired source) :
    (s.run host (String.join sources)).1 = (s.runAll host sources).1.map String.join ∧
      World.Agree view (s.run host (String.join sources)).2.world
        (s.runAll host sources).2.world := by
  obtain ⟨documents, rfl, hnesting⟩ := exists_documents sources hcompile
  have hlone : ∀ d ∈ documents.dropLast, d.loneEscape = false := by
    intro d hd
    have hsource : d.source ∈ (documents.map Document.source).dropLast := by
      rw [← List.map_dropLast]
      exact List.mem_map_of_mem hd
    simpa using mt d.endsUnpaired_source_iff.mpr (hpaired _ hsource)
  obtain ⟨n, hjoined⟩ := compile_join_sources documents hnesting hlone
  obtain ⟨hmany, hmanyWorld⟩ := runAll_sources hclock documents hnesting htimeout
    (.refl view s.world)
  obtain ⟨hone, honeWorld⟩ := alike_evaluate_mergeTexts hclock (documents.flatMap Document.nodes) n
    s.world s.world (.refl view s.world)
  have hrun : s.run host (String.join (documents.map Document.source)) =
      restart host { s with
        tree := .template (Node.mergeTexts (documents.flatMap Document.nodes)) n } := by
    rw [run, hjoined]
  rw [hrun, hmany, restart, htimeout]
  exact ⟨congrArg (Except.mapError RunError.eval) hone, honeWorld.trans hmanyWorld.symm⟩

/-- Texts that meet, a name declared in one source and used in the next, and a lone escape last. -/
theorem three_sources_join :
    let s : Session Host.Tag Host.Stage :=
      .start [("greet", .host ⟨"greet", .echo⟩)] none ⟨.int 0, .int 1, .cycle [] 0, [], []⟩
    let sources := ["a\\\x7bgreet 'b'\x7d\\\\", "c\x7bn='d'\x7d", "\x7bn\x7d\\"]
    (s.run Host.scripted (String.join sources)).1 =
        (s.runAll Host.scripted sources).1.map String.join ∧
      World.Agree Host.Stage.offClock (s.run Host.scripted (String.join sources)).2.world
        (s.runAll Host.scripted sources).2.world := by
  intro s sources
  have hcompile : ∀ source ∈ sources, ∃ t, compile source = .ok t := by
    simp only [sources, List.forall_mem_cons]
    exact ⟨⟨_, rfl⟩, ⟨_, rfl⟩, ⟨_, rfl⟩, fun _ h => nomatch h⟩
  have hpaired : ∀ source ∈ sources.dropLast, ¬EndsUnpaired source := by
    unfold EndsUnpaired
    decide
  exact run_join Host.clockApart_scripted rfl hcompile hpaired

end Session
end TagTemplate.Evaluation
