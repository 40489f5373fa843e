import Mathlib.Logic.Relation
import TagTemplate.Proofs.Evaluation.Acting
import TagTemplate.Proofs.Evaluation.Course
import TagTemplate.Proofs.Evaluation.Sessions
import TagTemplate.Proofs.Template.Simplification

/-! Simplification keeps the meaning of trees. A simpler tree gives the same text or fails alike, having
made the same calls and declarations, and leaves the same bindings and the same state but for the
clock. -/
namespace TagTemplate.Evaluation
open Template

variable {H σ τ : Type} {host : Host H σ} {view : σ → τ} {allowance : Allowance}
  {depth depth' : Nat}

theorem evalNodes_congr {nodes : List Node} (h : ∀ node ∈ nodes,
    evalNode host allowance depth node = evalNode host allowance depth' node) :
    evalNodes host allowance depth nodes = evalNodes host allowance depth' nodes := by
  induction nodes with
  | nil => simp only [evalNodes]
  | cons node rest ih =>
    rw [List.forall_mem_cons] at h
    rw [evalNodes_cons, evalNodes_cons, h.1, ih h.2]

theorem evalNode_eq_of_nesting_lt {node : Node} (h : node.nesting < depth)
    (h' : node.nesting < depth') :
    evalNode host allowance depth node = evalNode host allowance depth' node := by
  induction node using Node.induction_parts generalizing depth depth' with
  | h node ih =>
    obtain ⟨k, rfl⟩ : ∃ k, depth = k + 1 := ⟨depth - 1, by omega⟩
    obtain ⟨k', rfl⟩ : ∃ k', depth' = k' + 1 := ⟨depth' - 1, by omega⟩
    have hparts : evalNodes host allowance k node.parts = evalNodes host allowance k' node.parts := by
      refine evalNodes_congr fun part hpart => ?_
      have hless := Node.nesting_lt_of_mem_parts hpart
      exact ih part hpart (by omega) (by omega)
    rw [evalNode_eq_around, evalNode_eq_around, hparts]

theorem evalNodes_eq_of_deepest_lt {nodes : List Node} (h : Node.deepest nodes < depth)
    (h' : Node.deepest nodes < depth') :
    evalNodes host allowance depth nodes = evalNodes host allowance depth' nodes :=
  evalNodes_congr fun _ hnode =>
    have hle := Node.nesting_le_deepest hnode
    evalNode_eq_of_nesting_lt (by omega) (by omega)

def templateText (host : Host H σ) (depth : Nat) (children : List Node) : Eval H σ String :=
  Eval.mapError .acrossTemplate (joinedText host depth children)

theorem evalInside_template (children : List Node) (n : Nat) :
    evalInside host .unlimited depth (.template children n) = templateText host depth children := by
  rw [templateText, joinedText, Eval.mapError_bind]
  rfl

theorem templateText_cons (node : Node) (rest : List Node) :
    templateText host depth (node :: rest) =
      Eval.mapError .acrossTemplate (evalNode host .unlimited depth node) >>= fun text =>
        templateText host depth rest >>= fun more => pure (text ++ more) := by
  simp only [templateText, joinedText_cons, Eval.mapError_bind, Eval.mapError_pure]

theorem templateText_append (nodes others : List Node) :
    templateText host depth (nodes ++ others) =
      templateText host depth nodes >>= fun text =>
        templateText host depth others >>= fun more => pure (text ++ more) := by
  simp only [templateText, joinedText_append, Eval.mapError_bind, Eval.mapError_pure]

theorem mapError_acrossTemplate_idem {α : Type} (x : Eval H σ α) :
    Eval.mapError .acrossTemplate (Eval.mapError .acrossTemplate x) =
      Eval.mapError .acrossTemplate x := by
  rw [Eval.mapError_mapError]
  exact congrArg (Eval.mapError · x) (funext EvalError.acrossTemplate_idem)

theorem alike_templateText (h : ClockApart host view) (depth : Nat) (children : List Node) :
    Alike view (templateText host depth children) (templateText host depth children) :=
  (alike_joinedText h depth children).mapError _

theorem alike_templateText_cons (h : ClockApart host view) {node : Node} {s : String}
    (hnode : Alike view (evalNode host .unlimited depth node) (pure s)) (rest : List Node) :
    Alike view (templateText host depth (node :: rest))
      (templateText host depth rest >>= fun more => pure (s ++ more)) := by
  have hcons := (alike_joinedText_cons h hnode rest).mapError EvalError.acrossTemplate
  rwa [Eval.mapError_bind] at hcons

theorem alike_templateText_of_empty (h : ClockApart host view) {node : Node}
    (hnode : Alike view (evalNode host .unlimited depth node) (pure "")) (rest : List Node) :
    Alike view (templateText host depth (node :: rest)) (templateText host depth rest) := by
  simpa only [String.empty_append, bind_pure] using alike_templateText_cons h hnode rest

/-- A template within a template does what its children do by themselves: an error that has come
across one template comes across the next one as it is. -/
theorem alike_templateText_splice (h : ClockApart host view) {children : List Node}
    (hdeep : Node.deepest children < depth) (n : Nat) (rest : List Node) :
    Alike view (templateText host (depth + 1) (.template children n :: rest))
      (templateText host (depth + 1) (children ++ rest)) := by
  -- Without the template around them the children are evaluated one level higher up.
  have hchildren : templateText host (depth + 1) children = templateText host depth children := by
    rw [templateText, templateText, joinedText, joinedText,
      evalNodes_eq_of_deepest_lt (Nat.lt_succ_of_lt hdeep) hdeep]
  have hnode : Alike view
      (Eval.mapError .acrossTemplate (evalNode host .unlimited (depth + 1) (.template children n)))
      (templateText host (depth + 1) children) := by
    rw [evalNode_succ, evalInside_template, Eval.mapError_bind, hchildren]
    conv => rhs; rw [templateText, ← mapError_acrossTemplate_idem, ← templateText]
    exact ((alike_checkTime h).mapError _).bind fun _ => (alike_templateText h depth children).mapError _
  rw [templateText_cons, templateText_append]
  exact hnode.bind fun text => alike_append_pure h (alike_templateText h (depth + 1) rest) text

theorem alike_templateText_of_tidies (h : ClockApart host view) {children children' : List Node}
    (htidies : Tidies children children') (hdeep : Node.deepest children < depth) :
    Alike view (templateText host depth children) (templateText host depth children') := by
  obtain ⟨depth, rfl⟩ : ∃ k, depth = k + 1 := ⟨depth - 1, by omega⟩
  induction htidies with
  | comment => exact alike_templateText_of_empty h (alike_evalNode_of_pure h rfl) _
  | empty => exact alike_templateText_of_empty h (alike_evalNode_of_pure h rfl) _
  | splice children n rest =>
    simp only [Node.deepest, Node.nesting] at hdeep
    exact alike_templateText_splice h (by omega) n rest
  | merge s t m n k rest => exact (alike_two_texts h depth s t m n k rest).mapError _
  | behind node _ ih =>
    simp only [Node.deepest] at hdeep
    rw [templateText_cons, templateText_cons]
    exact (((congruence_alike h).evalNode node _).mapError _).bind fun text =>
      alike_append_pure h (ih (by omega)) text

theorem alike_ofTexts (h : ClockApart host view) (depth : Nat) (texts : List (String × Nat))
    (n : Nat) :
    Alike view (evalNode host .unlimited (depth + 2) (.template (Node.ofTexts texts) n))
      (pure (String.join (texts.map Prod.fst))) := by
  have htexts : Alike view (joinedText host (depth + 1) (Node.ofTexts texts))
      (pure (String.join (texts.map Prod.fst))) := by
    induction texts with
    | nil =>
      rw [Node.ofTexts, List.map_nil, joinedText_nil]
      exact (callCongruence_alike h).pure ""
    | cons t rest ih =>
      have hcons := (alike_text_cons h depth t.1 t.2 (Node.ofTexts rest)).trans
        (alike_append_pure h ih t.1)
      rwa [pure_bind, ← String.join_cons] at hcons
  have hacross := htexts.mapError EvalError.acrossTemplate
  rw [Eval.mapError_pure] at hacross
  rw [evalNode_succ, evalInside_template]
  exact (alike_checkTime h).bind fun _ => hacross

theorem alike_evalNodes_at (h : ClockApart host view) {node node' : Node} {depth : Nat}
    (hnode : Alike view (evalNode host .unlimited depth node) (evalNode host .unlimited depth node'))
    (front behind : List Node) :
    Alike view (evalNodes host .unlimited depth (front ++ node :: behind))
      (evalNodes host .unlimited depth (front ++ node' :: behind)) := by
  rw [evalNodes_append, evalNodes_append, evalNodes_cons, evalNodes_cons]
  exact ((congruence_alike h).evalNodes front depth).bind fun texts =>
    (hnode.bind fun _ => ((congruence_alike h).evalNodes behind depth).bind fun _ =>
      (callCongruence_alike h).pure _).bind fun _ => (callCongruence_alike h).pure _

/-- One step of simplification, evaluated with levels enough. -/
theorem alike_of_simplifies (h : ClockApart host view) {v : Bool} {node node' : Node}
    (hsimplifies : Simplifies v node node') (hdepth : node.nesting < depth) :
    Alike view (evalNode host .unlimited depth node) (evalNode host .unlimited depth node') := by
  obtain ⟨depth, rfl⟩ : ∃ k, depth = k + 1 := ⟨depth - 1, by omega⟩
  induction hsimplifies generalizing depth with
  | tidy htidies n n' =>
    simp only [Node.nesting, Nat.add_lt_add_iff_right] at hdepth
    rw [evalNode_succ, evalNode_succ, evalInside_template, evalInside_template]
    exact (congruence_alike h).checkTime.bind fun _ => alike_templateText_of_tidies h htidies hdepth
  | requote texts quote n n' =>
    -- One level is the template's, the next one that of its texts.
    obtain ⟨depth, rfl⟩ : ∃ k, depth = k + 1 := by
      simp only [Node.nesting] at hdepth
      exact ⟨depth - 1, by omega⟩
    exact (alike_ofTexts h depth texts n).trans (alike_evalNode_of_pure h rfl).symm
  | child _ front behind n n' ih =>
    simp only [Node.nesting, deepest_at] at hdepth
    obtain ⟨depth, rfl⟩ : ∃ k, depth = k + 1 := ⟨depth - 1, by omega⟩
    exact (congruence_alike h).evalNode_succ_of_parts rfl
      (alike_evalNodes_at h (ih depth (by omega)) front behind)
  | argument _ name front behind n n' ih =>
    simp only [Node.nesting, deepest_at] at hdepth
    obtain ⟨depth, rfl⟩ : ∃ k, depth = k + 1 := ⟨depth - 1, by omega⟩
    exact (congruence_alike h).evalNode_succ_of_parts rfl
      (alike_evalNodes_at h (ih depth (by omega)) front behind)
  | value _ name n n' ih =>
    simp only [Node.nesting] at hdepth
    obtain ⟨depth, rfl⟩ : ∃ k, depth = k + 1 := ⟨depth - 1, by omega⟩
    exact (congruence_alike h).evalNode_succ_of_parts rfl
      (alike_evalNodes_at h (ih depth (by omega)) [] [])

theorem alike_of_simplified (h : ClockApart host view) {t t' : Node}
    (hsteps : Relation.ReflTransGen (Simplifies false) t t') (hdepth : t.nesting < depth) :
    t'.nesting ≤ t.nesting ∧
      Alike view (evalNode host .unlimited depth t) (evalNode host .unlimited depth t') := by
  induction hsteps with
  | refl => exact ⟨Nat.le_refl _, (congruence_alike h).evalNode t depth⟩
  | tail _ hstep ih =>
    obtain ⟨hnesting, halike⟩ := ih
    exact ⟨Nat.le_trans hstep.nesting_le hnesting, halike.trans (alike_of_simplifies h hstep (by omega))⟩

theorem alike_comment_quoted (h : ClockApart host view) (content : String) (quote : Quote)
    (m k : Nat) :
    Alike view (evalNode host .unlimited depth (.comment content m))
      (evalNode host .unlimited depth (.quoted quote "" k)) := by
  cases depth with
  | zero =>
    rw [evalNode_zero, evalNode_zero]
    exact (callCongruence_alike h).throw .tooDeep
  | succ depth => exact (alike_evalNode_of_pure h rfl).trans (alike_evalNode_of_pure h rfl).symm

variable {name content : String} {front behind : List Node} {m n : Nat} {w v : World H σ}

theorem alike_comment_argument (h : ClockApart host view) (quote : Quote) (k n' : Nat) :
    Alike view
      (evalNode host .unlimited depth (.tag name (front ++ .comment content m :: behind) n))
      (evalNode host .unlimited depth (.tag name (front ++ .quoted quote "" k :: behind) n')) := by
  cases depth with
  | zero =>
    rw [evalNode_zero, evalNode_zero]
    exact (callCongruence_alike h).throw .tooDeep
  | succ depth =>
    exact (congruence_alike h).evalNode_succ_of_parts rfl
      (alike_evalNodes_at h (alike_comment_quoted h content quote m k) front behind)

/-- Arguments with a comment among them have one text more than they have without it. -/
theorem exists_texts_without_comment (h : ClockApart host view) {texts : List String}
    (hargs : evalNodes host .unlimited depth (front ++ .comment content m :: behind) w =
      (.ok texts, v)) :
    ∃ others u, evalNodes host .unlimited depth (front ++ behind) w = (.ok others, u) ∧
      texts.length = others.length + 1 := by
  rw [evalNodes_append] at hargs ⊢
  obtain ⟨before, w₁, hfront, hargs⟩ := Eval.bind_eq_ok hargs
  obtain ⟨rest, w₂, hrest, ⟨⟩⟩ := Eval.bind_eq_ok hargs
  rw [evalNodes_cons] at hrest
  obtain ⟨text, w₃, hcomment, hrest⟩ := Eval.bind_eq_ok hrest
  obtain ⟨more, w₄, hbehind, ⟨⟩⟩ := Eval.bind_eq_ok hrest
  -- The comment leaves a world that differs from the one before it in nothing but the clock.
  have hagree : World.Agree view w₃ w₁ := by
    cases depth with
    | zero =>
      rw [evalNode_zero] at hcomment
      cases hcomment
    | succ depth =>
      have halike : Alike view (evalNode host .unlimited (depth + 1) (.comment content m)) (pure "") :=
        alike_evalNode_of_pure h rfl
      have hworld := (halike w₁ w₁ (.refl view w₁)).2
      rwa [hcomment] at hworld
  obtain ⟨hresult, -⟩ := (congruence_alike h).evalNodes behind depth w₃ w₁ hagree
  rw [hbehind] at hresult
  rcases hbehind' : evalNodes host .unlimited depth behind w₁ with ⟨r, u⟩
  obtain rfl : .ok more = r := by simpa only [hbehind'] using hresult
  refine ⟨before ++ more, u, ?_, ?_⟩
  · rw [Eval.bind_of_ok hfront, Eval.bind_of_ok hbehind']
    rfl
  · simp only [List.length_append, List.length_cons]
    omega

theorem acts_ne_without_comment (h : ClockApart host view) {text : String}
    (hrun : evalNode host .unlimited depth (.tag name (front ++ .comment content m :: behind) n) w =
      (.ok text, v)) (n' : Nat) :
    acts (evalNode host .unlimited depth (.tag name (front ++ behind) n') w).2.events ≠
      acts v.events := by
  cases depth with
  | zero =>
    rw [evalNode_zero] at hrun
    cases hrun
  | succ depth =>
    obtain ⟨binding, texts, u, hname, hargs, hwith⟩ := exists_texts_of_tag hrun
    obtain ⟨others, u', hothers, hlength⟩ := exists_texts_without_comment h hargs
    rw [acts_of_tag hname hothers n', hwith]
    intro hsame
    have htexts : others = texts := (Event.called.inj (List.cons.inj hsame).1).2
    rw [htexts] at hlength
    omega

/-- Simplification keeps the meaning of trees, as far as the clock is not looked at: a simpler tree
gives the same text or fails alike, with the same calls and declarations, and leaves the same bindings
and the same state. Among the arguments of a tag a comment counts as a text without characters;
there it is never idle, for without it the tag is called with fewer arguments. -/
theorem simplification_keeps_meaning (hclock : ClockApart host view) :
    (∀ t t', Relation.ReflTransGen (Simplifies false) t t' →
      t'.nesting ≤ t.nesting ∧
      (∀ depth, t.nesting < depth →
        Alike view (evalNode host .unlimited depth t) (evalNode host .unlimited depth t')) ∧
      (t.nesting < depthLimit → Alike view (evaluate host none t) (evaluate host none t'))) ∧
    ∀ (name content : String) (front behind : List Node) (m n n' depth : Nat),
      let tag := Node.tag name (front ++ .comment content m :: behind) n
      (∀ quote k, Alike view (evalNode host .unlimited depth tag)
        (evalNode host .unlimited depth (.tag name (front ++ .quoted quote "" k :: behind) n'))) ∧
      ∀ w text v, evalNode host .unlimited depth tag w = (.ok text, v) →
        acts (evalNode host .unlimited depth (.tag name (front ++ behind) n') w).2.events ≠
          acts v.events := by
  constructor
  · intro t t' hsteps
    have hmeaning : ∀ depth, t.nesting < depth →
        Alike view (evalNode host .unlimited depth t) (evalNode host .unlimited depth t') :=
      fun depth hdepth => (alike_of_simplified hclock hsteps hdepth).2
    exact ⟨(alike_of_simplified hclock hsteps (Nat.lt_succ_self _)).1, hmeaning,
      fun hdepth => (hmeaning depthLimit hdepth).mapError _⟩
  · intro name content front behind m n n' depth tag
    exact ⟨fun quote k => alike_comment_argument hclock quote k n',
      fun w text v hrun => acts_ne_without_comment hclock hrun n'⟩

/-- A comment, a template within a template, an empty text and a template for an argument, one after
another; the comment among the arguments of the built-in tag keeps it from failing. -/
theorem simplified_echo_means_the_same :
    let t : Node := .template [.comment "c" 4,
      .template [.text "a" 1, .tag "echo" [.template [.text "b" 1, .text "c" 1] 4] 11] 14,
      .text "" 0] 18
    let t' : Node := .template [.text "a" 1, .tag "echo" [.quoted .single "bc" 4] 11] 12
    let w : World Host.Tag Host.Stage :=
      ⟨.initial [("echo", .host ⟨"echo", .echo⟩)], ⟨.int 0, .int 1, .cycle [] 0, [], []⟩, []⟩
    (evaluate Host.scripted none t w).1 = (evaluate Host.scripted none t' w).1 ∧
      acts (evaluate Host.scripted none t w).2.events =
        acts (evaluate Host.scripted none t' w).2.events ∧
      acts (evalNode Host.scripted .unlimited 2 (.tag "join" [] 6) w).2.events ≠
        acts (evalNode Host.scripted .unlimited 2 (.tag "join" [.comment "c" 4] 11) w).2.events := by
  intro t t' w
  obtain ⟨hsimplified, hcomment⟩ := simplification_keeps_meaning Host.clockApart_scripted
  have hsteps : Relation.ReflTransGen (Simplifies false) t t' := by
    refine .head (.tidy (.comment "c" 4 _) 18 12) ?_
    refine .head (.tidy (.splice _ 14 _) 12 12) ?_
    refine .head (.tidy (.behind _ (.behind _ (.empty 0 []))) 12 12) ?_
    exact .single (.child (.argument (.requote [("b", 1), ("c", 1)] .single 4 4) "echo" [] [] 11 11)
      [.text "a" 1] [] 12 12)
  obtain ⟨-, -, hevaluate⟩ := hsimplified t t' hsteps
  obtain ⟨hresult, hworld⟩ := hevaluate (by decide) w w (.refl _ w)
  have hjoin : (evalNode Host.scripted .unlimited 2 (.tag "join" [.comment "c" 4] 11) w).1 =
      .ok "" := rfl
  exact ⟨hresult, hworld.acts, (hcomment "join" "c" [] [] 4 11 6 2).2 w "" _ (Prod.ext hjoin rfl)⟩

end TagTemplate.Evaluation
