import Mathlib.Logic.Function.Iterate
import TagTemplate.Proofs.Evaluation.Acting
import TagTemplate.Proofs.Evaluation.Sessions
import TagTemplate.Proofs.Template.Quoting

/-! What literals give. A text with escapes in it is evaluated to the text, as a document, between
template marks and between quotes, and nothing is looked at for it but the clock. -/
namespace TagTemplate.Evaluation
open Template Grammar

variable {H σ : Type}

def World.ticked (host : Host H σ) (count : Nat) (w : World H σ) : World H σ :=
  (fun v => (Eval.now host v).2)^[count] w

variable {host : Host H σ} {depth : Nat} {w : World H σ} {name : String}

theorem World.bindings_ticked (host : Host H σ) (count : Nat) (w : World H σ) :
    (w.ticked host count).bindings = w.bindings := by
  induction count generalizing w with
  | zero => rfl
  | succ count ih => exact ih (Eval.now host w).2

theorem World.acts_ticked (host : Host H σ) (count : Nat) (w : World H σ) :
    Evaluation.acts (w.ticked host count).events = Evaluation.acts w.events := by
  induction count generalizing w with
  | zero => rfl
  | succ count ih => exact ih (Eval.now host w).2

theorem evalNode_unlimited_succ (host : Host H σ) (depth : Nat) (node : Node) (w : World H σ) :
    evalNode host .unlimited (depth + 1) node w =
      evalInside host .unlimited depth node (w.ticked host 1) := by
  rw [evalNode_succ, Eval.bind_of_ok (checkTime_unlimited host w)]
  rfl

theorem evalNodes_singleton_of_ok {node : Node} {text : String} {v : World H σ}
    (h : evalNode host .unlimited depth node w = (.ok text, v)) :
    evalNodes host .unlimited depth [node] w = (.ok [text], v) := by
  rw [evalNodes_cons, Eval.bind_of_ok h]
  simp only [evalNodes, pure_bind]
  rfl

theorem evalInside_textNodes (host : Host H σ) (depth : Nat) (s : String) (m n : Nat)
    (w : World H σ) :
    ∃ count, evalInside host .unlimited (depth + 1) (.template (textNodes s m) n) w =
      (.ok s, w.ticked host count) := by
  by_cases hempty : s = ""
  · subst hempty
    exact ⟨0, by simp [textNodes, evalInside, evalNodes, Eval.mapError_pure]; rfl⟩
  · have htext : evalNode host .unlimited (depth + 1) (.text s m) w = (.ok s, w.ticked host 1) :=
      evalNode_unlimited_succ host depth (.text s m) w
    have hnodes := Eval.mapError_of_ok (k := EvalError.acrossTemplate)
      (evalNodes_singleton_of_ok htext)
    refine ⟨1, ?_⟩
    rw [textNodes, if_neg hempty, evalInside, Eval.bind_of_ok hnodes]
    simp [String.join_cons]
    rfl

theorem evalNode_literal (host : Host H σ) (depth : Nat) (l : Literal) (s : String) (w : World H σ) :
    ∃ count, evalNode host .unlimited (depth + 2) (l.node s) w = (.ok s, w.ticked host count) := by
  rw [evalNode_unlimited_succ]
  cases l with
  | quoted quote => exact ⟨1, rfl⟩
  | template =>
    obtain ⟨count, hcount⟩ := evalInside_textNodes host depth s _ _ (w.ticked host 1)
    exact ⟨count + 1, hcount⟩

def calledSource (name : String) (l : Literal) (s : String) : String :=
  String.ofList (tagOpen :: (name.toList ++ ' ' :: (l.source s ++ [tagClose])))

def declaredSource (name : String) (l : Literal) (s : String) : String :=
  String.ofList (tagOpen :: (name.toList ++ assignMark :: (l.source s ++
    tagClose :: tagOpen :: (name.toList ++ [tagClose]))))

def calledDocument (name : Name) (l : Literal) (s : String) : Document :=
  ⟨[.item (.tag (.call noSpaces name oneSpace (l.value s) [] noSpaces))], false⟩

def declaredDocument (name : Name) (l : Literal) (s : String) : Document :=
  ⟨[.item (.tag (.declaration noSpaces name noSpaces noSpaces (l.value s) noSpaces)),
    .item (.tag (.bare noSpaces name noSpaces))], false⟩

def rootDocument (s : String) : Document :=
  ⟨[.template (textItems s)], false⟩

theorem source_calledDocument (n : Name) (l : Literal) (s : String) :
    (calledDocument n l s).source = calledSource n.text l s := by
  have hvalue := l.spelling_value s
  rw [Value.spelling] at hvalue
  simp [calledDocument, Document.source, Document.spelling, Section.spelling, Item.spelling,
    Value.spelling, Value.wrap, Value.opening, Value.closing, Value.body, Tag.body, noSpaces,
    oneSpace, escapeIf, calledSource, Name.text, ← hvalue, Argument.spellings]

theorem source_declaredDocument (n : Name) (l : Literal) (s : String) :
    (declaredDocument n l s).source = declaredSource n.text l s := by
  have hvalue := l.spelling_value s
  rw [Value.spelling] at hvalue
  simp [declaredDocument, Document.source, Document.spelling, Section.spelling, Item.spelling,
    Value.spelling, Value.wrap, Value.opening, Value.closing, Value.body, Tag.body, noSpaces,
    escapeIf, declaredSource, Name.text, ← hvalue]

theorem source_rootDocument (s : String) :
    (rootDocument s).source = String.ofList (Literal.template.source s) := by
  simp [rootDocument, Document.source, Document.spelling, Section.spelling, escapeIf,
    ← Literal.spelling_value, Literal.value]

theorem exists_nodes_calledDocument (n : Name) (l : Literal) (s : String) :
    ∃ k, (calledDocument n l s).nodes = [.tag n.text [l.node s] k] := by
  rw [← Literal.node_value]
  exact ⟨_, rfl⟩

theorem exists_nodes_declaredDocument (n : Name) (l : Literal) (s : String) :
    ∃ k m, (declaredDocument n l s).nodes =
      [.declaration n.text (some (l.node s)) k, .tag n.text [] m] := by
  rw [← Literal.node_value]
  exact ⟨_, _, rfl⟩

theorem nodes_rootDocument (s : String) : (rootDocument s).nodes = [Literal.template.node s] := by
  rw [← Literal.node_value]
  rfl

variable {given : List (String × Binding H)} {state : σ} {v : World H σ}

theorem render_document {d : Document} {nodes : List Node} (hnodes : d.nodes = nodes)
    (hmerged : Node.mergeTexts nodes = nodes) (hdeep : Node.deepest nodes ≤ nestingLimit)
    (host : Host H σ) (given : List (String × Binding H)) (state : σ) :
    let run := documentText host nodes (World.ticked host 1 ⟨.initial given, state, []⟩)
    let rendered := render host given none state d.source
    rendered.1 = run.1.mapError .eval ∧ rendered.2.world = run.2 := by
  intro run rendered
  have hnesting : d.tree.nesting ≤ nestingLimit + 1 := by
    rw [Document.nesting_tree, hnodes]
    omega
  have hevaluate : evaluate host none d.tree ⟨.initial given, state, []⟩ = run := by
    rw [Document.tree_eq, hnodes, hmerged, evaluate_template,
      Eval.bind_of_ok (checkTime_unlimited host _)]
    rfl
  have hrendered : rendered = _ := Session.render_of_tree (compile_source hnesting) given none state
  rw [hrendered, hevaluate]
  exact ⟨rfl, rfl⟩

theorem acts_of_called (host : Host H σ) (depth : Nat) {binding : Binding H} (l : Literal)
    (s : String) (k : Nat) (hname : w.bindings.resolve? name = some binding) :
    acts (evalNode host .unlimited (depth + 3) (.tag name [l.node s] k) w).2.events =
      .called name [s] :: acts w.events := by
  obtain ⟨count, hliteral⟩ := evalNode_literal host depth l s (w.ticked host 1)
  rw [acts_of_tag hname (evalNodes_singleton_of_ok hliteral), World.acts_ticked, World.acts_ticked]

theorem evalNode_declared (host : Host H σ) (depth : Nat) (name : String) (l : Literal) (s : String)
    (k : Nat) (w : World H σ) :
    ∃ count, evalNode host .unlimited (depth + 3) (.declaration name (some (l.node s)) k) w =
      (.ok "", (Eval.declare name s (w.ticked host count)).2) := by
  obtain ⟨count, hliteral⟩ := evalNode_literal host depth l s (w.ticked host 1)
  refine ⟨count + 1, ?_⟩
  rw [evalNode_unlimited_succ, evalInside, Eval.bind_of_ok hliteral]
  rfl

theorem evalNode_constant (host : Host H σ) (depth : Nat) {s : String} (k : Nat)
    (hname : w.bindings.resolve? name = some (.constant s)) :
    ∃ v, evalNode host .unlimited (depth + 1) (.tag name [] k) w = (.ok s, v) ∧
      v.bindings = w.bindings := by
  have hresolve : resolve name (w.ticked host 1) = (.ok (.constant s), w.ticked host 1) := by
    rw [resolve_apply, World.bindings_ticked, hname]
  rw [evalNode_unlimited_succ, evalInside, Eval.bind_of_ok hresolve]
  exact ⟨_, rfl, rfl⟩

theorem joinedText_declared (host : Host H σ) (depth : Nat) (name : String) (l : Literal) (s : String)
    (k m : Nat) (w : World H σ) :
    ∃ v, joinedText host (depth + 3)
        [.declaration name (some (l.node s)) k, .tag name [] m] w = (.ok s, v) ∧
      v.bindings.find? name = some (.constant s) := by
  obtain ⟨count, hdeclared⟩ := evalNode_declared host depth name l s k w
  let bound : World H σ := (Eval.declare name s (w.ticked host count)).2
  have hfind : bound.bindings.find? name = some (.constant s) :=
    (Bindings.find?_insert _ name name (.constant s)).trans (if_pos rfl)
  have hname : bound.bindings.resolve? name = some (.constant s) := by
    rw [Bindings.resolve?_of_ne_absent (by simp [hfind]), hfind]
  obtain ⟨v, hused, hbindings⟩ := evalNode_constant host (depth + 2) m hname
  refine ⟨v, ?_, by rw [hbindings, hfind]⟩
  rw [joinedText_cons, joinedText_singleton, Eval.bind_of_ok hdeclared, Eval.bind_of_ok hused,
    String.empty_append]
  rfl

theorem render_encoded (host : Host H σ) (given : List (String × Binding H)) (state : σ)
    (s : String) :
    (render host given none state (String.ofList (encoded templateDelimiters s))).1 = .ok s := by
  let n := (encoded templateDelimiters s).length
  let w : World H σ := ⟨.initial given, state, []⟩
  obtain ⟨count, hinside⟩ := evalInside_textNodes host (depthLimit - 2) s n n (w.ticked host 1)
  have hevaluate : evaluate host none (.template (textNodes s n) n) w =
      (.ok s, (w.ticked host 1).ticked host count) :=
    Eval.mapError_of_ok ((evalNode_unlimited_succ host (depthLimit - 1) _ w).trans hinside)
  rw [Session.render_of_tree (compile_encoded s), hevaluate]
  rfl

theorem render_root (host : Host H σ) (given : List (String × Binding H)) (state : σ) (s : String) :
    (render host given none state (String.ofList (Literal.template.source s))).1 = .ok s := by
  obtain ⟨count, hliteral⟩ := evalNode_literal host (depthLimit - 3) .template s
    (World.ticked host 1 ⟨.initial given, state, []⟩)
  have hsingle : joinedText host (depthLimit - 1) [Literal.template.node s] = _ :=
    joinedText_singleton _
  have hrun : documentText host [Literal.template.node s] _ = _ :=
    documentText_of_ok (hsingle ▸ hliteral)
  have hdeep : Node.deepest [Literal.template.node s] ≤ nestingLimit := by
    simp [Node.deepest, Literal.nesting_node, nestingLimit]
  rw [← source_rootDocument, (render_document (nodes_rootDocument s) rfl hdeep host given state).1, hrun]
  rfl

theorem render_called (host : Host H σ) (given : List (String × Binding H)) (state : σ) (n : Name)
    (l : Literal) (s : String) {binding : Binding H}
    (hname : (Bindings.initial given).resolve? n.text = some binding) :
    acts (render host given none state (calledSource n.text l s)).2.world.events =
      [.called n.text [s]] := by
  let w : World H σ := ⟨.initial given, state, []⟩
  obtain ⟨k, hnodes⟩ := exists_nodes_calledDocument n l s
  have hdeep : Node.deepest [Node.tag n.text [l.node s] k] ≤ nestingLimit := by
    simp [Node.deepest, Node.nesting, l.nesting_node, nestingLimit]
  have hname' : (w.ticked host 1).bindings.resolve? n.text = some binding := by
    rwa [World.bindings_ticked]
  have hacts := acts_of_called host (depthLimit - 4) l s k hname'
  rw [World.acts_ticked] at hacts
  rw [← source_calledDocument, (render_document hnodes rfl hdeep host given state).2, documentText,
    joinedText_singleton]
  exact hacts

theorem render_declared (host : Host H σ) (given : List (String × Binding H)) (state : σ) (n : Name)
    (l : Literal) (s : String) :
    let declared := render host given none state (declaredSource n.text l s)
    declared.1 = .ok s ∧ declared.2.world.bindings.find? n.text = some (.constant s) := by
  intro declared
  obtain ⟨k, m, hnodes⟩ := exists_nodes_declaredDocument n l s
  have hdeep : Node.deepest [Node.declaration n.text (some (l.node s)) k, Node.tag n.text [] m] ≤
      nestingLimit := by
    simp [Node.deepest, Node.nesting, l.nesting_node, nestingLimit]
  obtain ⟨v, hjoined, hfind⟩ := joinedText_declared host (depthLimit - 4) n.text l s k m
    (World.ticked host 1 ⟨.initial given, state, []⟩)
  have hrun := documentText_of_ok hjoined
  obtain ⟨htext, hworld⟩ := render_document hnodes rfl hdeep host given state
  rw [source_declaredDocument] at htext hworld
  constructor
  · exact htext.trans (congrArg (fun run => run.1.mapError RunError.eval) hrun)
  · rw [hworld.trans (congrArg Prod.snd hrun), hfind]

/-- Texts with escapes in them are what they were. With an escape in front of every character that is
special there, any text compiles and is rendered to itself. Between template marks or quotes it is
read wherever a value may stand, to the closing mark and not behind it, as a node that holds the text
and stands for all the characters. The node gives the text, whether a tag takes it, a name is bound
to it or it stands by itself. -/
theorem quoting_is_safe (s : String) :
    (let cs := encoded templateDelimiters s
     compile (String.ofList cs) = .ok (.template (textNodes s cs.length) cs.length) ∧
      ∀ (H σ : Type) (host : Host H σ) given state,
        (render host given none state (String.ofList cs)).1 = .ok s) ∧
    ∀ l : Literal,
      (l.node s).length = (encoded l.special s).length + 2 ∧
      (∀ front rest origin, l.production.parse (front ++ l.source s ++ rest) origin true front.length =
        .ok (l.node s)) ∧
      (∀ (limit : Nat) holder n outer delimited (index : Int) rest,
        Awaits (delimited || !outer.isEmpty) holder l → outer.length < limit →
        Reader.read limit ⟨.holder holder, n, outer, delimited⟩ index (l.source s ++ rest) =
          Reader.read limit
            ⟨.holder (holder.receive (l.node s)), n + (l.node s).length, outer, delimited⟩
            (index + (l.node s).length) rest) ∧
      ∀ (H σ : Type) (host : Host H σ),
        (∀ depth w, ∃ count,
          evalNode host .unlimited (depth + 2) (l.node s) w = (.ok s, w.ticked host count)) ∧
        ∀ given state,
          (l = .template →
            (render host given none state (String.ofList (l.source s))).1 = .ok s) ∧
          ∀ n : Name,
            (let declared := render host given none state (declaredSource n.text l s)
             declared.1 = .ok s ∧ declared.2.world.bindings.find? n.text = some (.constant s)) ∧
            ∀ binding, (Bindings.initial given).resolve? n.text = some binding →
              acts (render host given none state (calledSource n.text l s)).2.world.events =
                [.called n.text [s]] := by
  refine ⟨⟨compile_encoded s, fun H σ host given state => render_encoded host given state s⟩,
    fun l => ⟨l.length_node s, l.parse_source s, ?_, fun H σ host => ⟨?_, fun given state => ⟨?_, ?_⟩⟩⟩⟩
  · intro limit holder n outer delimited index rest hawaits hroom
    exact Literal.read_source s hawaits hroom index rest
  · exact fun depth w => evalNode_literal host depth l s w
  · rintro rfl
    exact render_root host given state s
  · exact fun n => ⟨render_declared host given state n l s,
      fun binding hname => render_called host given state n l s hname⟩

/-- The text holds the quote, a brace and, at its end, the escape. -/
theorem quoted_argument_is_safe :
    let s := "it's \x7b\\"
    let l := Literal.quoted .single
    let given : List (String × Binding Unit) := [("m", .host ())]
    Reader.read nestingLimit ⟨.holder (.tag "m" [] 1), 2, [(.template [] false, 0)], false⟩ 3
        (l.source s ++ [tagClose]) = .ok (.template [.tag "m" [.quoted .single s 11] 15] 15) ∧
      acts (render Visit.joining given none () "\x7bm 'it\\'s \x7b\\\\'\x7d").2.world.events =
        [.called "m" [s]] := by
  intro s l given
  obtain ⟨-, -, hread, hevaluate⟩ := (quoting_is_safe s).2 l
  constructor
  · have hsource : (l.source s).length = 11 := by decide
    have hnode : l.node s = .quoted .single s 11 := congrArg (Node.quoted .single s) hsource
    rw [hread nestingLimit _ 2 _ false 3 [tagClose] (.argument "m" [] Nat.one_pos l) (by decide),
      hnode]
    rfl
  · have hsource : calledSource "m" l s = "\x7bm 'it\\'s \x7b\\\\'\x7d" := by decide
    have hname : (Bindings.initial given).resolve? "m" = some (.host ()) := rfl
    obtain ⟨n, -, htext⟩ := exists_name (show Node.isName "m" by decide)
    have hcalled := (((hevaluate Unit Unit Visit.joining).2 given ()).2 n).2 (.host ())
    rw [htext, hsource] at hcalled
    exact hcalled hname

end TagTemplate.Evaluation
