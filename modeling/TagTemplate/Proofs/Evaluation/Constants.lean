import TagTemplate.Proofs.Evaluation.Sessions
import TagTemplate.Proofs.Template.Following
import TagTemplate.Proofs.Template.Printer

/-! Names bound to a text. Unless a tag sees the order in which names were bound, a source does the
same whether a name is bound before it is run or by a declaration that stands in front of it. -/
namespace TagTemplate.Evaluation
open Template Grammar

/-- The source of a declaration whose value stands in single quotes, with an escape in front of every
escape and every single quote in it. -/
def declarationSource (name value : String) : String :=
  String.ofList (tagOpen :: (name.toList ++ assignMark :: Quote.single.mark ::
    (value.toList.flatMap (escaped Quote.single.delimiters) ++ [Quote.single.mark, tagClose])))

def quotedValue (value : String) : Grammar.Value :=
  .quoted .single (value.toList.map (letter Quote.single.delimiters))

def declaring (name : Name) (value : String) : Document :=
  ⟨[.item (.tag (.declaration noSpaces name noSpaces noSpaces (quotedValue value) noSpaces))], false⟩

theorem source_declaring (name : Name) (value : String) :
    (declaring name value).source = declarationSource name.text value := by
  simp [declaring, quotedValue, Document.source, Document.spelling, Section.spelling,
    Item.spelling, Value.spelling, Value.wrap, Value.opening, Value.closing, Value.body, Tag.body,
    noSpaces, escapeIf, declarationSource, List.flatMap_map, Name.text]

theorem nodes_declaring (name : Name) (value : String) :
    (declaring name value).nodes =
      [.declaration name.text (some (.quoted .single value (quotedValue value).spelling.length))
        (declaring name value).spelling.length] := by
  have hvalue : (quotedValue value).node =
      .quoted .single value (quotedValue value).spelling.length := by
    simp [quotedValue, Value.node, List.flatMap_map]
  have hlength : (declaring name value).spelling.length =
      (Value.tag (.declaration noSpaces name noSpaces noSpaces (quotedValue value)
        noSpaces)).spelling.length := by
    simp [declaring, Document.spelling, Section.spelling, Item.spelling, escapeIf]
  rw [hlength, ← hvalue]
  rfl

variable {H σ τ : Type} {host : Host H σ} {view : σ → τ}

/-- A declaration of a text does nothing but bind its name. -/
theorem alike_documentText_declaration (hclock : ClockApart host view) (name value : String)
    (m n : Nat) :
    Alike view (documentText host [.declaration name (some (.quoted .single value m)) n])
      (Eval.declare name value >>= fun _ => pure "") := by
  have hvalue : ∀ depth, Alike view
      (evalNode host .unlimited (depth + 1) (.quoted .single value m)) (pure value) :=
    fun depth => alike_evalNode_of_pure hclock rfl
  have hnode : ∀ depth, Alike view
      (evalNode host .unlimited (depth + 2) (.declaration name (some (.quoted .single value m)) n))
      (Eval.declare name value >>= fun _ => pure "") := by
    intro depth
    rw [evalNode_succ, ← pure_bind () fun _ => (Eval.declare name value >>= fun _ => pure "")]
    refine (alike_checkTime hclock).bind fun _ => ?_
    rw [← pure_bind value fun text => (Eval.declare name text >>= fun _ => pure "")]
    exact (hvalue depth).bind fun text =>
      ((congruence_alike hclock).declare name text).bind fun _ =>
        (callCongruence_alike hclock).pure ""
  have hall := ((hnode (depthLimit - 3)).mapError EvalError.acrossTemplate).mapError
    EvalError.reported
  rw [documentText, joinedText_singleton]
  exact hall

theorem keeps_documentText {S : World H σ → World H σ → Prop}
    (h : Congruence host .unlimited .unlimited (Keeps S)) (nodes : List Node) :
    Keeps S (documentText host nodes) (documentText host nodes) :=
  (((h.evalNodes nodes _).bind fun _ => h.pure _).mapError _).mapError _

theorem abreast_constant (view : σ → τ) (given : List (String × Binding H)) (state : σ)
    {name : String} (hfree : name ∉ (Bindings.builtins (H := H)).map Prod.fst) (value : String) :
    World.Abreast view [] [.bound name value]
      ⟨.initial (given ++ [(name, .constant value)]), state, []⟩
      (Eval.declare name value ⟨.initial given, state, []⟩).2 :=
  ⟨Bindings.same_initial_append given hfree (.constant value), rfl, [], rfl, rfl⟩

theorem alike_documentText_append (hclock : ClockApart host view) (name : Name) (value : String)
    (e : Document) :
    Alike view (documentText host ((declaring name value).append e).nodes)
      (Eval.declare name.text value >>= fun _ => documentText host e.nodes) := by
  have hdocument : Alike view (documentText host e.nodes) (documentText host e.nodes) :=
    keeps_documentText (congruence_alike hclock) e.nodes
  have hfront := (alike_documentText_declaration hclock name.text value
    (quotedValue value).spelling.length (declaring name value).spelling.length).bind
      fun text => alike_append_pure hclock hdocument text
  rw [Document.nodes_append rfl, documentText_append, nodes_declaring]
  simpa only [bind_assoc, pure_bind, String.empty_append, bind_pure] using hfront

theorem evaluate_append (hclock : ClockApart host view) (horder : OrderApart host view)
    (given : List (String × Binding H)) (state : σ) {name : Name}
    (hfree : name.text ∉ (Bindings.builtins (H := H)).map Prod.fst) (value : String)
    (e : Document) :
    let run := evaluate host none e.tree
      ⟨.initial (given ++ [(name.text, .constant value)]), state, []⟩
    let run' := evaluate host none ((declaring name value).append e).tree
      ⟨.initial given, state, []⟩
    run.1 = run'.1 ∧ World.Abreast view [] [.bound name.text value] run.2 run'.2 := by
  intro run run'
  obtain ⟨hresult, hworld⟩ := alike_evaluate_mergeTexts hclock e.nodes e.spelling.length _ _
    (.refl view ⟨.initial (given ++ [(name.text, .constant value)]), state, []⟩)
  obtain ⟨hmiddle, habreast⟩ := keeps_documentText
    (congruence_abreast hclock horder [] [.bound name.text value]) e.nodes _ _
    (abreast_constant view given state hfree value)
  obtain ⟨hresult', hworld'⟩ := ((alike_evaluate_mergeTexts hclock
    ((declaring name value).append e).nodes ((declaring name value).append e).spelling.length).trans
      (alike_documentText_append hclock name value e)) _ _
      (.refl view ⟨.initial given, state, []⟩)
  exact ⟨(hresult.trans hmiddle).trans hresult'.symm,
    (habreast.agree_trans hworld).trans_agree hworld'.symm⟩

theorem mapError_eval_ne_read (result : Except EvalError String) (e : ReadError) :
    result.mapError RunError.eval ≠ .error (.read e) := by
  cases result <;> nofun

/-- Where no tag sees the order in which names were bound, a source does the same whether a name is
bound to a text beforehand or by a declaration in front of it: it gives the same text, or fails alike,
having made the same calls and declarations, and leaves the same mapping. One that cannot be read is
refused alike, at the same character. -/
theorem constant_eq_declaration (hclock : ClockApart host view) (horder : OrderApart host view)
    (given : List (String × Binding H)) (state : σ) {name : String} (hname : Node.isName name)
    (hfree : name ∉ (Bindings.builtins (H := H)).map Prod.fst) (value source : String) :
    let front := declarationSource name value
    let bound := render host (given ++ [(name, .constant value)]) none state source
    let declared := render host given none state (front ++ source)
    ((∀ e, bound.1 ≠ .error (.read e)) →
      declared.1 = bound.1 ∧
      acts declared.2.world.events = acts bound.2.world.events ++ [.bound name value] ∧
      bound.2.world.bindings.Same declared.2.world.bindings ∧
      bound.2.names = declared.2.names ∧
      view bound.2.world.state = view declared.2.world.state) ∧
    ∀ e, bound.1 = .error (.read e) → ∃ s s' : SyntaxError, e = .malformed s ∧
      declared.1 = .error (.read (.malformed s')) ∧ s.Postponed front.length s' ∧
      bound.2.world.events = [] ∧ declared.2.world.events = [] := by
  intro front bound declared
  obtain ⟨named, -, rfl⟩ := exists_name hname
  have hdeep : Node.deepest (declaring named value).nodes ≤ nestingLimit := by
    simp [nodes_declaring, Node.deepest, Node.nesting, nestingLimit]
  rcases compile_source_append (declaring named value) rfl hdeep source with
    ⟨e, htree, htree'⟩ | ⟨s, s', hs, hs', hpostponed⟩
  · obtain ⟨hresult, habreast⟩ := evaluate_append hclock horder given state hfree value e
    rw [source_declaring] at htree'
    have hbound : bound = _ := Session.render_of_tree htree _ none state
    have hdeclared : declared = _ := Session.render_of_tree htree' _ none state
    obtain ⟨since, hacts, hacts'⟩ := habreast.acts
    rw [hbound, hdeclared, ← hresult]
    refine ⟨fun _ => ⟨rfl, ?_, habreast.bindings, habreast.bindings.names, habreast.state⟩, ?_⟩
    · rw [hacts, hacts', List.append_nil]
    · exact fun e he => absurd he (mapError_eval_ne_read _ e)
  · rw [source_declaring] at hs' hpostponed
    have hbound : bound = _ := Session.run_of_refusal hs _
    have hdeclared : declared = _ := Session.run_of_refusal hs' _
    rw [hbound, hdeclared]
    refine ⟨fun hread => absurd rfl (hread (.malformed s)), ?_⟩
    rintro _ ⟨⟩
    exact ⟨s, s', rfl, rfl, hpostponed, rfl, rfl⟩

/-- The value holds both what stands in the quotes and the escape; the source declares the name anew
behind its first use. -/
theorem quoted_constant_declared :
    let given : List (String × Binding Host.Tag) := [("greet", .host ⟨"greet", .echo⟩)]
    let state : Host.Stage := ⟨.int 0, .int 1, .cycle [] 0, [], []⟩
    let source := "\x7bgreet \x7bx\x7d\x7d, \x7bx='now'\x7d\x7bx\x7d"
    let bound := render Host.scripted (given ++ [("x", .constant "it's \\")]) none state source
    let declared := render Host.scripted given none state
      ("\x7bx='it\\'s \\\\'\x7d" ++ source)
    declared.1 = bound.1 ∧ declared.2.names = bound.2.names := by
  intro given state source bound declared
  have hname : Node.isName "x" := by decide
  have hfree : "x" ∉ (Bindings.builtins (H := Host.Tag)).map Prod.fst := by decide
  have hread : ∀ e, bound.1 ≠ .error (.read e) := by
    intro e
    obtain ⟨tree, htree⟩ : ∃ tree, compile source = .ok tree := by
      simp only [source]
      exact ⟨_, rfl⟩
    have hbound : bound = _ := Session.render_of_tree htree _ none state
    rw [hbound]
    exact mapError_eval_ne_read _ e
  obtain ⟨hdeclared, -, -, hnames, -⟩ := (constant_eq_declaration Host.clockApart_scripted
    Host.orderApart_scripted given state hname hfree "it's \\" source).1 hread
  exact ⟨hdeclared, hnames.symm⟩

def listing : Host Unit Unit where
  now s := (0, s)
  draw s := (.ok 0, s)
  call _ _ bs s := (.ok (",".intercalate (bs.entries.map Prod.fst)), bs, s)

/-- What is bound beforehand stands in front of the built-in tags, what is declared behind them. -/
theorem listed_names_differ :
    let given : List (String × Binding Unit) := [("ls", .host ())]
    let bound := render listing (given ++ [("n", .constant "v")]) none () "\x7bls\x7d"
    let declared := render listing given none () (declarationSource "n" "v" ++ "\x7bls\x7d")
    Node.isName "n" ∧ "n" ∉ (Bindings.builtins (H := Unit)).map Prod.fst ∧
    bound.1 = .ok "ls,n,join,random,randomNumber" ∧
    declared.1 = .ok "ls,join,random,randomNumber,n" := by
  intro given bound declared
  let call : Node := .tag "ls" [] 4
  let value : Node := .quoted .single "v" 3
  have hone : compile "\x7bls\x7d" = .ok (.template [call] 4) := rfl
  have htwo : compile (declarationSource "n" "v" ++ "\x7bls\x7d") =
      .ok (.template [.declaration "n" (some value) 7, call] 11) := rfl
  have hbound : bound = _ := Session.render_of_tree hone _ none ()
  have hdeclared : declared = _ := Session.render_of_tree htwo _ none ()
  rw [hbound, hdeclared]
  exact ⟨by decide, by decide, rfl, rfl⟩

end TagTemplate.Evaluation
