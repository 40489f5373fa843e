import TagTemplate.Proofs.Evaluation.Silent

/-! What an evaluation does, in order. A tag is called, and a name bound, where the node ends in the
source. What has been done is always the beginning of what there is to do, and what names stand for
follows from it. -/
namespace TagTemplate.Template.Node

def isActor : Node → Bool
  | tag .. => true
  | declaration _ (some _) _ => true
  | _ => false

def actors (node : Node) : List Node :=
  (node.postOrder.map Prod.snd).filter isActor

def actorsOf (nodes : List Node) : List Node :=
  nodes.flatMap actors

theorem actors_eq (node : Node) :
    node.actors = actorsOf node.parts ++ if node.isActor then [node] else [] := by
  rw [actors, map_snd_postOrder, List.filter_append, List.filter_flatMap, List.filter_singleton]
  cases node.isActor <;> rfl

theorem actorsOf_cons (node : Node) (rest : List Node) :
    actorsOf (node :: rest) = node.actors ++ actorsOf rest :=
  List.flatMap_cons

def tagPlaces (node : Node) : List (Place × Node) :=
  node.postOrder.filter fun d => d.2.tagName?.isSome

theorem map_snd_tagPlaces (node : Node) :
    node.tagPlaces.map Prod.snd = node.actors.filter fun actor => actor.tagName?.isSome := by
  have hactor : ∀ node : Node, (node.tagName?.isSome && node.isActor) = node.tagName?.isSome := by
    intro node
    cases node <;> rfl
  simp only [tagPlaces, actors, List.filter_map, List.filter_filter, Function.comp_def, hactor]

theorem filterMap_tagPlaces_perm (node : Node) :
    (node.tagPlaces.filterMap fun d => d.2.tagName?).Perm node.tagNames := by
  have hplaces : node.tagPlaces.filterMap (fun d => d.2.tagName?) =
      node.postOrder.filterMap fun d => d.2.tagName? := by
    rw [tagPlaces, List.filterMap_filter]
    apply List.filterMap_congr
    intro d _
    cases d.2.tagName? <;> rfl
  rw [hplaces, tagNames, ← map_snd_documentOrder, List.filterMap_map]
  exact node.postOrder_perm_documentOrder.filterMap _

end TagTemplate.Template.Node

namespace TagTemplate.Evaluation
open Template

variable {H σ α β : Type}

/-- The event is what is done for the node: its tag is called with a text for each argument, or its
name is bound. -/
inductive ActOf : Node → Event → Prop where
  | called (name : String) (arguments : List Node) (length : Nat) {texts : List String} :
    texts.length = arguments.length → ActOf (.tag name arguments length) (.called name texts)
  | bound (name : String) (value : Node) (length : Nat) (text : String) :
    ActOf (.declaration name (some value) length) (.bound name text)

def CallLeaves (host : Host H σ) (texts : List String) (bs cs : Bindings H) : Prop :=
  cs = bs ∨ ∃ tag s, cs = (host.call tag texts bs s).2.1

inductive Leads (host : Host H σ) : List Event → Bindings H → Bindings H → Prop where
  | nothing (bs : Bindings H) : Leads host [] bs bs
  | read (seconds : Float) {events : List Event} {bs cs : Bindings H} :
    Leads host events bs cs → Leads host (.read seconds :: events) bs cs
  | called (name : String) (texts : List String) {events : List Event} {bs cs ds : Bindings H} :
    CallLeaves host texts bs cs → Leads host events cs ds →
      Leads host (.called name texts :: events) bs ds
  | bound (name value : String) {events : List Event} {bs cs : Bindings H} :
    Leads host events (bs.insert name (.constant value)) cs →
      Leads host (.bound name value :: events) bs cs

/-- The second world comes of the first by these events, in the order in which they happen. They are
what is done for the nodes, and account for the bindings. -/
structure World.Since (host : Host H σ) (v w : World H σ) (since : List Event) (done : List Node) :
    Prop where
  events : w.events = since.reverse ++ v.events
  acts : List.Forall₂ ActOf done (acts since)
  bindings : Leads host since v.bindings w.bindings

/-- However the computation ends, what it has done is done for the first of the nodes, and for all
of them where it succeeds. -/
def Performs (host : Host H σ) (nodes : List Node) (x : Eval H σ α) : Prop :=
  ∀ v r w, x v = (r, w) → ∃ since done rest, nodes = done ++ rest ∧
    World.Since host v w since done ∧ ∀ a, r = .ok a → rest = []

variable {host : Host H σ} {x : Eval H σ α} {f : α → Eval H σ β} {u v w : World H σ}
  {bs cs ds : Bindings H} {events later since next : List Event}
  {nodes others done more : List Node} {allowance : Allowance} {depth : Nat}

theorem Leads.append (h : Leads host events bs cs) (h' : Leads host later cs ds) :
    Leads host (events ++ later) bs ds := by
  induction h with
  | nothing => exact h'
  | read seconds _ ih => exact .read seconds (ih h')
  | called name texts hcall _ ih => exact .called name texts hcall (ih h')
  | bound name value _ ih => exact .bound name value (ih h')

def LeavesNames (host : Host H σ) : Prop :=
  ∀ tag texts bs s, (host.call tag texts bs s).2.1 = bs

def Bindings.after (bs : Bindings H) : List Event → Bindings H
  | [] => bs
  | .bound name value :: events => (bs.insert name (.constant value)).after events
  | _ :: events => bs.after events

namespace World.Since

theorem refl (host : Host H σ) (v : World H σ) : Since host v v [] [] :=
  ⟨rfl, .nil, .nothing _⟩

theorem trans (h : Since host u v since done) (h' : Since host v w next more) :
    Since host u w (since ++ next) (done ++ more) := by
  refine ⟨?_, ?_, h.bindings.append h'.bindings⟩
  · rw [h'.events, h.events, List.reverse_append, List.append_assoc]
  · rw [Evaluation.acts, List.filter_append]
    exact List.rel_append h.acts h'.acts

end World.Since

namespace Performs

theorem bind (h : Performs host nodes x)
    (hf : ∀ a, (∃ v w, x v = (.ok a, w)) → Performs host others (f a)) :
    Performs host (nodes ++ others) (x >>= f) := by
  intro v r w hw
  rcases hx : x v with ⟨e | a, u⟩
  · rw [Eval.bind_of_error hx] at hw
    cases hw
    obtain ⟨since, done, rest, rfl, hsince, -⟩ := h v _ _ hx
    exact ⟨since, done, rest ++ others, List.append_assoc .., hsince, nofun⟩
  · rw [Eval.bind_of_ok hx] at hw
    obtain ⟨since, done, rest, rfl, hsince, hall⟩ := h v _ _ hx
    obtain ⟨next, more, rest', rfl, hnext, hall'⟩ := hf a ⟨v, u, hx⟩ u r w hw
    rw [hall a rfl, List.append_nil]
    exact ⟨since ++ next, done ++ more, rest', (List.append_assoc ..).symm, hsince.trans hnext,
      hall'⟩

theorem then_idle (h : Performs host nodes x) (hf : ∀ a, Performs host [] (f a)) :
    Performs host nodes (x >>= f) := by
  rw [← List.append_nil nodes]
  exact h.bind fun a _ => hf a

theorem mapError (h : Performs host nodes x) (k : EvalError → EvalError) :
    Performs host nodes (.mapError k x) := by
  intro v r w hw
  rcases hx : x v with ⟨e | a, u⟩
  · rw [Eval.mapError_of_error hx] at hw
    cases hw
    obtain ⟨since, done, rest, hnodes, hsince, -⟩ := h v _ _ hx
    exact ⟨since, done, rest, hnodes, hsince, nofun⟩
  · rw [Eval.mapError_of_ok hx] at hw
    cases hw
    exact h v _ _ hx

theorem throw (e : EvalError) : Performs host nodes (.throw e : Eval H σ α) := by
  rintro v _ _ ⟨⟩
  exact ⟨[], [], nodes, rfl, .refl host v, nofun⟩

theorem of_idle (h : ∀ v, ∃ since, World.Since host v (x v).2 since []) : Performs host [] x := by
  intro v r w hw
  obtain ⟨since, hsince⟩ := h v
  rw [hw] at hsince
  exact ⟨since, [], [], rfl, hsince, fun _ _ => rfl⟩

theorem pure (a : α) : Performs host [] (pure a : Eval H σ α) :=
  of_idle fun v => ⟨[], .refl host v⟩

theorem resolve (name : String) : Performs host [] (resolve name : Eval H σ (Binding H)) := by
  refine of_idle fun v => ⟨[], ?_⟩
  rw [snd_resolve]
  exact .refl host v

theorem now (host : Host H σ) : Performs host [] (Eval.now host) :=
  of_idle fun v => ⟨[.read (host.now v.state).1], rfl, .nil, .read _ (.nothing _)⟩

theorem checkTime (host : Host H σ) (allowance : Allowance) :
    Performs host [] (checkTime host allowance) := by
  refine (now host).then_idle fun seconds => ?_
  split
  · exact throw _
  · exact pure ()

theorem declare (name text : String) (value : Node) (length : Nat) :
    Performs host [.declaration name (some value) length] (Eval.declare name text) := by
  rintro v _ _ ⟨⟩
  exact ⟨[.bound name text], [_], [], rfl,
    ⟨rfl, .cons (.bound name value length text) .nil, .bound name text (.nothing _)⟩,
    fun _ _ => rfl⟩

end Performs

theorem snd_callBuiltin (host : Host H σ) (b : Builtin) (arguments : List (Option String))
    (v : World H σ) :
    (callBuiltin host b arguments v).2 = v ∨
      (callBuiltin host b arguments v).2 = { v with state := (host.draw v.state).2 } := by
  cases h : b.outcome arguments with
  | error e => simp [callBuiltin, bind, Eval.ofBuiltin, h, Except.mapError]
  | ok outcome =>
    cases outcome with
    | text s => simp [callBuiltin, bind, Eval.ofBuiltin, h, Except.mapError, Pure.pure]
    | drawn f =>
      cases hdraw : (host.draw v.state).1 <;>
        simp [callBuiltin, bind, Eval.ofBuiltin, h, Except.mapError, Eval.draw, hdraw]

theorem snd_callBinding_builtin (host : Host H σ) (b : Builtin) (texts : List String)
    (v : World H σ) :
    (callBinding host (.builtin b) texts v).2 = (callBuiltin host b (texts.map some) v).2 := by
  rcases hb : callBuiltin host b (texts.map some) v with ⟨e | text, w⟩
  · rw [callBinding, Eval.bind_of_error hb]
  · rw [callBinding, Eval.bind_of_ok hb]
    rfl

theorem callLeaves_callBinding (host : Host H σ) (binding : Binding H) (texts : List String)
    (v : World H σ) :
    (callBinding host binding texts v).2.events = v.events ∧
      CallLeaves host texts v.bindings (callBinding host binding texts v).2.bindings := by
  cases binding with
  | absent => exact ⟨rfl, .inl rfl⟩
  | constant value => exact ⟨rfl, .inl rfl⟩
  | host tag => exact ⟨rfl, .inr ⟨tag, v.state, rfl⟩⟩
  | builtin b =>
    rw [snd_callBinding_builtin]
    rcases snd_callBuiltin host b (texts.map some) v with h | h <;>
      rw [h] <;> exact ⟨rfl, .inl rfl⟩

/-- A call is made once it is told of, whatever comes of it. -/
theorem performs_call (host : Host H σ) (binding : Binding H) (name : String)
    {arguments : List Node} (length : Nat) {texts : List String}
    (h : texts.length = arguments.length) :
    Performs host [.tag name arguments length]
      (Eval.record (.called name texts) >>= fun _ => callBinding host binding texts) := by
  intro v r w hw
  have hcall : callBinding host binding texts
      { v with events := .called name texts :: v.events } = (r, w) := hw
  obtain ⟨hevents, hbindings⟩ := callLeaves_callBinding host binding texts
    { v with events := .called name texts :: v.events }
  rw [hcall] at hevents hbindings
  exact ⟨[.called name texts], [_], [], rfl,
    ⟨hevents, .cons (.called name arguments length h) .nil,
      .called name texts hbindings (.nothing _)⟩,
    fun _ _ => rfl⟩

theorem performs_settle (host : Host H σ) (node : Node) :
    Performs host [] (settle node : Eval H σ (Option (Binding H))) := by
  refine .of_idle fun v => ⟨[], ?_⟩
  rw [snd_settle]
  exact .refl host v

theorem performs_conclude (host : Host H σ) (allowance : Allowance) (binding : Option (Binding H))
    {node : Node} {texts : List String} (h : texts.length = node.parts.length) :
    Performs host (if node.isActor then [node] else [])
      (conclude host allowance binding texts node) := by
  cases node with
  | tag name arguments length =>
    have hcall := performs_call host (binding.getD .absent) name length h
    rw [conclude, ← bind_assoc]
    refine hcall.then_idle fun result => ?_
    exact (Performs.checkTime host allowance).then_idle fun _ => .pure result
  | declaration name value length =>
    cases value with
    | none => exact .throw _
    | some value => exact (Performs.declare name _ value length).then_idle fun _ => .pure ""
  | foreign => exact .throw _
  | _ => exact .pure _

theorem scheme_performs (host : Host H σ) (allowance : Allowance) :
    Scheme host allowance allowance (fun node x _ => Performs host node.actors x)
      (fun nodes x _ => Performs host (Node.actorsOf nodes) x ∧
        ∀ v texts w, x v = (.ok texts, w) → texts.length = nodes.length) where
  tooDeep _ := .throw _
  node node x _ hparts := by
    obtain ⟨hperforms, hlength⟩ := hparts
    rw [Node.actors_eq]
    refine (Performs.checkTime host allowance).bind fun _ _ => ?_
    refine (performs_settle host node).bind fun binding _ => ?_
    refine (hperforms.mapError _).bind fun texts ⟨v, w, htexts⟩ => ?_
    exact performs_conclude host allowance binding (hlength v texts w (Eval.mapError_eq_ok htexts))
  nil := by
    refine ⟨.pure [], ?_⟩
    rintro v _ _ ⟨⟩
    rfl
  cons {node rest x _ xs _} hnode hrest := by
    obtain ⟨hperforms, hlength⟩ := hrest
    constructor
    · rw [Node.actorsOf_cons]
      exact hnode.bind fun text _ => hperforms.then_idle fun texts => .pure _
    · intro v texts w h
      obtain ⟨text, u, -, h⟩ := Eval.bind_eq_ok h
      obtain ⟨more, _, hmore, ⟨⟩⟩ := Eval.bind_eq_ok h
      rw [List.length_cons, List.length_cons, hlength _ _ _ hmore]

theorem performs_evaluate (host : Host H σ) (timeout : Option Number) (tree : Node) :
    Performs host tree.actors (evaluate host timeout tree) := by
  have hallow : Performs host [] (allow host timeout) := by
    cases timeout with
    | none => exact .pure _
    | some t =>
      refine (Performs.now host).then_idle fun seconds => ?_
      cases t.toFloat? with
      | none => exact .throw _
      | some milliseconds => exact .pure _
  exact hallow.bind fun allowance _ =>
    ((scheme_performs host allowance).evalNode tree depthLimit).mapError _

def Event.call? : Event → Option (String × List String)
  | .called name texts => some (name, texts)
  | _ => none

def calls (events : List Event) : List (String × List String) :=
  events.reverse.filterMap Event.call?

/-- The call is that of the tag at the place: it has its name, and a text for each argument. -/
def CallAt (d : Place × Node) (call : String × List String) : Prop :=
  ∃ arguments length, d.2 = .tag call.1 arguments length ∧ call.2.length = arguments.length

theorem ActOf.calls (h : List.Forall₂ ActOf done events) :
    List.Forall₂ (fun node call => CallAt ([], node) call)
      (done.filter fun node => node.tagName?.isSome) (events.filterMap Event.call?) := by
  induction h with
  | nil => exact .nil
  | cons hact _ ih =>
    cases hact with
    | called name arguments length hlength => exact .cons ⟨arguments, length, rfl, hlength⟩ ih
    | bound => exact ih

theorem filterMap_call?_acts (events : List Event) :
    (acts events).filterMap Event.call? = events.filterMap Event.call? := by
  rw [acts, List.filterMap_filter]
  apply List.filterMap_congr
  intro event _
  cases event <;> rfl

theorem Performs.calls {node : Node} (h : Performs host node.actors x) {r : Except EvalError α}
    (hw : x v = (r, w)) :
    ∃ since called uncalled, w.events = since ++ v.events ∧
      node.tagPlaces = called ++ uncalled ∧ List.Forall₂ CallAt called (calls since) ∧
      ∀ a, r = .ok a → uncalled = [] := by
  obtain ⟨since, done, rest, hactors, hsince, hall⟩ := h v r w hw
  have htags := node.map_snd_tagPlaces
  rw [hactors, List.filter_append] at htags
  obtain ⟨called, uncalled, hplaces, hcalled, huncalled⟩ := List.map_eq_append_iff.mp htags
  have hcalls := ActOf.calls hsince.acts
  rw [← hcalled, filterMap_call?_acts, List.forall₂_map_left_iff] at hcalls
  refine ⟨since.reverse, called, uncalled, hsince.events, hplaces, ?_, ?_⟩
  · rw [Evaluation.calls, List.reverse_reverse]
    exact hcalls
  · intro a ha
    rw [hall a ha, List.filter_nil, List.map_eq_nil_iff] at huncalled
    exact huncalled

theorem map_fst_of_callAt {tags : List (Place × Node)} {calls : List (String × List String)}
    (h : List.Forall₂ CallAt tags calls) :
    calls.map Prod.fst = tags.filterMap fun d => d.2.tagName? := by
  induction h with
  | nil => rfl
  | cons hcall _ ih =>
    obtain ⟨arguments, length, htag, -⟩ := hcall
    rw [List.map_cons, ih, List.filterMap_cons, htag]
    rfl

theorem inside_of_evalNode_ok {node : Node} {text : String}
    (h : evalNode host allowance depth node w = (.ok text, v)) :
    evalInside host allowance (depth - 1) node (Eval.now host w).2 = (.ok text, v) := by
  cases depth with
  | zero =>
    rw [evalNode_zero] at h
    cases h
  | succ depth =>
    rw [evalNode_succ] at h
    obtain ⟨_, u, hcheck, h⟩ := Eval.bind_eq_ok h
    obtain rfl : (Eval.now host w).2 = u := by rw [← snd_checkTime host allowance, hcheck]
    exact h

theorem text_of_constant {name value text : String} {arguments : List Node} {length : Nat}
    (hname : w.bindings.resolve? name = some (.constant value))
    (h : evalNode host allowance depth (.tag name arguments length) w = (.ok text, v)) :
    text = value := by
  have hinside := inside_of_evalNode_ok h
  have hresolve : resolve name (Eval.now host w).2 =
      (.ok (.constant value), (Eval.now host w).2) := by
    have hbindings : (Eval.now host w).2.bindings = w.bindings := rfl
    rw [resolve_apply, hbindings, hname]
  rw [evalInside, Eval.bind_of_ok hresolve] at hinside
  obtain ⟨texts, _, -, hinside⟩ := Eval.bind_eq_ok hinside
  obtain ⟨_, _, -, hinside⟩ := Eval.bind_eq_ok hinside
  obtain ⟨result, _, hresult, hinside⟩ := Eval.bind_eq_ok hinside
  obtain ⟨_, _, -, ⟨⟩⟩ := Eval.bind_eq_ok hinside
  cases hresult
  rfl

theorem constant_of_declaration {name text : String} {value : Node} {length : Nat}
    (h : evalNode host allowance depth (.declaration name (some value) length) w = (.ok text, v)) :
    ∃ constant u, evalNode host allowance (depth - 1) value (Eval.now host w).2 =
        (.ok constant, u) ∧
      v.bindings.resolve? name = some (.constant constant) := by
  have hinside := inside_of_evalNode_ok h
  obtain ⟨constant, u, hvalue, hinside⟩ := Eval.bind_eq_ok hinside
  obtain ⟨_, u', hdeclare, ⟨⟩⟩ := Eval.bind_eq_ok hinside
  cases hdeclare
  have hfind := Bindings.find?_insert u.bindings name name (.constant constant)
  rw [if_pos rfl] at hfind
  refine ⟨constant, u, hvalue, ?_⟩
  rw [Bindings.resolve?_of_ne_absent (by simp [hfind]), hfind]

theorem acts_of_tag {name : String} {binding : Binding H} {arguments : List Node}
    {texts : List String} (hname : w.bindings.resolve? name = some binding)
    (harguments : evalNodes host .unlimited depth arguments (Eval.now host w).2 = (.ok texts, v))
    (length : Nat) :
    acts (evalNode host .unlimited (depth + 1) (.tag name arguments length) w).2.events =
      .called name texts :: acts v.events := by
  have hresolve : resolve name (Eval.now host w).2 = (.ok binding, (Eval.now host w).2) := by
    have hbindings : (Eval.now host w).2.bindings = w.bindings := rfl
    rw [resolve_apply, hbindings, hname]
  rw [evalNode_succ, Eval.bind_of_ok (checkTime_unlimited host w), evalInside,
    Eval.bind_of_ok hresolve, Eval.bind_of_ok harguments]
  let u : World H σ := { v with events := .called name texts :: v.events }
  have hevents : (callBinding host binding texts u).2.events = u.events :=
    (callLeaves_callBinding host binding texts u).1
  have hacts : acts u.events = .called name texts :: acts v.events := rfl
  rw [Eval.bind_of_ok (show Eval.record (.called name texts) v = (.ok (), u) from rfl), ← hacts,
    ← hevents]
  rcases hcall : callBinding host binding texts u with ⟨e | result, w'⟩
  · rw [Eval.bind_of_error hcall]
  · rw [Eval.bind_of_ok hcall, Eval.bind_of_ok (checkTime_unlimited host w')]
    rfl

theorem exists_texts_of_tag {name text : String} {arguments : List Node} {length : Nat}
    (h : evalNode host .unlimited (depth + 1) (.tag name arguments length) w = (.ok text, v)) :
    ∃ binding texts u, w.bindings.resolve? name = some binding ∧
      evalNodes host .unlimited depth arguments (Eval.now host w).2 = (.ok texts, u) ∧
      acts v.events = .called name texts :: acts u.events := by
  obtain ⟨binding, w₁, hresolve, hinside⟩ := Eval.bind_eq_ok (inside_of_evalNode_ok h)
  obtain ⟨texts, u, harguments, -⟩ := Eval.bind_eq_ok hinside
  obtain rfl : (Eval.now host w).2 = w₁ := by
    rw [← snd_resolve name (Eval.now host w).2, hresolve]
  have hname : w.bindings.resolve? name = some binding := by
    have hbindings : (Eval.now host w).2.bindings = w.bindings := rfl
    rw [resolve_apply, hbindings] at hresolve
    cases hfound : w.bindings.resolve? name with
    | none => simp [hfound] at hresolve
    | some found => simpa [hfound] using hresolve
  refine ⟨binding, texts, u, hname, harguments, ?_⟩
  rw [← acts_of_tag hname harguments length]
  exact congrArg (fun run => acts run.2.events) h.symm

/-- However an evaluation ends, the tags it has called are the first ones of the tree in post-order,
each called once with a text for each argument, and all of them if a text comes of it; then the
names called are those of the tree. A declaration leaves its name to the text of its value, and a tag
whose name stands for a text gives that text and calls nothing but the tags among its arguments and
itself. -/
theorem tags_called_in_post_order (host : Host H σ) (timeout : Option Number) (tree : Node)
    (w : World H σ) :
    (∀ r v, evaluate host timeout tree w = (r, v) →
      ∃ since called uncalled, v.events = since ++ w.events ∧
        tree.tagPlaces = called ++ uncalled ∧ (called.map Prod.fst).Nodup ∧
        List.Forall₂ CallAt called (calls since) ∧
        ∀ text, r = .ok text →
          uncalled = [] ∧ ((calls since).map Prod.fst).Perm tree.tagNames) ∧
    (∀ allowance depth name value length text v,
      evalNode host allowance depth (.declaration name (some value) length) w = (.ok text, v) →
      ∃ constant u, evalNode host allowance (depth - 1) value (Eval.now host w).2 =
          (.ok constant, u) ∧
        v.bindings.resolve? name = some (.constant constant)) ∧
    ∀ allowance depth name arguments length constant r v,
      w.bindings.resolve? name = some (.constant constant) →
      evalNode host allowance depth (.tag name arguments length) w = (r, v) →
      ∃ since called uncalled, v.events = since ++ w.events ∧
        (Node.tag name arguments length).tagPlaces = called ++ uncalled ∧
        List.Forall₂ CallAt called (calls since) ∧
        ∀ text, r = .ok text → text = constant ∧ uncalled = [] := by
  refine ⟨?_, fun _ _ _ _ _ _ _ => constant_of_declaration, ?_⟩
  · intro r v hv
    obtain ⟨since, called, uncalled, hevents, hplaces, hcalls, hall⟩ :=
      (performs_evaluate host timeout tree).calls hv
    have hnodup : (called.map Prod.fst).Nodup := by
      have htags := List.sublist_append_left called uncalled
      rw [← hplaces] at htags
      exact tree.nodup_places.sublist ((htags.trans List.filter_sublist).map Prod.fst)
    refine ⟨since, called, uncalled, hevents, hplaces, hnodup, hcalls, fun text htext => ?_⟩
    have hnone := hall text htext
    rw [hnone, List.append_nil] at hplaces
    refine ⟨hnone, ?_⟩
    rw [map_fst_of_callAt hcalls, ← hplaces]
    exact tree.filterMap_tagPlaces_perm
  · intro allowance depth name arguments length constant r v hname hv
    obtain ⟨since, called, uncalled, hevents, hplaces, hcalls, hall⟩ :=
      ((scheme_performs host allowance).evalNode (.tag name arguments length) depth).calls hv
    refine ⟨since, called, uncalled, hevents, hplaces, hcalls, fun text htext => ?_⟩
    subst htext
    exact ⟨text_of_constant hname hv, hall text rfl⟩

def beforehand : World Unit Unit :=
  ⟨.initial [("f", .host ())], (), []⟩

def putOnce : Node :=
  .template [.declaration "x" (some (.tag "f" [.quoted .single "a" 3] 7)) 11, .tag "x" [] 3,
    .tag "x" [] 3] 17

theorem value_called_once :
    ∃ v u since, evaluate Visit.joining none putOnce beforehand = (.ok "aa", v) ∧
      ((calls v.events).map Prod.fst).Perm putOnce.tagNames ∧
      evalNode Visit.joining .unlimited 1 (.tag "x" [] 3) v = (.ok "a", u) ∧
      u.events = since ++ v.events ∧ (calls since).length = 1 := by
  obtain ⟨v, u, hrun, hname, hagain⟩ : ∃ v u,
      evaluate Visit.joining none putOnce beforehand = (.ok "aa", v) ∧
        v.bindings.resolve? "x" = some (.constant "a") ∧
        evalNode Visit.joining .unlimited 1 (.tag "x" [] 3) v = (.ok "a", u) :=
    ⟨_, _, rfl, rfl, rfl⟩
  obtain ⟨since, called, uncalled, hevents, -, -, -, hall⟩ :=
    (tags_called_in_post_order Visit.joining none putOnce beforehand).1 _ v hrun
  obtain ⟨-, hperm⟩ := hall "aa" rfl
  have hsince : v.events = since := hevents.trans (List.append_nil since)
  obtain ⟨since', called', uncalled', hevents', hplaces', hcalls', hall'⟩ :=
    (tags_called_in_post_order Visit.joining none putOnce v).2.2 _ _ _ _ _ _ _ u hname hagain
  obtain ⟨-, rfl⟩ := hall' "a" rfl
  refine ⟨v, u, since', hrun, hsince ▸ hperm, hagain, hevents', ?_⟩
  rw [← hcalls'.length_eq, ← List.append_nil called', ← hplaces']
  rfl

example : calls (evaluate Visit.joining none putOnce beforehand).2.events =
    [("f", ["a"]), ("x", []), ("x", [])] := rfl

end TagTemplate.Evaluation
