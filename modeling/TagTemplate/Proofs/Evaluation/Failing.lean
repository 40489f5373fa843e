import TagTemplate.Proofs.Evaluation.Builtins
import TagTemplate.Proofs.Evaluation.Sessions
import TagTemplate.Proofs.Evaluation.Visits
import TagTemplate.Proofs.Template.Documents
import TagTemplate.Proofs.Template.Shape

/-! How evaluations fail that have no tags but the built-in ones. Every step keeps two things: draws
go on to be numbers from zero to below one, and no name comes to stand for a tag of the host. An error
is one of those that are promised, or it comes from the call that was made last. -/
namespace TagTemplate.Evaluation
open Template Binary64

variable {H σ α β : Type}

structure DrawsWithin (host : Host H σ) (good : σ → Prop) : Prop where
  now {s : σ} : good s → good (host.now s).2
  draw {s : σ} : good s → ∃ x, (host.draw s).1 = .ok x ∧ IsDraw x ∧ good (host.draw s).2

/-- A name may stand for a text, or for the built-in tag that it stood for at first. -/
def Permitted (first : Bindings H) (name : String) : Binding H → Prop
  | .absent => True
  | .constant _ => True
  | .builtin b => first.find? name = some (.builtin b)
  | .host _ => False

structure Settled (good : σ → Prop) (first : Bindings H) (w : World H σ) : Prop where
  state : good w.state
  bindings (name : String) (binding : Binding H) :
    w.bindings.find? name = some binding → Permitted first name binding

/-- The errors that a template is promised to fail with. -/
inductive EvalError.Promised (timeout : Option Number) : EvalError → Prop
  | undefinedTag (name : String) : Promised timeout (.undefinedTag name)
  | tooDeep : Promised timeout .tooDeep
  | timedOut : Promised timeout (.timedOut timeout)
  | argument (e : BuiltinError) : e.isUser → Promised timeout (.builtin e)

def Overstepped (first : Bindings H) (events : List Event) : Prop :=
  ∃ name b arguments earlier, events = .called name arguments :: earlier ∧
    first.find? name = some (.builtin b) ∧ b.Oversteps arguments

/-- The error is promised, or no step could be counted in the call that was made last. -/
def Foreseen (first : Bindings H) (timeout : Option Number) (e : EvalError) (events : List Event) :
    Prop :=
  e.Promised timeout ∨
    (∃ cause : BuiltinError, e = .builtin cause ∧ cause.IsUncounted) ∧ Overstepped first events

def Behaves (good : σ → Prop) (first : Bindings H) (timeout : Option Number) (x : Eval H σ α) :
    Prop :=
  ∀ w, Settled good first w → Settled good first (x w).2 ∧
    ∀ e, (x w).1 = .error e → Foreseen first timeout e (x w).2.events

variable {host : Host H σ} {good : σ → Prop} {first : Bindings H} {allowance : Allowance}
  {timeout : Option Number} {x : Eval H σ α} {f : α → Eval H σ β} {w v : World H σ} {e : EvalError}
  {name : String} {binding : Binding H}

theorem EvalError.Promised.isUser (h : e.Promised timeout) : e.isUser := by
  cases h with
  | argument e huser => exact huser
  | _ => rfl

theorem Foreseen.sense_eq {events : List Event} (h : Foreseen first timeout e events) :
    e.sense = .plain := by
  rcases h with h | ⟨⟨cause, rfl, -⟩, -⟩
  · cases h <;> rfl
  · rfl

theorem Settled.withEvents (h : Settled good first w) (events : List Event) :
    Settled good first { w with events } :=
  ⟨h.state, h.bindings⟩

theorem Settled.withState (h : Settled good first w) {s : σ} (hs : good s) :
    Settled good first { w with state := s } :=
  ⟨hs, h.bindings⟩

theorem behaves_of_world (hok : ∀ w, Settled good first w →
    ∃ a v, x w = (.ok a, v) ∧ Settled good first v) : Behaves good first timeout x := by
  intro w hw
  obtain ⟨a, v, hx, hv⟩ := hok w hw
  rw [hx]
  exact ⟨hv, nofun⟩

theorem behaves_pure (a : α) : Behaves good first timeout (pure a : Eval H σ α) :=
  behaves_of_world fun w hw => ⟨a, w, rfl, hw⟩

theorem behaves_throw (h : e.Promised timeout) :
    Behaves good first timeout (.throw e : Eval H σ α) := by
  intro w hw
  refine ⟨hw, ?_⟩
  rintro _ ⟨⟩
  exact .inl h

theorem Behaves.bind (h : Behaves good first timeout x) (hf : ∀ a, Behaves good first timeout (f a)) :
    Behaves good first timeout (x >>= f) := by
  intro w hw
  obtain ⟨hv, hfails⟩ := h w hw
  rcases hx : x w with ⟨e | a, v⟩
  · rw [hx] at hv hfails
    rw [Eval.bind_of_error hx]
    refine ⟨hv, ?_⟩
    rintro _ ⟨⟩
    exact hfails e rfl
  · rw [Eval.bind_of_ok hx]
    rw [hx] at hv
    exact hf a v hv

theorem Behaves.mapError (h : Behaves good first timeout x) {k : EvalError → EvalError}
    (hk : ∀ e, e.sense = .plain → k e = e) : Behaves good first timeout (.mapError k x) := by
  intro w hw
  obtain ⟨hv, hfails⟩ := h w hw
  rcases hx : x w with ⟨e | a, v⟩
  · rw [hx] at hv hfails
    rw [Eval.mapError_of_error hx, hk e (hfails e rfl).sense_eq]
    exact ⟨hv, hfails⟩
  · rw [hx] at hv
    rw [Eval.mapError_of_ok hx]
    exact ⟨hv, nofun⟩

theorem behaves_now (h : DrawsWithin host good) : Behaves good first timeout (Eval.now host) :=
  behaves_of_world fun _ hw =>
    ⟨_, _, rfl, (hw.withState (h.now hw.state)).withEvents _⟩

theorem behaves_checkTime (h : DrawsWithin host good) :
    Behaves good first allowance.timeout (checkTime host allowance) := by
  refine (behaves_now h).bind fun seconds => ?_
  split
  · exact behaves_throw .timedOut
  · exact behaves_pure ()

theorem behaves_declare (name value : String) :
    Behaves good first timeout (Eval.declare name value : Eval H σ Unit) := by
  refine behaves_of_world fun _ hw => ⟨(), _, rfl, hw.state, fun other binding hfind => ?_⟩
  rw [Bindings.find?_insert] at hfind
  split at hfind
  · cases hfind
    trivial
  · exact hw.bindings other binding hfind

def Sound (first : Bindings H) (node : Node) (settled : Option (Binding H)) : Prop :=
  ∀ name, node.tagName? = some name →
    ∃ binding, settled = some binding ∧ Permitted first name binding ∧ binding ≠ .absent

theorem behaves_settle_bind {node : Node} {f : Option (Binding H) → Eval H σ β}
    (hf : ∀ settled, Sound first node settled → Behaves good first timeout (f settled)) :
    Behaves good first timeout (settle node >>= f) := by
  intro w hw
  unfold settle
  cases hname : node.tagName? with
  | none => exact hf none (fun name h => by rw [hname] at h; cases h) w hw
  | some name =>
    simp only [bind_assoc, pure_bind]
    have hresolve := resolve_apply name w
    cases hfound : w.bindings.resolve? name with
    | none =>
      rw [hfound] at hresolve
      rw [Eval.bind_of_error hresolve]
      exact behaves_throw (.undefinedTag name) w hw
    | some binding =>
      rw [hfound] at hresolve
      rw [Eval.bind_of_ok hresolve]
      obtain ⟨hfind, hne⟩ := Bindings.find?_of_resolve? hfound
      refine hf (some binding) (fun other hother => ?_) w hw
      obtain rfl : name = other := Option.some.inj (hname.symm.trans hother)
      exact ⟨binding, rfl, hw.bindings name binding hfind, hne⟩

theorem record_bind (event : Event) (f : Unit → Eval H σ β) (w : World H σ) :
    (Eval.record event >>= f) w = f () { w with events := event :: w.events } :=
  rfl

section Call

variable {b : Builtin} {arguments : List String}

theorem callBinding_of_refused {cause : BuiltinError}
    (h : b.outcome (arguments.map some) = .error cause) (w : World H σ) :
    callBinding host (.builtin b) arguments w = (.error (.builtin cause), w) := by
  simp only [callBinding, callBuiltin, bind, Eval.ofBuiltin, h]
  rfl

theorem callBinding_of_text {text : String} (h : b.outcome (arguments.map some) = .ok (.text text))
    (w : World H σ) : callBinding host (.builtin b) arguments w = (.ok text, w) := by
  simp only [callBinding, callBuiltin, bind, Eval.ofBuiltin, h]
  rfl

theorem callBinding_of_drawn {f : Float → Except BuiltinError (Option String)} {draw : Float}
    (h : b.outcome (arguments.map some) = .ok (.drawn f)) (hdraw : (host.draw w.state).1 = .ok draw) :
    callBinding host (.builtin b) arguments w =
      (((f draw).mapError .builtin).map (·.getD "None"),
        { w with state := (host.draw w.state).2 }) := by
  simp only [callBinding, callBuiltin, bind, Eval.ofBuiltin, h, Except.mapError, Eval.draw, hdraw]
  cases f draw <;> rfl

end Call

theorem callBinding_of_tooFarApart (h : DrawsWithin host good) {arguments : List String}
    (hfar : TooFarApart arguments) (hw : good w.state) :
    ∃ cause : BuiltinError, cause.IsUncounted ∧
      (callBinding host (.builtin .randomNumber) arguments w).1 = .error (.builtin cause) := by
  obtain ⟨f, hf, hfails⟩ := Builtin.outcome_of_tooFarApart hfar
  obtain ⟨draw, hdraw, hwithin, -⟩ := h.draw hw
  obtain ⟨cause, hcause, huncounted⟩ := hfails draw hwithin
  refine ⟨cause, huncounted, ?_⟩
  rw [callBinding_of_drawn hf hdraw, hcause]
  rfl

/-- A call gives a text or is refused with a promised error, or it oversteps. -/
theorem behaves_call (h : DrawsWithin host good) (hbinding : Permitted first name binding)
    (hne : binding ≠ .absent) (arguments : List String) :
    Behaves good first timeout
      (Eval.record (.called name arguments) >>= fun _ => callBinding host binding arguments) := by
  intro w hw
  have hcalled := hw.withEvents (.called name arguments :: w.events)
  cases binding with
  | absent => exact absurd rfl hne
  | constant value => exact ⟨hcalled, nofun⟩
  | host tag => exact hbinding.elim
  | builtin b =>
    rw [record_bind]
    have hanswers := b.answers_outcome arguments
    generalize houtcome : b.outcome (arguments.map some) = outcome at hanswers
    cases hanswers with
    | refused e huser =>
      rw [callBinding_of_refused houtcome]
      exact behaves_throw (.argument e huser) _ hcalled
    | text s =>
      rw [callBinding_of_text houtcome]
      exact behaves_pure s _ hcalled
    | drawn f hdrawn =>
      obtain ⟨draw, hdraw, hwithin, hgood⟩ := h.draw hcalled.state
      rw [callBinding_of_drawn houtcome hdraw]
      refine ⟨hcalled.withState hgood, fun e he => ?_⟩
      rcases hdrawn draw hwithin with ⟨s, hs⟩ | ⟨hoversteps, cause, hcause, huncounted⟩
      · rw [hs] at he
        cases he
      · rw [hcause] at he
        cases he
        exact .inr ⟨⟨cause, rfl, huncounted⟩, name, b, arguments, w.events, rfl, hbinding, hoversteps⟩

theorem behaves_conclude (h : DrawsWithin host good) {node : Node} (hnode : evaluable node)
    {settled : Option (Binding H)} (hsettled : Sound first node settled) (texts : List String) :
    Behaves good first allowance.timeout (conclude host allowance settled texts node) := by
  cases node with
  | tag name arguments n =>
    obtain ⟨binding, rfl, hbinding, hne⟩ := hsettled name rfl
    rw [conclude, ← bind_assoc]
    refine (behaves_call h hbinding hne texts).bind fun result => ?_
    exact (behaves_checkTime h).bind fun _ => behaves_pure result
  | declaration name value n =>
    cases value with
    | none => cases hnode
    | some value => exact (behaves_declare name _).bind fun _ => behaves_pure ""
  | foreign => cases hnode
  | _ => exact behaves_pure _

theorem shownOutside_of_plain (node : Node) (e : EvalError) (h : e.sense = .plain) :
    shownOutside node e = e :=
  EvalError.shownOutside_of_acrossTemplate node (EvalError.acrossTemplate_of_plain h)

theorem scheme_behaves (h : DrawsWithin host good) (first : Bindings H) (allowance : Allowance) :
    Scheme host allowance allowance
      (fun node x _ => (∀ m ∈ node.nodes, evaluable m) → Behaves good first allowance.timeout x)
      (fun nodes x _ =>
        (∀ m ∈ Node.nodesOf nodes, evaluable m) → Behaves good first allowance.timeout x) where
  tooDeep _ _ := behaves_throw .tooDeep
  node node _ _ hparts hnodes := by
    rw [Node.nodes_eq, List.forall_mem_cons] at hnodes
    refine (behaves_checkTime h).bind fun _ => behaves_settle_bind fun settled hsettled => ?_
    refine ((hparts hnodes.2).mapError (shownOutside_of_plain node)).bind fun texts => ?_
    exact behaves_conclude h hnodes.1 hsettled texts
  nil _ := behaves_pure []
  cons hnode hrest hnodes := by
    rw [Node.nodesOf, List.forall_mem_append] at hnodes
    exact (hnode hnodes.1).bind fun text => (hrest hnodes.2).bind fun texts => behaves_pure _

mutual
theorem evaluable_of_wellShaped : (node : Node) → node.wellShaped → ∀ m ∈ node.nodes, evaluable m
  | .text .., _ | .quoted .., _ | .comment .., _ => by simp [Node.nodes, evaluable]
  | .template children _, h => by
    simp only [Node.wellShaped, Bool.and_eq_true] at h
    exact List.forall_mem_cons.mpr ⟨rfl, evaluable_of_allWellShaped children h.2⟩
  | .tag _ arguments _, h => by
    simp only [Node.wellShaped, Bool.and_eq_true] at h
    exact List.forall_mem_cons.mpr ⟨rfl, evaluable_of_allWellShaped arguments h.2⟩
  | .declaration _ (some value) _, h => by
    simp only [Node.wellShaped, Bool.and_eq_true] at h
    exact List.forall_mem_cons.mpr ⟨rfl, evaluable_of_wellShaped value h.2⟩

theorem evaluable_of_allWellShaped : (nodes : List Node) → Node.allWellShaped nodes →
    ∀ m ∈ Node.nodesOf nodes, evaluable m
  | [], _ => by simp [Node.nodesOf]
  | node :: rest, h => by
    simp only [Node.allWellShaped, Bool.and_eq_true] at h
    exact List.forall_mem_append.mpr
      ⟨evaluable_of_wellShaped node h.1, evaluable_of_allWellShaped rest h.2⟩
end

theorem evaluable_of_compile {source : String} {tree : Node} (h : compile source = .ok tree) :
    ∀ m ∈ tree.nodes, evaluable m := by
  rw [compile_eq_ok_iff] at h
  obtain ⟨d, -, rfl, -⟩ := h
  have hdocument := isDocument_tree d
  generalize d.tree = tree at hdocument
  cases tree with
  | template children n =>
    simp only [Node.isDocument, Bool.and_eq_true] at hdocument
    exact List.forall_mem_cons.mpr ⟨rfl, evaluable_of_allWellShaped children hdocument.2⟩
  | _ => cases hdocument

def Hostless (given : List (String × Binding H)) : Prop :=
  ∀ entry ∈ given, ∀ tag, entry.2 ≠ .host tag

theorem find?_insertAll_ne_host {bs : Bindings H} {given : List (String × Binding H)}
    (h : Hostless given) (hbs : ∀ name tag, bs.find? name ≠ some (.host tag)) (name : String) (tag : H) :
    (bs.insertAll given).find? name ≠ some (.host tag) := by
  obtain ⟨before, binding, after, rfl, -, hfind⟩ | ⟨-, hfind⟩ :=
    bs.find?_insertAll_cases given name
  · rw [hfind]
    exact mt Option.some.inj (h (name, binding) List.mem_append_cons_self tag)
  · rw [hfind]
    exact hbs name tag

theorem hostless_builtins : Hostless (Bindings.builtins (H := H)) := by
  simp [Hostless, Bindings.builtins]

theorem settled_initial {given : List (String × Binding H)} (h : Hostless given) {state : σ}
    (hstate : good state) : Settled good (.initial given) ⟨.initial given, state, []⟩ := by
  refine ⟨hstate, fun name binding hfind => ?_⟩
  cases binding with
  | absent => trivial
  | constant value => trivial
  | builtin b => exact hfind
  | host tag =>
    have hempty : ∀ name tag, (Bindings.empty : Bindings H).find? name ≠ some (.host tag) := nofun
    have hgiven := find?_insertAll_ne_host h hempty
    exact find?_insertAll_ne_host hostless_builtins hgiven name tag hfind

def Immeasurable (timeout : Option Number) : Prop :=
  ∃ t, timeout = some t ∧ t.toFloat? = none

theorem allow_bind_of_immeasurable (h : Immeasurable timeout) (f : Allowance → Eval H σ β)
    (w : World H σ) : ((allow host timeout >>= f) w).1 = .error .timeoutTooLarge := by
  obtain ⟨t, rfl, ht⟩ := h
  simp only [allow, ht, bind, Eval.now, Eval.throw]

theorem behaves_allow_bind (h : DrawsWithin host good) (htimeout : ¬Immeasurable timeout)
    {f : Allowance → Eval H σ β}
    (hf : ∀ allowance, allowance.timeout = timeout → Behaves good first timeout (f allowance)) :
    Behaves good first timeout (allow host timeout >>= f) := by
  cases timeout with
  | none => exact hf ⟨none, none⟩ rfl
  | some t =>
    cases ht : t.toFloat? with
    | none => exact absurd ⟨t, rfl, ht⟩ htimeout
    | some milliseconds =>
      simp only [allow, ht, bind_assoc, pure_bind]
      exact (behaves_now h).bind fun seconds => hf _ rfl

theorem behaves_evaluate (h : DrawsWithin host good) (htimeout : ¬Immeasurable timeout) {tree : Node}
    (htree : ∀ m ∈ tree.nodes, evaluable m) :
    Behaves good first timeout (evaluate host timeout tree) :=
  behaves_allow_bind h htimeout fun allowance hallowance => by
    rw [← hallowance]
    exact ((scheme_behaves h first allowance).evalNode tree depthLimit htree).mapError
      fun _ => EvalError.reported_of_plain

/-- What compiles gives a text, or its evaluation fails as foreseen, or its timeout is too large. -/
theorem render_cases (h : DrawsWithin host good) {given : List (String × Binding H)}
    (hgiven : Hostless given) (timeout : Option Number) {state : σ} (hstate : good state)
    {source : String} {tree : Node} (htree : compile source = .ok tree) :
    (∃ text, (render host given timeout state source).1 = .ok text) ∨
      ∃ e, (render host given timeout state source).1 = .error (.eval e) ∧
        (Foreseen (.initial given) timeout e
            (render host given timeout state source).2.world.events ∨
          e = .timeoutTooLarge ∧ Immeasurable timeout) := by
  have hsettled : Settled good (.initial given) _ := settled_initial hgiven hstate
  have hfails (htimeout : ¬Immeasurable timeout) :=
    (behaves_evaluate h htimeout (evaluable_of_compile htree) _ hsettled).2
  have hlarge (htimeout : Immeasurable timeout) :
      (evaluate host timeout tree ⟨.initial given, state, []⟩).1 = .error .timeoutTooLarge :=
    allow_bind_of_immeasurable htimeout _ _
  rw [Session.render_of_tree htree]
  generalize evaluate host timeout tree ⟨.initial given, state, []⟩ = outcome at hfails hlarge ⊢
  rcases outcome with ⟨e | text, w⟩
  · refine .inr ⟨e, rfl, ?_⟩
    by_cases htimeout : Immeasurable timeout
    · cases hlarge htimeout
      exact .inr ⟨rfl, htimeout⟩
    · exact .inl (hfails htimeout e rfl)
  · exact .inl ⟨text, rfl⟩

variable {u : World H σ} {node : Node} {n : Nat}

theorem evaluate_of_single
    (h : evalNode host .unlimited (depthLimit - 1) node (Eval.now host w).2 = (.error e, v))
    (he : e.sense = .plain) : evaluate host none (.template [node] n) w = (.error e, v) := by
  have hpart : (Visit.root (.template [node] n) w).partIn? host .unlimited 0 =
      some ⟨node, depthLimit - 1, (Eval.now host w).2⟩ := rfl
  have hallow : allow host none w = (.ok .unlimited, w) := rfl
  rw [evaluate_of_allow hallow, Visit.outcome_of_part_error hpart h, shownOutside_of_plain _ e he]
  exact congrArg (fun e => (Except.error e, v)) (EvalError.reported_of_plain he)

theorem exists_evalNodes_quoted (hnow : ∀ s, good s → good (host.now s).2) (depth : Nat) (q : Quote)
    (arguments : List (String × Nat)) (hw : good w.state) :
    ∃ v, evalNodes host .unlimited (depth + 1) (arguments.map fun a => .quoted q a.1 a.2) w =
      (.ok (arguments.map Prod.fst), v) ∧ good v.state := by
  induction arguments generalizing w with
  | nil => exact ⟨w, by simp only [List.map_nil, evalNodes, pure], hw⟩
  | cons argument rest ih =>
    have hquoted : evalNode host .unlimited (depth + 1) (.quoted q argument.1 argument.2) w =
        (.ok argument.1, (Eval.now host w).2) := by
      rw [evalNode_succ, Eval.bind_of_ok (checkTime_unlimited host w)]
      rfl
    obtain ⟨v, hrest, hv⟩ := ih (hnow _ hw) (w := (Eval.now host w).2)
    refine ⟨v, ?_, hv⟩
    rw [List.map_cons, evalNodes_cons, Eval.bind_of_ok hquoted, Eval.bind_of_ok hrest]
    rfl

theorem exists_evaluate_call (hnow : ∀ s, good s → good (host.now s).2)
    (hresolve : w.bindings.resolve? name = some binding) (hw : good w.state) (q : Quote)
    (arguments : List (String × Nat)) (k : Nat) :
    ∃ v, good v.state ∧ ∀ e u, callBinding host binding (arguments.map Prod.fst) v = (.error e, u) →
      e.sense = .plain →
      evaluate host none
        (.template [.tag name (arguments.map fun a => .quoted q a.1 a.2) k] n) w = (.error e, u) := by
  obtain ⟨v, htexts, hv⟩ := exists_evalNodes_quoted hnow (depthLimit - 3) q arguments
    (hnow _ (hnow _ hw)) (w := (Eval.now host (Eval.now host w).2).2)
  refine ⟨{ v with events := .called name (arguments.map Prod.fst) :: v.events }, hv, ?_⟩
  intro e u hcall he
  refine evaluate_of_single ?_ he
  have hcallWith : Visit.run host
      ⟨.tag name (arguments.map fun a => .quoted q a.1 a.2) k, depthLimit - 1, (Eval.now host w).2⟩ =
      _ := Visit.run_of_resolved (by simp [depthLimit]) rfl hresolve
  have hrecord := record_bind (.called name (arguments.map Prod.fst))
    (fun _ => callBinding host binding (arguments.map Prod.fst) >>= fun result =>
      checkTime host .unlimited >>= fun _ => pure result) v
  calc _ = _ := hcallWith
    _ = _ := Eval.bind_of_ok htexts
    _ = _ := hrecord
    _ = _ := Eval.bind_of_error hcall

end TagTemplate.Evaluation
