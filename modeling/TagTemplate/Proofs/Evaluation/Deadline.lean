import TagTemplate.Proofs.Evaluation.Clock
import TagTemplate.Proofs.Host.Scripted

/-! Evaluations with a deadline. Until a reading of the clock exceeds the deadline they are the
evaluations without one, and that reading is the last thing they do. -/
namespace TagTemplate.Evaluation
open Template

variable {H σ τ α β : Type}

def OnTime (deadline : Float) (events : List Event) : Prop :=
  ∀ seconds, .read seconds ∈ events → ¬deadline < seconds

/-- The latest event is a reading that exceeds the deadline, the only one to do so. -/
def OverTime (deadline : Float) (events : List Event) : Prop :=
  ∃ seconds rest, events = .read seconds :: rest ∧ deadline < seconds ∧ OnTime deadline rest

/-- From worlds that are alike the first computation ends like the second, on time, or it has timed
out and done a part of what the second one does, no more. -/
def Shortens (view : σ → τ) (timeout : Option Number) (deadline : Float) {α : Type}
    (x y : Eval H σ α) : Prop :=
  ∀ v w, World.Agree view v w →
    acts w.events <:+ acts (y w).2.events ∧
    ∃ since, (x v).2.events = since ++ v.events ∧
      ((x v).1 = (y w).1 ∧ World.Agree view (x v).2 (y w).2 ∧ OnTime deadline since ∨
        (x v).1 = .error (.timedOut timeout) ∧ OverTime deadline since ∧
          acts (x v).2.events <:+ acts (y w).2.events)

variable {host : Host H σ} {view : σ → τ} {timeout : Option Number} {deadline : Float}
  {x y : Eval H σ α} {f g : α → Eval H σ β} {v w : World H σ} {earlier later : List Event}

theorem OnTime.append (h : OnTime deadline later) (h' : OnTime deadline earlier) :
    OnTime deadline (later ++ earlier) := by
  intro seconds hmem
  rcases List.mem_append.mp hmem with hmem | hmem
  · exact h seconds hmem
  · exact h' seconds hmem

theorem OverTime.append (h : OverTime deadline later) (h' : OnTime deadline earlier) :
    OverTime deadline (later ++ earlier) := by
  obtain ⟨seconds, rest, rfl, hlate, hrest⟩ := h
  exact ⟨seconds, rest ++ earlier, rfl, hlate, hrest.append h'⟩

theorem Shortens.bind (h : Shortens view timeout deadline x y)
    (hf : ∀ a, Shortens view timeout deadline (f a) (g a)) :
    Shortens view timeout deadline (x >>= f) (y >>= g) := by
  intro v w hagree
  obtain ⟨hgrows, since, hsince, hends⟩ := h v w hagree
  rcases hx : x v with ⟨r, v'⟩
  rcases hy : y w with ⟨r', w'⟩
  rw [hx, hy] at hends
  rw [hx] at hsince
  rw [hy] at hgrows
  -- Whatever the first step comes to, the second computation only goes on from there.
  have hgoes : acts w'.events <:+ acts ((y >>= g) w).2.events := by
    cases r' with
    | error e =>
      simp only [Eval.bind_of_error hy, List.suffix_rfl]
    | ok a =>
      rw [Eval.bind_of_ok hy]
      exact (hf a w' w' (.refl view w')).1
  refine ⟨hgrows.trans hgoes, ?_⟩
  rcases hends with ⟨hresult, hworld, htime⟩ | ⟨hresult, htime, hacts⟩
  · obtain rfl : r = r' := hresult
    cases r with
    | error e =>
      rw [Eval.bind_of_error hx, Eval.bind_of_error hy]
      exact ⟨since, hsince, .inl ⟨rfl, hworld, htime⟩⟩
    | ok a =>
      rw [Eval.bind_of_ok hx, Eval.bind_of_ok hy]
      obtain ⟨-, next, hnext, hends⟩ := hf a v' w' hworld
      refine ⟨next ++ since, by rw [hnext, hsince, List.append_assoc], ?_⟩
      rcases hends with ⟨hresult', hworld', htime'⟩ | ⟨hresult', htime', hacts'⟩
      · exact .inl ⟨hresult', hworld', htime'.append htime⟩
      · exact .inr ⟨hresult', htime'.append htime, hacts'⟩
  · obtain rfl : r = .error (.timedOut timeout) := hresult
    rw [Eval.bind_of_error hx]
    exact ⟨since, hsince, .inr ⟨rfl, htime, hacts.trans hgoes⟩⟩

theorem Shortens.of_alike (h : Alike view x x)
    (hevents : ∀ w, ∃ done, (x w).2.events = done ++ w.events ∧ ∀ event ∈ done, event.isAct) :
    Shortens view timeout deadline x x := by
  intro v w hagree
  obtain ⟨hresult, hworld⟩ := h v w hagree
  obtain ⟨done, hdone, -⟩ := hevents w
  obtain ⟨since, hsince, hacts⟩ := hevents v
  refine ⟨?_, since, hsince, .inl ⟨hresult, hworld, ?_⟩⟩
  · rw [hdone, acts, acts, List.filter_append]
    exact List.suffix_append _ _
  · intro seconds hmem
    exact absurd (hacts _ hmem) Bool.false_ne_true

theorem Shortens.mapError (h : Shortens view timeout deadline x y) {k : EvalError → EvalError}
    (hk : k (.timedOut timeout) = .timedOut timeout) :
    Shortens view timeout deadline (.mapError k x) (.mapError k y) := by
  intro v w hagree
  obtain ⟨hgrows, since, hsince, hends⟩ := h v w hagree
  refine ⟨hgrows, since, hsince, ?_⟩
  rcases hends with ⟨hresult, hworld, htime⟩ | ⟨hresult, htime, hacts⟩
  · exact .inl ⟨congrArg (Except.mapError k) hresult, hworld, htime⟩
  · refine .inr ⟨?_, htime, hacts⟩
    rw [← hk]
    exact congrArg (Except.mapError k) hresult

theorem shortens_checkTime (h : ClockApart host view) :
    Shortens view timeout deadline (checkTime host ⟨timeout, some deadline⟩)
      (checkTime host .unlimited) := by
  intro v w hagree
  have hnow := (World.Agree.now h v).trans (hagree.trans (World.Agree.now h w).symm)
  have hworld : (checkTime host ⟨timeout, some deadline⟩ v).2 = (Eval.now host v).2 := by
    by_cases hlate : deadline < (host.now v.state).1 <;>
      simp [checkTime, bind, Eval.now, hlate, Eval.throw, pure]
  rw [checkTime_unlimited, hworld]
  refine ⟨List.suffix_rfl, [.read (host.now v.state).1], rfl, ?_⟩
  by_cases hlate : deadline < (host.now v.state).1
  · refine .inr ⟨?_, ⟨_, [], rfl, hlate, fun _ hmem => absurd hmem List.not_mem_nil⟩, ?_⟩
    · simp [checkTime, bind, Eval.now, hlate, Eval.throw]
    · simp only [hnow.acts, List.suffix_rfl]
  · refine .inl ⟨?_, hnow, ?_⟩
    · simp [checkTime, bind, Eval.now, hlate, pure]
    · intro seconds hmem
      cases List.mem_singleton.mp hmem
      exact hlate

theorem congruence_shortens (h : ClockApart host view) (timeout : Option Number)
    (deadline : Float) :
    Congruence host ⟨timeout, some deadline⟩ .unlimited
      (Shortens (H := H) view timeout deadline) where
  pure a := .of_alike ((callCongruence_alike h).pure a) fun _ => ⟨[], rfl, by simp⟩
  throw e := .of_alike ((callCongruence_alike h).throw e) fun _ => ⟨[], rfl, by simp⟩
  bind := .bind
  resolve name := .of_alike ((callCongruence_alike h).resolve name) fun w =>
    ⟨[], by rw [snd_resolve]; rfl, by simp⟩
  draw := .of_alike (callCongruence_alike h).draw fun _ => ⟨[], rfl, by simp⟩
  callHost tag arguments :=
    .of_alike ((callCongruence_alike h).callHost tag arguments) fun _ => ⟨[], rfl, by simp⟩
  across h := h.mapError rfl
  checkTime := shortens_checkTime h
  called name arguments :=
    .of_alike ((congruence_alike h).called name arguments) fun _ =>
      ⟨[_], rfl, by simp [Event.isAct]⟩
  declare name value :=
    .of_alike ((congruence_alike h).declare name value) fun _ => ⟨[_], rfl, by simp [Event.isAct]⟩

def readings (events : List Event) : Nat :=
  events.countP fun event => !event.isAct

def Reads (n : Nat) {α : Type} (x : Eval H σ α) : Prop :=
  ∀ w a v, x w = (.ok a, v) → readings v.events = readings w.events + n

def readingsOf (nodes : List Node) : Nat :=
  nodes.length + (nodes.filterMap Node.tagName?).length

variable {m n depth : Nat} {allowance : Allowance}

theorem readingsOf_cons (node : Node) (rest : List Node) :
    readingsOf (node :: rest) = node.tagName?.toList.length + 1 + readingsOf rest := by
  unfold readingsOf
  cases h : node.tagName? with
  | none => simp [h]; omega
  | some name => simp [h]; omega

theorem readingsOf_append (nodes others : List Node) :
    readingsOf (nodes ++ others) = readingsOf nodes + readingsOf others := by
  simp only [readingsOf, List.filterMap_append, List.length_append]
  omega

theorem reads_pure (a : α) : Reads 0 (pure a : Eval H σ α) := by
  intro w b v h
  cases h
  rfl

theorem reads_throw (e : EvalError) : Reads n (.throw e : Eval H σ α) := by
  intro w a v h
  cases h

theorem Reads.bind {k : Nat} (h : Reads m x) (hf : ∀ a, Reads n (f a)) (hk : m + n = k) :
    Reads k (x >>= f) := by
  intro w b u hb
  obtain ⟨a, v, hx, hfa⟩ := Eval.bind_eq_ok hb
  rw [hf a v b u hfa, h w a v hx, ← hk, Nat.add_assoc]

theorem Reads.mapError (h : Reads n x) (k : EvalError → EvalError) : Reads n (.mapError k x) :=
  fun w a v hx => h w a v (Eval.mapError_eq_ok hx)

theorem reads_act {event : Event} (h : event.isAct) :
    Reads 0 (Eval.record event : Eval H σ Unit) := by
  intro w a v hx
  cases hx
  simp [readings, h]

theorem reads_declare (name value : String) :
    Reads 0 (Eval.declare name value : Eval H σ Unit) := by
  intro w a v hx
  cases hx
  simp [readings, Event.isAct]

theorem reads_now (host : Host H σ) : Reads 1 (Eval.now host) := by
  intro w a v hx
  cases hx
  simp [readings, Event.isAct]

theorem reads_checkTime (host : Host H σ) (allowance : Allowance) :
    Reads 1 (checkTime host allowance) := by
  have hcheck : ∀ seconds, Reads 0 (if allowance.deadline.any (· < seconds) then
      .throw (.timedOut allowance.timeout) else pure () : Eval H σ Unit) := by
    intro seconds
    split
    · exact reads_throw _
    · exact reads_pure ()
  exact (reads_now host).bind hcheck rfl

theorem callCongruence_reads (host : Host H σ) :
    CallCongruence host (fun {α : Type} (x _ : Eval H σ α) => Reads 0 x) where
  pure a := reads_pure a
  throw e := reads_throw e
  bind h hf := h.bind hf rfl
  resolve name w a v hx := by
    obtain rfl : (resolve name w).2 = v := congrArg Prod.snd hx
    rw [snd_resolve]
    rfl
  draw w a v hx := by
    obtain rfl : (Eval.draw host w).2 = v := congrArg Prod.snd hx
    rfl
  callHost tag arguments w a v hx := by
    simp only [Eval.callHost, Prod.mk.injEq] at hx
    obtain ⟨-, rfl⟩ := hx
    rfl

theorem reads_settle (node : Node) : Reads 0 (settle node : Eval H σ (Option (Binding H))) := by
  intro w a v hx
  obtain rfl : (settle node w).2 = v := congrArg Prod.snd hx
  rw [snd_settle]
  rfl

theorem reads_conclude (host : Host H σ) (allowance : Allowance) (binding : Option (Binding H))
    (texts : List String) (node : Node) :
    Reads node.tagName?.toList.length (conclude host allowance binding texts node) := by
  cases node with
  | tag name arguments length =>
    refine (reads_act rfl).bind (fun _ => ?_) (Nat.zero_add 1)
    refine ((callCongruence_reads host).callBinding _ texts).bind (fun result => ?_) (Nat.zero_add 1)
    exact (reads_checkTime host allowance).bind (fun _ => reads_pure result) rfl
  | declaration name value length =>
    cases value with
    | none => exact reads_throw _
    | some value => exact (reads_declare name _).bind (fun _ => reads_pure "") rfl
  | foreign => exact reads_throw _
  | _ => exact reads_pure _

theorem scheme_reads (host : Host H σ) (allowance : Allowance) :
    Scheme host allowance allowance (fun node x _ => Reads (readingsOf node.nodes) x)
      (fun nodes x _ => Reads (readingsOf (Node.nodesOf nodes)) x) where
  tooDeep _ := reads_throw _
  node node _ _ hparts := by
    have hcount : readingsOf node.nodes =
        1 + (readingsOf (Node.nodesOf node.parts) + node.tagName?.toList.length) := by
      rw [Node.nodes_eq, readingsOf_cons]
      omega
    rw [hcount]
    refine (reads_checkTime host allowance).bind (fun _ => ?_) rfl
    refine (reads_settle node).bind (fun binding => ?_) (Nat.zero_add _)
    exact (hparts.mapError _).bind (fun texts => reads_conclude host allowance binding texts node) rfl
  nil := reads_pure []
  cons {node rest _ _ _ _} hnode hrest := by
    rw [Node.nodesOf, readingsOf_append]
    exact hnode.bind (fun text => hrest.bind (fun texts => reads_pure _) (Nat.add_zero _)) rfl

def deadlineAfter (host : Host H σ) (w : World H σ) (milliseconds : Float) : Float :=
  (host.now w.state).1 + milliseconds / 1000

theorem evaluate_timed {timeout : Number} {milliseconds : Float}
    (h : timeout.toFloat? = some milliseconds) (host : Host H σ) (tree : Node) (w : World H σ) :
    evaluate host (some timeout) tree w =
      Eval.mapError .reported
        (evalNode host ⟨some timeout, some (deadlineAfter host w milliseconds)⟩ depthLimit tree)
        (Eval.now host w).2 := by
  simp [evaluate, allow, bind, Eval.now, h, pure, deadlineAfter]

theorem reads_allow (host : Host H σ) (timeout : Option Number) :
    Reads timeout.toList.length (allow host timeout) := by
  cases timeout with
  | none => exact reads_pure _
  | some t =>
    refine (reads_now host).bind (fun seconds => ?_) (Nat.add_zero 1)
    cases t.toFloat? with
    | none => exact reads_throw _
    | some milliseconds => exact reads_pure _

/-- A deadline only cuts an evaluation short. Where the tags do not see the clock, the evaluation
ends like the one without a deadline and has done the same, or it has timed out: then the last thing
it did was a reading that exceeds the deadline, the only one to do so, and before that it did what
the other does first. Every evaluation that gives a text reads the clock once for each node and once
more for each tag, besides the reading that a timeout is counted from. -/
theorem deadline_only_shortens (host : Host H σ) (tree : Node) (w : World H σ) :
    (∀ {τ : Type} (view : σ → τ), ClockApart host view →
      ∀ timeout milliseconds, Number.toFloat? timeout = some milliseconds →
        ∀ r v r' v', evaluate host (some timeout) tree w = (r, v) →
          evaluate host none tree w = (r', v') →
          ∃ since, v.events = since ++ .read (host.now w.state).1 :: w.events ∧
            (r = r' ∧ World.Agree view v v' ∧ OnTime (deadlineAfter host w milliseconds) since ∨
              r = .error (.timedOut (some timeout)) ∧
                OverTime (deadlineAfter host w milliseconds) since ∧
                acts v.events <:+ acts v'.events)) ∧
    (∀ timeout text v, evaluate host timeout tree w = (.ok text, v) →
      readings v.events = readings w.events + timeout.toList.length + tree.nodes.length +
        tree.tagNames.length) := by
  constructor
  · intro τ view hclock timeout milliseconds htimeout r v r' v' hv hv'
    have hshortens := ((congruence_shortens hclock (some timeout)
      (deadlineAfter host w milliseconds)).evalNode tree depthLimit).mapError
        (k := EvalError.reported) rfl
    obtain ⟨-, since, hsince, hends⟩ := hshortens _ w (World.Agree.now hclock w)
    rw [← evaluate_timed htimeout, ← evaluate_untimed, hv, hv'] at hends
    rw [← evaluate_timed htimeout, hv] at hsince
    exact ⟨since, hsince, hends⟩
  · intro timeout text v h
    have hreads : Reads (timeout.toList.length + readingsOf tree.nodes)
        (evaluate host timeout tree) :=
      (reads_allow host timeout).bind
        (fun allowance => ((scheme_reads host allowance).evalNode tree depthLimit).mapError _) rfl
    rw [hreads w text v h, readingsOf, Node.tagNames]
    omega

def drowsy : World Host.Tag Host.Stage where
  bindings := .initial [("sleep", .host ⟨"sleep", .sleep (.int 10)⟩)]
  state := ⟨.int 0, .int 1, .cycle [] 0, [], []⟩
  events := []

/-- Five milliseconds for a template that sleeps for ten, which reads the clock four times. -/
theorem sleep_only_shortened :
    let tree : Node := .template [.tag "sleep" [.quoted .single "x" 3] 11] 11
    let timed := evaluate Host.scripted (some (.float 5)) tree drowsy
    let untimed := evaluate Host.scripted none tree drowsy
    (∃ since, timed.2.events = since ++ [.read (Host.scripted.now drowsy.state).1] ∧
      (timed.1 = untimed.1 ∧ World.Agree Host.Stage.offClock timed.2 untimed.2 ∧
          OnTime (deadlineAfter Host.scripted drowsy 5) since ∨
        timed.1 = .error (.timedOut (some (.float 5))) ∧
          OverTime (deadlineAfter Host.scripted drowsy 5) since ∧
          acts timed.2.events <:+ acts untimed.2.events)) ∧
    untimed.1 = .ok "" ∧ readings untimed.2.events = 4 := by
  intro tree timed untimed
  have huntimed : untimed.1 = .ok "" := rfl
  obtain ⟨hshort, hreadings⟩ := deadline_only_shortens Host.scripted tree drowsy
  have hevaluated : evaluate Host.scripted none tree drowsy = (.ok "", untimed.2) := by
    rw [← huntimed]
  exact ⟨hshort Host.Stage.offClock Host.clockApart_scripted (.float 5) 5 rfl timed.1 timed.2
    untimed.1 untimed.2 rfl rfl, huntimed, hreadings none "" untimed.2 hevaluated⟩

end TagTemplate.Evaluation
