import TagTemplate.Proofs.Evaluation.Accumulation
import TagTemplate.Proofs.Evaluation.Acting

/-! The calls that an evaluation tells of are made. A host that keeps a record of the calls of its tags
finds in it just those that are told of, as far as a name stood for one of its tags. -/
namespace TagTemplate.Evaluation
open Template

variable {H σ : Type}

/-- The host with a record of the calls of its tags, latest first. -/
def Host.recording (host : Host H σ) : Host H (σ × List (H × List String)) where
  now s := ((host.now s.1).1, (host.now s.1).2, s.2)
  draw s := ((host.draw s.1).1, (host.draw s.1).2, s.2)
  call tag texts bs s :=
    let (result, bindings, state) := host.call tag texts bs s.1
    (result, bindings, state, (tag, texts) :: s.2)

structure Call (H : Type) where
  name : String
  binding : Binding H
  texts : List String

namespace Call

def told (c : Call H) : String × List String :=
  (c.name, c.texts)

def made? (c : Call H) : Option (H × List String) :=
  match c.binding with
  | .host tag => some (tag, c.texts)
  | _ => none

end Call

/-- On the way from the first world to the second these calls have been told of, and those of the
host's own tags are on record. -/
structure World.Calls (v w : World H (σ × List (H × List String))) (cs : List (Call H)) : Prop where
  events : ∃ since, w.events = since ++ v.events ∧ calls since = cs.map Call.told
  record : w.state.2 = (cs.filterMap Call.made?).reverse ++ v.state.2

namespace Visit

def callIn? (host : Host H σ) (allowance : Allowance) (v : Visit H σ) :
    Option (Binding H × List String) :=
  match v.depth with
  | 0 => none
  | depth + 1 =>
    match (approach host allowance depth v.node v.node.parts.length v.world).1 with
    | .ok (some binding, texts) => some (binding, texts)
    | _ => none

def ownCall (host : Host H σ) (allowance : Allowance) (node : Node) (v : Option (Visit H σ)) :
    Option (Call H) :=
  node.tagName?.bind fun name => (v.bind (callIn? host allowance)).map fun c => ⟨name, c.1, c.2⟩

/-- The calls that the evaluation comes to, in post-order. -/
def callsWithin (host : Host H σ) (allowance : Allowance) (v : Visit H σ) : List (Call H) :=
  v.node.postOrder.filterMap (v.share? host allowance (ownCall host allowance))

end Visit

variable {host : Host H σ} {allowance : Allowance} {u v w : World H (σ × List (H × List String))}
  {cs ds : List (Call H)}

namespace World.Calls

theorem of_same (hrecord : w.state.2 = v.state.2)
    (hevents : ∃ since, w.events = since ++ v.events ∧ calls since = []) : Calls v w [] :=
  ⟨hevents, hrecord⟩

theorem refl (v : World H (σ × List (H × List String))) : Calls v v [] :=
  of_same rfl ⟨[], rfl, rfl⟩

theorem trans (h : Calls u v cs) (h' : Calls v w ds) : Calls u w (cs ++ ds) := by
  obtain ⟨since, hsince, hcs⟩ := h.events
  obtain ⟨next, hnext, hds⟩ := h'.events
  refine ⟨⟨next ++ since, ?_, ?_⟩, ?_⟩
  · rw [hnext, hsince, List.append_assoc]
  · rw [calls, List.reverse_append, List.filterMap_append, ← calls, ← calls, hcs, hds,
      List.map_append]
  · rw [h'.record, h.record, List.filterMap_append, List.reverse_append, List.append_assoc]

end World.Calls

theorem additive_calls : Additive (World.Calls (H := H) (σ := σ)) where
  refl := World.Calls.refl
  trans := World.Calls.trans

theorem calls_now (host : Host H σ) (w : World H (σ × List (H × List String))) :
    World.Calls w (Eval.now host.recording w).2 [] :=
  .of_same rfl ⟨[.read (host.recording.now w.state).1], rfl, rfl⟩

/-- A tag of the host leaves its call on record, and nothing else does. -/
theorem record_callBinding (host : Host H σ) (c : Call H)
    (w : World H (σ × List (H × List String))) :
    (callBinding host.recording c.binding c.texts w).2.state.2 = c.made?.toList ++ w.state.2 := by
  obtain ⟨name, binding, texts⟩ := c
  cases binding with
  | absent => rfl
  | constant value => rfl
  | host tag => rfl
  | builtin b =>
    rw [snd_callBinding_builtin]
    rcases snd_callBuiltin host.recording b (texts.map some) w with h | h <;> rw [h] <;> rfl

theorem calls_call (host : Host H σ) (c : Call H) (w : World H (σ × List (H × List String))) :
    World.Calls w (callBinding host.recording c.binding c.texts
      { w with events := .called c.name c.texts :: w.events }).2 [c] := by
  obtain ⟨hevents, -⟩ := callLeaves_callBinding host.recording c.binding c.texts
    { w with events := .called c.name c.texts :: w.events }
  refine ⟨⟨[.called c.name c.texts], hevents, rfl⟩, ?_⟩
  rw [record_callBinding]
  cases h : c.made? <;> simp [h]

theorem calls_conclude (host : Host H σ) (allowance : Allowance) (node : Node)
    {settled : Option (Binding H)} (h : settled.isSome = node.tagName?.isSome) (texts : List String)
    (w : World H (σ × List (H × List String))) :
    World.Calls w (conclude host.recording allowance settled texts node w).2
      (node.tagName?.bind fun name => settled.map fun binding => ⟨name, binding, texts⟩).toList := by
  cases node with
  | tag name arguments n =>
    obtain ⟨binding, rfl⟩ := Option.isSome_iff_exists.mp h
    have hcall : World.Calls w ((Eval.record (.called name texts) >>= fun _ =>
        callBinding host.recording binding texts) w).2 [⟨name, binding, texts⟩] :=
      calls_call host ⟨name, binding, texts⟩ w
    rw [conclude, ← bind_assoc]
    refine additive_calls.bind hcall fun result w₁ _ => ?_
    exact additive_calls.bind (adds_checkTime (calls_now host) allowance w₁)
      fun _ w₂ _ => .refl w₂
  | declaration name value n =>
    cases value with
    | none => exact .refl w
    | some value => exact .of_same rfl ⟨[.bound name (texts.headD "")], rfl, rfl⟩
  | _ => exact .refl w

namespace Visit

theorem accumulation_calls (host : Host H σ) (allowance : Allowance) :
    Accumulation host.recording allowance World.Calls (ownCall host.recording allowance)
      (fun _ => True) where
  toAdditive := additive_calls
  now := calls_now host
  unvisited node := by cases h : node.tagName? <;> simp [ownCall, h]
  part _ _ := trivial
  tooDeep {v} hdepth := by
    cases h : v.node.tagName? <;> simp [ownCall, h, callIn?, hdepth]
  failed {v _ _ _} hdepth happroach := by
    cases h : v.node.tagName? <;> simp [ownCall, h, callIn?, hdepth, happroach]
  conclude {v depth settled texts w} _ hdepth happroach := by
    have hown : ownCall host.recording allowance v.node (some v) =
        v.node.tagName?.bind fun name => settled.map fun binding => ⟨name, binding, texts⟩ := by
      simp only [ownCall, callIn?, hdepth, happroach, Option.bind_some]
      cases settled <;> rfl
    rw [hown]
    exact calls_conclude host allowance v.node (isSome_of_approach_ok happroach) texts w

end Visit

/-- The calls that an evaluation tells of are those that it comes to, in post-order, and a host that
records the calls of its own tags has just these on record, however the evaluation ends. -/
theorem told_calls_are_made (host : Host H σ) {timeout : Option Number} {tree : Node}
    {w₀ : World H (σ × List (H × List String))} {r : Except EvalError String}
    (hallow : allow host.recording timeout w = (.ok allowance, w₀))
    (hrun : evaluate host.recording timeout tree w = (r, v)) :
    World.Calls w v ((Visit.root tree w₀).callsWithin host.recording allowance) := by
  have hbegins := additive_calls.allow (calls_now host) timeout w
  rw [hallow] at hbegins
  have houtcome := (Visit.accumulation_calls host allowance).outcome (v := .root tree w₀) trivial
  rw [evaluate_of_allow hallow] at hrun
  cases hrun
  exact hbegins.trans houtcome

example : (evaluate Visit.joining.recording none putOnce
    ⟨.initial [("f", .host ())], ((), []), []⟩).2.state.2 = [((), ["a"])] := by decide +kernel

end TagTemplate.Evaluation
