import TagTemplate.Proofs.Evaluation.Bindings
import TagTemplate.Proofs.Evaluation.Clock
import TagTemplate.Proofs.Evaluation.Course

/-! Visits without a deadline. Nothing keeps such a visit from the parts of its node but that it is too
deep, or a tag whose name stands for nothing. -/
namespace TagTemplate.Evaluation
open Template

variable {H σ : Type}

def evaluable : Node → Bool
  | .declaration _ none _ => false
  | .foreign .. => false
  | _ => true

namespace Visit

def run (host : Host H σ) (v : Visit H σ) : Except EvalError String × World H σ :=
  v.outcome host .unlimited

def at? (host : Host H σ) (q : Place) (v : Visit H σ) : Option (Visit H σ) :=
  v.reach? host .unlimited q

def valueAt? (host : Host H σ) (v : Visit H σ) (q : Place) : Option String :=
  v.reachedValue? host .unlimited q

def inside (host : Host H σ) (v : Visit H σ) : World H σ :=
  (Eval.now host v.world).2

/-- Whether the node gets to its parts: it is not too deep, and if it is a tag, its name stands for
something. -/
def begins (v : Visit H σ) : Bool :=
  v.depth != 0 && v.node.tagName?.all fun name => (v.world.bindings.resolve? name).isSome

def texts (host : Host H σ) (v : Visit H σ) (parts : List Node) :
    Except EvalError (List String) × World H σ :=
  evalNodes host .unlimited (v.depth - 1) parts (v.inside host)

def callWith (host : Host H σ) (v : Visit H σ) (name : String) (binding : Binding H) :
    Eval H σ String := do
  let texts ← evalNodes host .unlimited (v.depth - 1) v.node.parts
  Eval.record (.called name texts)
  let result ← callBinding host binding texts
  checkTime host .unlimited
  pure result

def Quiet (host : Host H σ) (v : Visit H σ) : Prop :=
  ∀ name binding texts w, v.node.tagName? = some name → v.begins →
    v.world.bindings.resolve? name = some binding →
    v.texts host v.node.parts = (.ok texts, w) →
    ∃ text w', callBinding host binding texts { w with events := .called name texts :: w.events } =
      (.ok text, w') ∧ w'.bindings = w.bindings

/-- All nodes within can be evaluated, and no call that is come to fails or changes what names stand
for. -/
structure Orderly (host : Host H σ) (v : Visit H σ) : Prop where
  evaluable : ∀ node ∈ v.node.nodes, evaluable node
  quiet : ∀ q u, v.at? host q = some u → u.Quiet host

variable {host : Host H σ} {u v : Visit H σ} {w : World H σ} {i depth : Nat}
  {texts : List String} {name : String} {e : EvalError} {binding : Binding H}
  {settled : Option (Binding H)}

theorem at?_cons (h : v.partIn? host .unlimited i = some u) (q : Place) :
    v.at? host (i :: q) = u.at? host q :=
  reach?_cons h q

theorem Orderly.at_part (h : v.Orderly host) (hu : v.partIn? host .unlimited i = some u) :
    u.Orderly host := by
  constructor
  · intro node hnode
    have hpart := List.mem_of_getElem? (mem_parts_of_partIn? hu)
    exact h.evaluable node (Node.mem_nodes_of_mem_parts hpart hnode)
  · intro q x hx
    exact h.quiet (i :: q) x ((at?_cons hu q).trans hx)

theorem Orderly.evaluable_node (h : v.Orderly host) : Evaluation.evaluable v.node := by
  apply h.evaluable
  rw [Node.nodes_eq]
  exact .head _

theorem begins_iff :
    v.begins ↔ v.depth ≠ 0 ∧ ∀ name, v.node.tagName? = some name →
      ∃ binding, v.world.bindings.resolve? name = some binding := by
  simp [begins, Option.all_eq_true, Option.isSome_iff_exists]

theorem depth_pos_of_begins (h : v.begins) : v.depth ≠ 0 :=
  (begins_iff.mp h).1

theorem not_begins_cases (h : ¬v.begins) :
    v.depth = 0 ∨ v.depth ≠ 0 ∧
      ∃ name, v.node.tagName? = some name ∧ v.world.bindings.resolve? name = none := by
  rw [begins_iff, Classical.not_and_iff_not_or_not] at h
  by_cases hdepth : v.depth = 0
  · exact .inl hdepth
  · obtain ⟨name, hname⟩ := Classical.not_forall.mp (h.resolve_left (not_not_intro hdepth))
    obtain ⟨hname, hresolve⟩ := Classical.not_imp.mp hname
    refine .inr ⟨hdepth, name, hname, Option.eq_none_iff_forall_ne_some.mpr fun binding hb => ?_⟩
    exact hresolve ⟨binding, hb⟩

theorem settle_of_resolved (hname : v.node.tagName? = some name)
    (h : v.world.bindings.resolve? name = some binding) :
    settle v.node (v.inside host) = (.ok (some binding), v.inside host) := by
  have hinside : (v.inside host).bindings = v.world.bindings := rfl
  have hresolve : resolve name (v.inside host) = (.ok binding, v.inside host) := by
    rw [resolve_apply, hinside, h]
  simp only [settle, hname]
  rw [Eval.bind_of_ok hresolve]
  rfl

theorem settle_of_unresolved (hname : v.node.tagName? = some name)
    (h : v.world.bindings.resolve? name = none) :
    settle v.node (v.inside host) = (.error (.undefinedTag name), v.inside host) := by
  have hinside : (v.inside host).bindings = v.world.bindings := rfl
  have hresolve : resolve name (v.inside host) = (.error (.undefinedTag name), v.inside host) := by
    rw [resolve_apply, hinside, h]
  simp only [settle, hname]
  rw [Eval.bind_of_error hresolve]

theorem settle_of_no_tag (hname : v.node.tagName? = none) :
    settle v.node w = (.ok none, w) := by
  simp only [settle, hname]
  rfl

theorem approach_zero_of_begins (host : Host H σ) (depth : Nat) (h : v.begins) :
    ∃ settled, approach host .unlimited depth v.node 0 v.world =
      (.ok (settled, []), v.inside host) := by
  rw [approach_zero, Eval.bind_of_ok (checkTime_unlimited host v.world)]
  cases hname : v.node.tagName? with
  | none => exact ⟨none, Eval.bind_of_ok (settle_of_no_tag hname)⟩
  | some name =>
    obtain ⟨binding, hbinding⟩ := (begins_iff.mp h).2 name hname
    exact ⟨some binding, Eval.bind_of_ok (settle_of_resolved hname hbinding)⟩

theorem spec_of_settle_ok (h : settle v.node (v.inside host) = (.ok settled, w)) :
    w = v.inside host ∧ (v.node.tagName? = none ∧ settled = none ∨
      ∃ name binding, v.node.tagName? = some name ∧ settled = some binding ∧
        v.world.bindings.resolve? name = some binding) := by
  cases hname : v.node.tagName? with
  | none =>
    cases (settle_of_no_tag hname).symm.trans h
    exact ⟨rfl, .inl ⟨rfl, rfl⟩⟩
  | some name =>
    cases hbinding : v.world.bindings.resolve? name with
    | none => cases (settle_of_unresolved hname hbinding).symm.trans h
    | some binding =>
      cases (settle_of_resolved hname hbinding).symm.trans h
      exact ⟨rfl, .inr ⟨name, binding, rfl, rfl, hbinding⟩⟩

/-- Only a node that begins comes to its parts; a tag comes to them with what its name stands for. -/
theorem spec_of_approach_ok (hdepth : v.depth = depth + 1)
    (h : approach host .unlimited depth v.node i v.world = (.ok (settled, texts), w)) :
    v.begins ∧ v.texts host (v.node.parts.take i) = (.ok texts, w) ∧
      (v.node.tagName? = none ∧ settled = none ∨
        ∃ name binding, v.node.tagName? = some name ∧ settled = some binding ∧
          v.world.bindings.resolve? name = some binding) := by
  rw [approach, Eval.bind_of_ok (checkTime_unlimited host v.world)] at h
  obtain ⟨found, w₁, hsettle, h⟩ := Eval.bind_eq_ok h
  obtain ⟨ts, w₂, hparts, h⟩ := Eval.bind_eq_ok h
  cases h
  obtain ⟨rfl, hsettled⟩ := spec_of_settle_ok (v := v) hsettle
  refine ⟨begins_iff.mpr ⟨by omega, fun name hname => ?_⟩, ?_, hsettled⟩
  · obtain ⟨hnone, -⟩ | ⟨other, binding, hother, -, hbinding⟩ := hsettled
    · cases hnone.symm.trans hname
    · cases hother.symm.trans hname
      exact ⟨binding, hbinding⟩
  · rw [Visit.texts, hdepth]
    exact hparts

theorem run_of_unresolved (hdepth : v.depth ≠ 0) (hname : v.node.tagName? = some name)
    (h : v.world.bindings.resolve? name = none) :
    v.run host = (.error (.undefinedTag name), v.inside host) := by
  obtain ⟨depth, hdepth⟩ := Nat.exists_eq_succ_of_ne_zero hdepth
  rw [run, outcome, hdepth, evalNode_eq_around, around,
    Eval.bind_of_ok (checkTime_unlimited host v.world)]
  exact Eval.bind_of_error (settle_of_unresolved hname h)

theorem run_of_resolved (hdepth : v.depth ≠ 0) (hname : v.node.tagName? = some name)
    (h : v.world.bindings.resolve? name = some binding) :
    v.run host = v.callWith host name binding (v.inside host) := by
  obtain ⟨depth, hdepth⟩ := Nat.exists_eq_succ_of_ne_zero hdepth
  have hsettle : settle v.node (v.inside host) = _ := settle_of_resolved hname h
  rw [run, outcome, callWith, hdepth, evalNode_eq_around, around,
    Eval.bind_of_ok (checkTime_unlimited host v.world)]
  refine (Eval.bind_of_ok hsettle).trans ?_
  cases hnode : v.node with
  | tag other arguments n =>
    rw [hnode] at hname
    obtain rfl : other = name := Option.some.inj hname
    simp only [shownOutside, Eval.mapError_id]
    rfl
  | _ =>
    rw [hnode] at hname
    cases hname

theorem run_of_not_begins (host : Host H σ) (h : ¬v.begins) :
    ∃ e w, v.run host = (.error e, w) ∧ e.sense = .plain := by
  rcases not_begins_cases h with hdepth | ⟨hdepth, name, hname, hresolve⟩
  · exact ⟨_, _, outcome_of_depth_eq_zero hdepth, rfl⟩
  · exact ⟨_, _, run_of_unresolved hdepth hname hresolve, rfl⟩

theorem Quiet.exists_call_eq_ok (h : v.Quiet host) (hdepth : v.depth = depth + 1)
    (hname : v.node.tagName? = some name)
    (happroach : approach host .unlimited depth v.node v.node.parts.length v.world =
      (.ok (settled, texts), w)) :
    ∃ binding, settled = some binding ∧
      ∃ text w', callBinding host binding texts { w with events := .called name texts :: w.events } =
        (.ok text, w') ∧ w'.bindings = w.bindings := by
  obtain ⟨hbegins, htexts, ⟨hnone, -⟩ | ⟨other, binding, hother, rfl, hbinding⟩⟩ :=
    spec_of_approach_ok hdepth happroach
  · cases hnone.symm.trans hname
  · cases hother.symm.trans hname
    rw [List.take_length] at htexts
    exact ⟨binding, rfl, h name binding texts w hname hbegins hbinding htexts⟩

theorem exists_conclude_eq_ok (h : v.Orderly host) (hdepth : v.depth = depth + 1)
    (happroach : approach host .unlimited depth v.node v.node.parts.length v.world =
      (.ok (settled, texts), w)) :
    ∃ text w', conclude host .unlimited settled texts v.node w = (.ok text, w') := by
  have hevaluable := h.evaluable_node
  cases hnode : v.node with
  | tag name arguments n =>
    have hname : v.node.tagName? = some name := by rw [hnode]; rfl
    obtain ⟨binding, rfl, text, w', hcall, -⟩ :=
      (h.quiet [] v rfl).exists_call_eq_ok hdepth hname happroach
    exact ⟨text, (Eval.now host w').2, Eval.bind_of_ok hcall⟩
  | declaration name value n =>
    cases value with
    | none =>
      rw [hnode] at hevaluable
      cases hevaluable
    | some value => exact ⟨"", _, rfl⟩
  | foreign kind n =>
    rw [hnode] at hevaluable
    cases hevaluable
  | _ => exact ⟨_, w, rfl⟩

end Visit
end TagTemplate.Evaluation
