import TagTemplate.Proofs.Evaluation.Congruence

/-! The course of an evaluation in the time that it is allowed. Each node is visited in some world, from
which its parts are evaluated one after another; what the node itself does with their texts comes last.
A failure on the way is the end of every node around it. -/
namespace TagTemplate.Evaluation
open Template

variable {H σ : Type}

/-- What is done for a node before its part of that index is come to. -/
def approach (host : Host H σ) (allowance : Allowance) (depth : Nat) (node : Node) (i : Nat) :
    Eval H σ (Option (Binding H) × List String) := do
  checkTime host allowance
  let binding ← settle node
  let texts ← evalNodes host allowance depth (node.parts.take i)
  pure (binding, texts)

/-- A node, the world in which it is come to, and the number of levels that may still be entered. -/
structure Visit (H σ : Type) where
  node : Node
  depth : Nat
  world : World H σ

namespace Visit

def root (tree : Node) (w : World H σ) : Visit H σ :=
  ⟨tree, depthLimit, w⟩

def outcome (host : Host H σ) (allowance : Allowance) (v : Visit H σ) :
    Except EvalError String × World H σ :=
  evalNode host allowance v.depth v.node v.world

def partIn? (host : Host H σ) (allowance : Allowance) (v : Visit H σ) (i : Nat) :
    Option (Visit H σ) :=
  match v.depth with
  | 0 => none
  | depth + 1 =>
    match approach host allowance depth v.node i v.world with
    | (.ok _, world) => v.node.parts[i]?.map fun part => ⟨part, depth, world⟩
    | (.error _, _) => none

/-- The visit of the node at a place, if the evaluation comes there in time. -/
def reach? (host : Host H σ) (allowance : Allowance) : Place → Visit H σ → Option (Visit H σ)
  | [], v => some v
  | i :: rest, v => (v.partIn? host allowance i).bind (reach? host allowance rest)

/-- The text of the first part: for a declaration, the value of its name. -/
def valueIn? (host : Host H σ) (allowance : Allowance) (v : Visit H σ) : Option String :=
  (v.partIn? host allowance 0).bind fun part => (part.outcome host allowance).1.toOption

def reachedValue? (host : Host H σ) (allowance : Allowance) (v : Visit H σ) (q : Place) :
    Option String :=
  (v.reach? host allowance q).bind (valueIn? host allowance)

end Visit

variable {host : Host H σ} {allowance : Allowance} {depth i j : Nat} {node part : Node}
  {v w w₀ : World H σ} {e : EvalError} {binding : Option (Binding H)} {texts : List String}

theorem Congruence.approach {a b : Allowance} {R : ∀ {α : Type}, Eval H σ α → Eval H σ α → Prop}
    (h : Congruence host a b R) (depth : Nat) (node : Node) (i : Nat) :
    R (Evaluation.approach host a depth node i) (Evaluation.approach host b depth node i) :=
  h.bind h.checkTime fun _ => h.bind (h.settle node) fun _ =>
    h.bind (h.evalNodes _ depth) fun _ => h.pure _

theorem approach_zero (node : Node) :
    approach host allowance depth node 0 =
      checkTime host allowance >>= fun _ => settle node >>= fun binding => pure (binding, []) := by
  simp only [approach, List.take_zero, evalNodes_nil, pure_bind]

theorem approach_succ (h : node.parts[i]? = some part) :
    approach host allowance depth node (i + 1) =
      approach host allowance depth node i >>= fun before =>
        evalNode host allowance depth part >>= fun text => pure (before.1, before.2 ++ [text]) := by
  simp [approach, List.take_add_one, h, evalNodes_append, evalNodes]

theorem approach_error_of_le (h : approach host allowance depth node i w₀ = (.error e, w))
    (hij : i ≤ j) (hj : j ≤ node.parts.length) :
    approach host allowance depth node j w₀ = (.error e, w) := by
  induction hij with
  | refl => exact h
  | step _ ih => rw [approach_succ (List.getElem?_eq_getElem hj), Eval.bind_of_error (ih (by omega))]

theorem length_of_evalNodes_ok {nodes : List Node}
    (h : evalNodes host allowance depth nodes v = (.ok texts, w)) :
    texts.length = nodes.length := by
  induction nodes generalizing texts v with
  | nil =>
    cases h
    rfl
  | cons node rest ih =>
    rw [evalNodes_cons] at h
    obtain ⟨text, u, -, h⟩ := Eval.bind_eq_ok h
    obtain ⟨more, u', hmore, h⟩ := Eval.bind_eq_ok h
    cases h
    simp only [List.length_cons, ih hmore]

theorem length_of_approach (hi : i ≤ node.parts.length)
    (h : approach host allowance depth node i w₀ = (.ok (binding, texts), w)) : texts.length = i := by
  obtain ⟨_, w₁, -, h⟩ := Eval.bind_eq_ok h
  obtain ⟨_, w₂, -, h⟩ := Eval.bind_eq_ok h
  obtain ⟨_, w₃, hparts, h⟩ := Eval.bind_eq_ok h
  cases h
  rw [length_of_evalNodes_ok hparts, List.length_take, Nat.min_eq_left hi]

theorem isSome_of_approach_ok
    (h : approach host allowance depth node i w₀ = (.ok (binding, texts), w)) :
    binding.isSome = node.tagName?.isSome := by
  obtain ⟨_, w₁, -, h⟩ := Eval.bind_eq_ok h
  obtain ⟨settled, w₂, hsettle, h⟩ := Eval.bind_eq_ok h
  obtain ⟨_, w₃, -, ⟨⟩⟩ := Eval.bind_eq_ok h
  unfold settle at hsettle
  cases hname : node.tagName? with
  | none =>
    simp only [hname] at hsettle
    cases hsettle
    rfl
  | some name =>
    simp only [hname] at hsettle
    obtain ⟨_, _, -, ⟨⟩⟩ := Eval.bind_eq_ok hsettle
    rfl

namespace EvalError

theorem acrossTemplate_of_plain (h : e.sense = .plain) : e.acrossTemplate = e := by
  simp only [acrossTemplate, h]

theorem reported_of_plain (h : e.sense = .plain) : e.reported = e := by
  simp only [reported, h]

theorem acrossTemplate_idem (e : EvalError) : e.acrossTemplate.acrossTemplate = e.acrossTemplate := by
  cases h : e.sense <;> simp [acrossTemplate, h] <;> rfl

theorem acrossTemplate_shownOutside (node : Node) (e : EvalError) :
    (shownOutside node e).acrossTemplate = e.acrossTemplate := by
  cases node with
  | template => exact acrossTemplate_idem e
  | _ => rfl

theorem shownOutside_of_acrossTemplate (node : Node) (h : e.acrossTemplate = e) :
    shownOutside node e = e := by
  cases node with
  | template => exact h
  | _ => rfl

end EvalError

theorem evalNode_of_approach_ok
    (h : approach host allowance depth node node.parts.length w = (.ok (binding, texts), v)) :
    evalNode host allowance (depth + 1) node w = conclude host allowance binding texts node v := by
  rw [approach, List.take_length] at h
  obtain ⟨_, w₁, hcheck, h⟩ := Eval.bind_eq_ok h
  obtain ⟨b, w₂, hsettle, h⟩ := Eval.bind_eq_ok h
  obtain ⟨ts, w₃, hparts, h⟩ := Eval.bind_eq_ok h
  cases h
  rw [evalNode_eq_around, around, Eval.bind_of_ok hcheck, Eval.bind_of_ok hsettle,
    Eval.bind_of_ok (Eval.mapError_of_ok hparts)]

theorem evalNode_of_approach_error
    (h : approach host allowance depth node node.parts.length w = (.error e, v)) :
    ∃ e', evalNode host allowance (depth + 1) node w = (.error e', v) ∧
      (e.acrossTemplate = e → e' = e) := by
  rw [approach, List.take_length] at h
  rw [evalNode_eq_around, around]
  -- The same three steps on both sides. Only how an error of the parts shows may differ, and the
  -- world does not depend on it.
  rcases hcheck : checkTime host allowance w with ⟨e₁ | _, w₁⟩
  · rw [Eval.bind_of_error hcheck] at h ⊢
    cases h
    exact ⟨e, rfl, fun _ => rfl⟩
  rw [Eval.bind_of_ok hcheck] at h ⊢
  rcases hsettle : settle node w₁ with ⟨e₂ | b, w₂⟩
  · rw [Eval.bind_of_error hsettle] at h ⊢
    cases h
    exact ⟨e, rfl, fun _ => rfl⟩
  rw [Eval.bind_of_ok hsettle] at h ⊢
  rcases hparts : evalNodes host allowance depth node.parts w₂ with ⟨e₃ | ts, w₃⟩
  · rw [Eval.bind_of_error hparts] at h
    cases h
    exact ⟨_, Eval.bind_of_error (Eval.mapError_of_error hparts),
      EvalError.shownOutside_of_acrossTemplate node⟩
  · rw [Eval.bind_of_ok hparts] at h
    cases h

theorem evalNode_of_part_error
    (happroach : approach host allowance depth node i w₀ = (.ok (binding, texts), v))
    (hpart : node.parts[i]? = some part)
    (h : evalNode host allowance depth part v = (.error e, w)) :
    evalNode host allowance (depth + 1) node w₀ = (.error (shownOutside node e), w) := by
  obtain ⟨_, w₁, hcheck, happroach⟩ := Eval.bind_eq_ok happroach
  obtain ⟨b, w₂, hsettle, happroach⟩ := Eval.bind_eq_ok happroach
  obtain ⟨ts, w₃, hfront, happroach⟩ := Eval.bind_eq_ok happroach
  cases happroach
  have hsplit : node.parts = node.parts.take i ++ part :: node.parts.drop (i + 1) := by
    obtain ⟨hi, hget⟩ := List.getElem?_eq_some_iff.mp hpart
    rw [← hget, ← List.drop_eq_getElem_cons hi, List.take_append_drop]
  have hparts : evalNodes host allowance depth node.parts w₂ = (.error e, w) := by
    rw [hsplit, evalNodes_append, Eval.bind_of_ok hfront, evalNodes_cons, bind_assoc,
      Eval.bind_of_error h]
  rw [evalNode_eq_around, around, Eval.bind_of_ok hcheck, Eval.bind_of_ok hsettle,
    Eval.bind_of_error (Eval.mapError_of_error hparts)]

theorem evaluate_of_allow {timeout : Option Number}
    (h : allow host timeout w₀ = (.ok allowance, w)) (tree : Node) :
    evaluate host timeout tree w₀ =
      (((Visit.root tree w).outcome host allowance).1.mapError .reported,
        ((Visit.root tree w).outcome host allowance).2) := by
  rw [evaluate, Eval.bind_of_ok h]
  rfl

namespace Visit

variable {u v : Visit H σ} {q : Place} {text : String}

theorem reach?_cons (h : v.partIn? host allowance i = some u) (q : Place) :
    v.reach? host allowance (i :: q) = u.reach? host allowance q := by
  rw [reach?, h, Option.bind_some]

theorem outcome_of_depth_eq_zero (h : v.depth = 0) :
    v.outcome host allowance = (.error .tooDeep, v.world) := by
  rw [outcome, h, evalNode_zero]
  rfl

theorem partIn?_of_depth_eq_zero (h : v.depth = 0) (i : Nat) : v.partIn? host allowance i = none := by
  simp only [partIn?, h]

/-- The visited part is the one of that index, a level below the node, in the world that is left when
the node has come to it. -/
theorem spec_of_partIn? (h : v.partIn? host allowance i = some u) :
    v.depth = u.depth + 1 ∧ v.node.parts[i]? = some u.node ∧
      ∃ before, approach host allowance u.depth v.node i v.world = (.ok before, u.world) := by
  unfold partIn? at h
  split at h
  · cases h
  · rename_i depth hdepth
    rcases happroach : approach host allowance depth v.node i v.world with ⟨_ | before, w⟩
    · simp [happroach] at h
    · rw [happroach] at h
      obtain ⟨part, hpart, rfl⟩ := Option.map_eq_some_iff.mp h
      exact ⟨hdepth, hpart, before, happroach⟩

theorem depth_of_partIn? (h : v.partIn? host allowance i = some u) : v.depth = u.depth + 1 :=
  (spec_of_partIn? h).1

theorem mem_parts_of_partIn? (h : v.partIn? host allowance i = some u) :
    v.node.parts[i]? = some u.node :=
  (spec_of_partIn? h).2.1

theorem depth_add_length (h : v.reach? host allowance q = some u) :
    u.depth + q.length = v.depth := by
  induction q generalizing v with
  | nil =>
    cases h
    rfl
  | cons i rest ih =>
    obtain ⟨part, hpart, hrest⟩ := Option.bind_eq_some_iff.mp h
    rw [depth_of_partIn? hpart, ← ih hrest, List.length_cons, Nat.add_assoc]

theorem approach_succ_cases (host : Host H σ) (allowance : Allowance) (hdepth : v.depth = depth + 1)
    (hpart : v.node.parts[i]? = some part) :
    (∃ e w, approach host allowance depth v.node i v.world = (.error e, w) ∧
      approach host allowance depth v.node (i + 1) v.world = (.error e, w) ∧
      v.partIn? host allowance i = none) ∨
    ∃ before u, approach host allowance depth v.node i v.world = (.ok before, u.world) ∧
      v.partIn? host allowance i = some u ∧ u.node = part ∧
      approach host allowance depth v.node (i + 1) v.world =
        ((u.outcome host allowance).1.map fun text => (before.1, before.2 ++ [text]),
          (u.outcome host allowance).2) := by
  rw [approach_succ hpart]
  rcases happroach : approach host allowance depth v.node i v.world with ⟨e | before, w⟩
  · exact .inl ⟨e, w, rfl, Eval.bind_of_error happroach, by simp only [partIn?, hdepth, happroach]⟩
  · refine .inr ⟨before, ⟨part, depth, w⟩, rfl, ?_, rfl, ?_⟩
    · simp only [partIn?, hdepth, happroach, hpart, Option.map_some]
    · rw [Eval.bind_of_ok happroach]
      rcases hpart : evalNode host allowance depth part w with ⟨e | text, w'⟩
      · rw [Eval.bind_of_error hpart, outcome, hpart]
        rfl
      · rw [Eval.bind_of_ok hpart, outcome, hpart]
        rfl

/-- The parts fail and the node with them, or it comes to its conclusion with a text for each. -/
theorem outcome_cases (host : Host H σ) (allowance : Allowance) (hdepth : v.depth = depth + 1) :
    (∃ e e' w, approach host allowance depth v.node v.node.parts.length v.world = (.error e, w) ∧
      v.outcome host allowance = (.error e', w) ∧ (e.acrossTemplate = e → e' = e)) ∨
    ∃ binding texts w, approach host allowance depth v.node v.node.parts.length v.world =
        (.ok (binding, texts), w) ∧ texts.length = v.node.parts.length ∧
      v.outcome host allowance = conclude host allowance binding texts v.node w := by
  rw [outcome, hdepth]
  rcases happroach : approach host allowance depth v.node v.node.parts.length v.world with
    ⟨e | ⟨binding, texts⟩, w⟩
  · obtain ⟨e', he'⟩ := evalNode_of_approach_error happroach
    exact .inl ⟨e, e', w, rfl, he'⟩
  · exact .inr ⟨binding, texts, w, rfl, length_of_approach (Nat.le_refl _) happroach,
      evalNode_of_approach_ok happroach⟩

theorem outcome_of_part_error (hu : v.partIn? host allowance i = some u)
    (h : u.outcome host allowance = (.error e, w)) :
    v.outcome host allowance = (.error (shownOutside v.node e), w) := by
  obtain ⟨hdepth, hpart, before, happroach⟩ := spec_of_partIn? hu
  rw [outcome, hdepth]
  exact evalNode_of_part_error happroach hpart h

/-- However deep an error comes from, outside of a template it shows the same. -/
theorem outcome_of_reach_error (hu : v.reach? host allowance q = some u)
    (h : u.outcome host allowance = (.error e, w)) :
    ∃ e', v.outcome host allowance = (.error e', w) ∧ e'.acrossTemplate = e.acrossTemplate := by
  induction q generalizing v with
  | nil =>
    cases hu
    exact ⟨e, h, rfl⟩
  | cons i rest ih =>
    obtain ⟨part, hpart, hrest⟩ := Option.bind_eq_some_iff.mp hu
    obtain ⟨e', he', hsame⟩ := ih hrest
    refine ⟨_, outcome_of_part_error hpart he', ?_⟩
    rw [EvalError.acrossTemplate_shownOutside, hsame]

theorem exists_part_of_approach_ok {before : Option (Binding H) × List String}
    (hdepth : v.depth = depth + 1)
    (h : approach host allowance depth v.node i v.world = (.ok before, w)) (hi : i ≤ v.node.parts.length)
    (hji : j < i) (hpart : v.node.parts[j]? = some part) :
    ∃ u, v.partIn? host allowance j = some u ∧ u.node = part ∧
      ∃ text w, u.outcome host allowance = (.ok text, w) := by
  have hfails : ∀ e w', approach host allowance depth v.node (j + 1) v.world ≠ (.error e, w') := by
    intro e w' herror
    cases h.symm.trans (approach_error_of_le herror hji hi)
  obtain ⟨e, w', _, hsucc, _⟩ | ⟨before, u, _, hu, hnode, hsucc⟩ :=
    approach_succ_cases host allowance hdepth hpart
  · exact absurd hsucc (hfails e w')
  · refine ⟨u, hu, hnode, ?_⟩
    rcases houtcome : u.outcome host allowance with ⟨e | text, w'⟩
    · rw [houtcome] at hsucc
      exact absurd hsucc (hfails e w')
    · exact ⟨text, w', rfl⟩

theorem exists_part_of_outcome_ok (h : v.outcome host allowance = (.ok text, w))
    (hpart : v.node.parts[i]? = some part) :
    ∃ u, v.partIn? host allowance i = some u ∧ u.node = part ∧
      ∃ text w, u.outcome host allowance = (.ok text, w) := by
  obtain ⟨hi, -⟩ := List.getElem?_eq_some_iff.mp hpart
  cases hdepth : v.depth with
  | zero =>
    rw [outcome_of_depth_eq_zero hdepth] at h
    cases h
  | succ depth =>
    obtain ⟨_, _, _, _, herror, _⟩ | ⟨_, _, _, happroach, _, _⟩ :=
      outcome_cases host allowance hdepth
    · cases h.symm.trans herror
    · exact exists_part_of_approach_ok hdepth happroach (Nat.le_refl _) hi hpart

/-- A node that gives a text has come to all the nodes within, and each has given a text. -/
theorem exists_reach_of_outcome_ok (h : v.outcome host allowance = (.ok text, w)) :
    ∀ d ∈ v.node.postOrder, ∃ u, v.reach? host allowance d.1 = some u ∧ u.node = d.2 ∧
      ∃ text w, u.outcome host allowance = (.ok text, w) := by
  -- On the tree, for visits of any depth and world: a part is visited in another world than the node.
  induction hnode : v.node using Node.induction_parts generalizing v text w with
  | h node ih =>
    subst hnode
    intro d hd
    rw [Node.postOrder, Node.traverse_eq, Node.putLast, List.mem_append] at hd
    rcases hd with hd | hd
    · obtain ⟨i, part, hpart, d', hd', rfl⟩ := Node.exists_part_of_mem_traverseFrom hd
      obtain ⟨u, hu, rfl, text', w', hok⟩ := exists_part_of_outcome_ok h hpart
      obtain ⟨x, hx, hrest⟩ := ih u.node (List.mem_of_getElem? hpart) hok rfl d' hd'
      refine ⟨x, ?_, hrest⟩
      rw [Node.underneath, Nat.zero_add, reach?_cons hu, hx]
    · obtain rfl := List.mem_singleton.mp hd
      exact ⟨v, rfl, rfl, text, w, h⟩

end Visit
end TagTemplate.Evaluation
