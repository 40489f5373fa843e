import TagTemplate.Proofs.Evaluation.Progress
import TagTemplate.Proofs.Evaluation.Reaching

/-! Names are settled by the tree. Which declaration a tag stands for, and which tag is the first to
stand for nothing, follows from where the declarations are. -/
namespace TagTemplate.Evaluation
open Template

variable {H σ : Type}

namespace Visit

/-- The name of a tag that no declaration reaches and that is not bound from the first. -/
def undefinedName? (tree : Node) (bindings : Bindings H) (d : Place × Node) : Option String :=
  d.2.tagName?.filter fun name =>
    (tree.reachingDeclaration? name d.1).isNone && (bindings.find? name).isNone

/-- Whether a node ends the evaluation that comes to it: it is too deep, or an undefined tag. -/
def stops (tree : Node) (bindings : Bindings H) (d : Place × Node) : Bool :=
  d.1.length == depthLimit || (undefinedName? tree bindings d).isSome

variable {host : Host H σ} {u v : Visit H σ} {w w' : World H σ} {tree : Node} {q : Place}
  {d : Place × Node} {name text value : String} {e : EvalError} {nodes : List (Place × Node)}

theorem callWith_constant (h : v.callWith host name (.constant value) w = (.ok text, w')) :
    text = value := by
  obtain ⟨texts, w₁, -, h⟩ := Eval.bind_eq_ok h
  cases h
  rfl

theorem resolve?_of_reached (h : v.Orderly host) (hq : v.at? host q = some u)
    (hreached : v.node.reachingDeclaration? name q = some d) :
    ∃ value, v.valueAt? host d.1 = some value ∧
      u.world.bindings.resolve? name = some (.constant value) := by
  have hleaves := leaves_at h hq name
  rw [← Node.reachingDeclaration?, hreached] at hleaves
  obtain ⟨value, hvalue, hfind⟩ := hleaves
  refine ⟨value, hvalue, ?_⟩
  rw [Bindings.resolve?_of_ne_absent (by simp [hfind]), hfind]

theorem resolve?_of_unreached (h : v.Orderly host)
    (hbound : ∀ name, v.world.bindings.find? name ≠ some .absent)
    (hq : v.at? host q = some u) (hunreached : v.node.reachingDeclaration? name q = none) :
    u.world.bindings.resolve? name = v.world.bindings.find? name := by
  have hleaves := leaves_at h hq name
  rw [← Node.reachingDeclaration?, hunreached] at hleaves
  have hfind : u.world.bindings.find? name = v.world.bindings.find? name := hleaves
  rw [Bindings.resolve?_of_ne_absent (hfind ▸ hbound name), hfind]

theorem resolve?_eq_none_iff (h : v.Orderly host)
    (hbound : ∀ name, v.world.bindings.find? name ≠ some .absent)
    (hq : v.at? host q = some u) (name : String) :
    u.world.bindings.resolve? name = none ↔
      v.node.reachingDeclaration? name q = none ∧ v.world.bindings.find? name = none := by
  cases hreaching : v.node.reachingDeclaration? name q with
  | some d =>
    obtain ⟨value, -, hresolve⟩ := resolve?_of_reached h hq hreaching
    simp [hresolve]
  | none => simp [resolve?_of_unreached h hbound hq hreaching]

theorem undefinedName?_eq_some_iff {bindings : Bindings H} :
    undefinedName? tree bindings d = some name ↔ d.2.tagName? = some name ∧
      tree.reachingDeclaration? name d.1 = none ∧ bindings.find? name = none := by
  simp [undefinedName?, Option.filter_eq_some_iff]

theorem stops_iff {bindings : Bindings H} :
    stops tree bindings d ↔
      d.1.length = depthLimit ∨ ∃ name, undefinedName? tree bindings d = some name := by
  simp [stops, Option.isSome_iff_exists]

/-- Of a node that the evaluation comes to, the tree tells whether it begins. -/
theorem not_begins_iff_stops (h : (root tree w).Orderly host)
    (hbound : ∀ name, w.bindings.find? name ≠ some .absent)
    (hv : (root tree w).at? host d.1 = some v) (hnode : v.node = d.2) :
    ¬v.begins ↔ stops tree w.bindings d := by
  have hdepth : v.depth + d.1.length = depthLimit := depth_add_length hv
  have hresolve := resolve?_eq_none_iff h hbound hv
  rw [stops_iff]
  constructor
  · intro hbegins
    rcases not_begins_cases hbegins with hzero | ⟨-, name, hname, hnone⟩
    · exact .inl (by omega)
    · rw [hnode] at hname
      exact .inr ⟨name, undefinedName?_eq_some_iff.mpr ⟨hname, (hresolve name).mp hnone⟩⟩
  · rintro (hlength | ⟨name, hundefined⟩) hbegins
    · exact depth_pos_of_begins hbegins (by omega)
    · obtain ⟨hname, hnone⟩ := undefinedName?_eq_some_iff.mp hundefined
      rw [← hnode] at hname
      obtain ⟨binding, hbinding⟩ := (begins_iff.mp hbegins).2 name hname
      rw [(hresolve name).mpr hnone] at hbinding
      cases hbinding

theorem run_of_stop (h : (root tree w).Orderly host)
    (hbound : ∀ name, w.bindings.find? name ≠ some .absent)
    (hv : (root tree w).at? host d.1 = some v) (hnode : v.node = d.2) (hbegins : ¬v.begins) :
    if d.1.length = depthLimit then v.run host = (.error .tooDeep, v.world)
    else ∃ name, undefinedName? tree w.bindings d = some name ∧
      v.run host = (.error (.undefinedTag name), v.inside host) := by
  have hdepth : v.depth + d.1.length = depthLimit := depth_add_length hv
  rcases not_begins_cases hbegins with hzero | ⟨hpos, name, hname, hnone⟩
  · rw [if_pos (by omega)]
    exact outcome_of_depth_eq_zero hzero
  · rw [if_neg (by omega)]
    refine ⟨name, undefinedName?_eq_some_iff.mpr ⟨hnode ▸ hname, ?_⟩,
      run_of_unresolved hpos hname hnone⟩
    exact (resolve?_eq_none_iff h hbound hv name).mp hnone

theorem not_stops_of_begun (h : (root tree w).Orderly host)
    (hbound : ∀ name, w.bindings.find? name ≠ some .absent)
    (hbegun : (root tree w).Begun host nodes) : ∀ d ∈ nodes, ¬stops tree w.bindings d := by
  intro d hd
  obtain ⟨v, hv, hnode, hbegins⟩ := hbegun d hd
  exact mt (not_begins_iff_stops h hbound hv hnode).mpr (not_not_intro hbegins)

/-- What a name stands for is settled when its tag begins, before its arguments, and only by where
the declarations are: it is the value that the declaration which reaches the tag has computed, or
what the name is bound to from the first. The nodes are come to in the order of the document up to
the first that is too deep or a tag without any of these, and the evaluation fails there and then.
-/
theorem names_resolve_to_reaching_declarations (h : (root tree w).Orderly host)
    (hbound : ∀ name, w.bindings.find? name ≠ some .absent) :
    (∀ q v name, (root tree w).at? host q = some v → v.depth ≠ 0 → v.node.tagName? = some name →
      match tree.reachingDeclaration? name q with
      | some d => ∃ value, (root tree w).valueAt? host d.1 = some value ∧
          v.run host = v.callWith host name (.constant value) (v.inside host) ∧
          ∀ text w', v.run host = (.ok text, w') → text = value
      | none => ∀ binding, w.bindings.find? name = some binding →
          v.run host = v.callWith host name binding (v.inside host)) ∧
    (∀ d ∈ tree.documentOrder.takeWhile fun d => !stops tree w.bindings d,
      ∃ v, (root tree w).at? host d.1 = some v ∧ v.node = d.2) ∧
    match tree.documentOrder.find? fun d => stops tree w.bindings d with
    | none => ∃ text w', evaluate host none tree w = (.ok text, w')
    | some d => ∃ v, (root tree w).at? host d.1 = some v ∧ v.node = d.2 ∧
        if d.1.length = depthLimit then evaluate host none tree w = (.error .tooDeep, v.world)
        else ∃ name, undefinedName? tree w.bindings d = some name ∧
          evaluate host none tree w = (.error (.undefinedTag name), v.inside host) := by
  refine ⟨?_, ?_⟩
  · intro q v name hv hdepth hname
    cases hreaching : tree.reachingDeclaration? name q with
    | some d =>
      obtain ⟨value, hvalue, hresolve⟩ := resolve?_of_reached h hv hreaching
      have hrun : v.run host = v.callWith host name (.constant value) (v.inside host) :=
        run_of_resolved hdepth hname hresolve
      refine ⟨value, hvalue, hrun, fun text w' hok => ?_⟩
      exact callWith_constant (hrun.symm.trans hok)
    | none =>
      intro binding hbinding
      have hresolve := resolve?_of_unreached h hbound hv hreaching
      exact run_of_resolved hdepth hname (hresolve.trans hbinding)
  · have haccounts := accounts_run h
    have hevaluate : evaluate host none tree w =
        (((root tree w).run host).1.mapError .reported, ((root tree w).run host).2) :=
      evaluate_of_allow rfl tree
    rw [hevaluate]
    rcases hrun : (root tree w).run host with ⟨e | text, w'⟩
    · rw [hrun] at haccounts
      have hreported : (.error e : Except EvalError String).mapError .reported = .error e :=
        congrArg Except.error (EvalError.reported_of_plain haccounts.sense_eq)
      obtain ⟨before, d, behind, v, horder, hbefore, hv, hnode, hbegins, hstop⟩ := haccounts
      obtain horder : tree.documentOrder = before ++ d :: behind := horder
      have hgo := not_stops_of_begun h hbound hbefore
      have hstops := (not_begins_iff_stops h hbound hv hnode).mp hbegins
      have hfind : tree.documentOrder.find? (fun d => stops tree w.bindings d) = some d :=
        List.find?_eq_some_iff_append.mpr ⟨hstops, before, behind, horder, by simpa using hgo⟩
      rw [hfind]
      constructor
      · rw [horder, List.takeWhile_append_of_pos (by simpa using hgo),
          List.takeWhile_cons_of_neg (by simpa using hstops), List.append_nil]
        exact hbefore.visited
      · refine ⟨v, hv, hnode, ?_⟩
        rw [hreported, ← hstop]
        exact run_of_stop h hbound hv hnode hbegins
    · rw [hrun] at haccounts
      have hgo := not_stops_of_begun h hbound haccounts
      have hfind : tree.documentOrder.find? (fun d => stops tree w.bindings d) = none :=
        List.find?_eq_none.mpr hgo
      rw [hfind]
      refine ⟨fun d hd => ?_, text, w', rfl⟩
      exact haccounts.visited d (List.takeWhile_subset _ hd)

/-- The second tag stands for what the argument of the first has declared. -/
theorem argument_reaches_next_tag :
    let tree : Node := .template
      [.declaration "x" (some (.quoted .single "a" 3)) 7,
        .tag "x" [.declaration "x" (some (.quoted .single "b" 3)) 7] 11, .tag "x" [] 3] 21
    let w : World Unit Unit := ⟨.empty, (), []⟩
    (root tree w).Orderly joining ∧
      (∃ text w', evaluate joining none tree w = (.ok text, w')) ∧
      ∃ v value, (root tree w).at? joining [2] = some v ∧
        (root tree w).valueAt? joining [1, 0] = some value ∧
        v.run joining = v.callWith joining "x" (.constant value) (v.inside joining) := by
  intro tree w
  have horderly : (root tree w).Orderly joining :=
    orderly_of_silent silent_joining noBuiltins_empty (by decide)
  obtain ⟨hresolves, hvisited, hends⟩ :=
    names_resolve_to_reaching_declarations horderly (fun _ => nofun)
  have hend : tree.documentOrder.find? (fun d => stops tree w.bindings d) = none := rfl
  rw [hend] at hends
  have hsecond : ([2], .tag "x" [] 3) ∈
      tree.documentOrder.takeWhile fun d => !stops tree w.bindings d :=
    List.mem_of_getElem? (i := 6) rfl
  obtain ⟨v, hv, hnode⟩ := hvisited _ hsecond
  have hdepth : v.depth + 1 = depthLimit := depth_add_length hv
  have hresolve := hresolves [2] v "x" hv (by simp only [depthLimit] at hdepth; omega)
    (by rw [hnode]; rfl)
  have hreaching : tree.reachingDeclaration? "x" [2] =
      some ([1, 0], .declaration "x" (some (.quoted .single "b" 3)) 7) := rfl
  simp only [hreaching] at hresolve
  obtain ⟨value, hvalue, hrun, -⟩ := hresolve
  exact ⟨horderly, hends, v, value, hv, hvalue, hrun⟩

def wrapped (node : Node) : Nat → Node
  | 0 => node
  | n + 1 => .template [wrapped node n] 0

theorem traverse_wrapped (put : Place × Node → List (Place × Node) → List (Place × Node))
    (node : Node) (n : Nat) :
    (wrapped node (n + 1)).traverse put =
      put ([], wrapped node (n + 1)) (((wrapped node n).traverse put).map (Node.underneath 0)) := by
  simp [wrapped, Node.traverse, Node.traverseFrom]

theorem mem_documentOrder_wrapped (node : Node) (n : Nat) :
    (List.replicate n 0, node) ∈ (wrapped node n).documentOrder := by
  induction n with
  | zero =>
    rw [wrapped, Node.documentOrder, Node.traverse_eq]
    exact .head _
  | succ n ih =>
    rw [Node.documentOrder, traverse_wrapped]
    exact List.mem_cons_of_mem _ (List.mem_map.mpr ⟨_, ih, rfl⟩)

theorem declares_nothing_wrapped (length n : Nat) :
    ∀ d ∈ (wrapped (.tag name [] length) n).postOrder, d.2.declaredName? = none := by
  induction n with
  | zero => simp [wrapped, Node.postOrder, Node.traverse, Node.traverseFrom, Node.putLast,
      Node.declaredName?]
  | succ n ih =>
    intro d hd
    rw [Node.postOrder, traverse_wrapped, Node.putLast, List.mem_append] at hd
    rcases hd with hd | hd
    · obtain ⟨d', hd', rfl⟩ := List.mem_map.mp hd
      exact ih d' hd'
    · obtain rfl := List.mem_singleton.mp hd
      rfl

theorem evaluable_wrapped (length n : Nat) :
    ∀ node ∈ (wrapped (.tag name [] length) n).nodes, evaluable node := by
  induction n with
  | zero => simp [wrapped, Node.nodes, Node.nodesOf, evaluable]
  | succ n ih => simpa [wrapped, Node.nodes, Node.nodesOf, evaluable] using ih

theorem run_wrapped (host : Host H σ) {depth n : Nat} (h : depth ≤ n) (node : Node) (w : World H σ) :
    ∃ w', run host ⟨wrapped node n, depth, w⟩ = (.error .tooDeep, w') := by
  induction n generalizing depth w with
  | zero =>
    obtain rfl : depth = 0 := by omega
    exact ⟨w, outcome_of_depth_eq_zero rfl⟩
  | succ n ih =>
    cases depth with
    | zero => exact ⟨w, outcome_of_depth_eq_zero rfl⟩
    | succ depth =>
      obtain ⟨w', hinner⟩ := ih (Nat.le_of_succ_le_succ h) (Eval.now host w).2
      have hpart : partIn? host .unlimited ⟨wrapped node (n + 1), depth + 1, w⟩ 0 =
          some ⟨wrapped node n, depth, (Eval.now host w).2⟩ := rfl
      exact ⟨w', outcome_of_part_error hpart hinner⟩

theorem undefined_within_wrapped {n : Nat} (h : depthLimit ≤ n) :
    let tree := wrapped (.tag "missing" [] 0) n
    let w : World Unit Unit := ⟨.empty, (), []⟩
    (root tree w).Orderly joining ∧ (∀ name, w.bindings.find? name ≠ some .absent) ∧
      (∃ d ∈ tree.documentOrder, undefinedName? tree w.bindings d = some "missing") ∧
      ∀ name, (evaluate joining none tree w).1 ≠ .error (.undefinedTag name) := by
  intro tree w
  refine ⟨?_, fun _ => nofun, ⟨_, mem_documentOrder_wrapped _ _, ?_⟩, ?_⟩
  · exact orderly_of_silent silent_joining noBuiltins_empty (evaluable_wrapped 0 n)
  · refine undefinedName?_eq_some_iff.mpr ⟨rfl, ?_, rfl⟩
    exact Node.reachingDeclaration?_eq_none (declares_nothing_wrapped 0 n) _ _
  · intro name hname
    obtain ⟨w', hrun⟩ := run_wrapped joining h (.tag "missing" [] 0) w
    have hevaluate : evaluate joining none tree w = _ := evaluate_of_allow rfl tree
    rw [hevaluate] at hname
    cases (congrArg (fun run => run.1.mapError EvalError.reported) hrun).symm.trans hname

/-- Below the depth limit an undefined tag is not what the evaluation fails with. -/
theorem undefined_tag_too_deep :
    let tree := wrapped (.tag "missing" [] 0) 5000
    let w : World Unit Unit := ⟨.empty, (), []⟩
    (root tree w).Orderly joining ∧ (∀ name, w.bindings.find? name ≠ some .absent) ∧
      (∃ d ∈ tree.documentOrder, undefinedName? tree w.bindings d = some "missing") ∧
      ∀ name, (evaluate joining none tree w).1 ≠ .error (.undefinedTag name) :=
  undefined_within_wrapped (by decide)

end Visit
end TagTemplate.Evaluation
