import TagTemplate.Proofs.Evaluation.Visits

/-! How far an evaluation gets. Where calls do not fail it comes to the nodes in the order of the
document, and only a node that does not begin can end it. -/
namespace TagTemplate.Evaluation
open Template

variable {H σ α : Type}

namespace Visit

def Begun (host : Host H σ) (v : Visit H σ) (nodes : List (Place × Node)) : Prop :=
  ∀ d ∈ nodes, ∃ u, v.at? host d.1 = some u ∧ u.node = d.2 ∧ u.begins

/-- The first of the nodes that does not begin fails with the error and leaves the world. -/
def StopsAmong (host : Host H σ) (v : Visit H σ) (nodes : List (Place × Node)) (e : EvalError)
    (w : World H σ) : Prop :=
  ∃ before d behind u, nodes = before ++ d :: behind ∧ v.Begun host before ∧
    v.at? host d.1 = some u ∧ u.node = d.2 ∧ ¬u.begins ∧ u.run host = (.error e, w)

/-- A success says that all of the nodes begin, and a failure is that of the first that does not. -/
def Accounts (host : Host H σ) (v : Visit H σ) (nodes : List (Place × Node)) :
    Except EvalError α × World H σ → Prop
  | (.ok _, _) => v.Begun host nodes
  | (.error e, w) => v.StopsAmong host nodes e w

variable {host : Host H σ} {u v : Visit H σ} {w : World H σ} {depth i : Nat} {e : EvalError}
  {nodes others : List (Place × Node)}

theorem Begun.visited (h : v.Begun host nodes) :
    ∀ d ∈ nodes, ∃ u, v.at? host d.1 = some u ∧ u.node = d.2 := by
  intro d hd
  obtain ⟨u, hu, hnode, -⟩ := h d hd
  exact ⟨u, hu, hnode⟩

theorem Begun.append (h : v.Begun host nodes) (h' : v.Begun host others) :
    v.Begun host (nodes ++ others) := by
  intro d hd
  rcases List.mem_append.mp hd with hd | hd
  · exact h d hd
  · exact h' d hd

theorem Begun.underneath (hu : v.partIn? host .unlimited i = some u) (h : u.Begun host nodes) :
    v.Begun host (nodes.map (Node.underneath i)) := by
  intro d hd
  obtain ⟨d', hd', rfl⟩ := List.mem_map.mp hd
  obtain ⟨x, hx, hnode, hbegins⟩ := h d' hd'
  exact ⟨x, (at?_cons hu d'.1).trans hx, hnode, hbegins⟩

theorem begun_nil (host : Host H σ) (v : Visit H σ) : v.Begun host [] :=
  List.forall_mem_nil _

theorem begun_own (host : Host H σ) (h : v.begins) : v.Begun host [([], v.node)] := by
  intro d hd
  obtain rfl := List.mem_singleton.mp hd
  exact ⟨v, rfl, rfl, h⟩

theorem StopsAmong.append (h : v.StopsAmong host nodes e w) (others : List (Place × Node)) :
    v.StopsAmong host (nodes ++ others) e w := by
  obtain ⟨before, d, behind, u, rfl, hrest⟩ := h
  exact ⟨before, d, behind ++ others, u, by simp, hrest⟩

theorem StopsAmong.behind (h : v.StopsAmong host others e w) (hbegun : v.Begun host nodes) :
    v.StopsAmong host (nodes ++ others) e w := by
  obtain ⟨before, d, behind, u, rfl, hbefore, hrest⟩ := h
  exact ⟨nodes ++ before, d, behind, u, by simp, hbegun.append hbefore, hrest⟩

theorem StopsAmong.underneath (hu : v.partIn? host .unlimited i = some u) (h : u.StopsAmong host nodes e w) :
    v.StopsAmong host (nodes.map (Node.underneath i)) e w := by
  obtain ⟨before, d, behind, x, rfl, hbefore, hx, hrest⟩ := h
  refine ⟨before.map (Node.underneath i), Node.underneath i d, behind.map (Node.underneath i), x,
    by simp, hbefore.underneath hu, (at?_cons hu d.1).trans hx, hrest⟩

theorem StopsAmong.sense_eq (h : v.StopsAmong host nodes e w) : e.sense = .plain := by
  obtain ⟨-, -, -, u, -, -, -, -, hbegins, hrun⟩ := h
  obtain ⟨e', w', hrun', he⟩ := run_of_not_begins host hbegins
  cases hrun'.symm.trans hrun
  exact he

def PartsAccount (host : Host H σ) (node : Node) : Prop :=
  ∀ u : Visit H σ, u.node ∈ node.parts → u.Orderly host →
    u.Accounts host u.node.documentOrder (u.run host)

theorem accounts_approach (h : v.Orderly host) (hbegins : v.begins) (hdepth : v.depth = depth + 1)
    (hparts : PartsAccount host v.node) (hi : i ≤ v.node.parts.length) :
    v.Accounts host (Node.traverseFrom Node.putFirst 0 (v.node.parts.take i))
      (approach host .unlimited depth v.node i v.world) := by
  induction i with
  | zero =>
    obtain ⟨settled, hzero⟩ := approach_zero_of_begins host depth hbegins
    rw [hzero]
    exact begun_nil host v
  | succ i ih =>
    have hpart : v.node.parts[i]? = some v.node.parts[i] := List.getElem?_eq_getElem hi
    have hbefore := ih (Nat.le_of_succ_le hi)
    rw [Node.traverseFrom_take_succ hpart]
    obtain ⟨e, w, herror, hsucc, -⟩ | ⟨before, u, hok, hu, hnode, hsucc⟩ :=
      approach_succ_cases host .unlimited hdepth hpart
    · rw [herror] at hbefore
      rw [hsucc]
      exact StopsAmong.append hbefore _
    · have hown := hparts u (hnode ▸ List.getElem_mem hi) (h.at_part hu)
      rw [hok] at hbefore
      rw [hsucc, ← hnode]
      rw [run] at hown
      rcases houtcome : u.outcome host .unlimited with ⟨e | text, w⟩
      · rw [houtcome] at hown
        exact (StopsAmong.underneath hu hown).behind hbefore
      · rw [houtcome] at hown
        exact Begun.append hbefore (Begun.underneath hu hown)

theorem accounts_of_parts (h : v.Orderly host) (hparts : PartsAccount host v.node) :
    v.Accounts host v.node.documentOrder (v.run host) := by
  rw [Node.documentOrder, Node.traverse_eq, Node.putFirst]
  by_cases hbegins : v.begins
  · obtain ⟨depth, hdepth⟩ := Nat.exists_eq_succ_of_ne_zero (depth_pos_of_begins hbegins)
    have hown := begun_own host hbegins
    have hall := accounts_approach h hbegins hdepth hparts (Nat.le_refl _)
    rw [List.take_length] at hall
    obtain ⟨e, e', w, happroach, houtcome, hsame⟩ | ⟨settled, texts, w, happroach, -, houtcome⟩ :=
      outcome_cases host .unlimited hdepth
    · rw [happroach] at hall
      rw [run, houtcome, hsame (EvalError.acrossTemplate_of_plain hall.sense_eq)]
      exact StopsAmong.behind hall hown
    · rw [happroach] at hall
      obtain ⟨text, w', hconclude⟩ := exists_conclude_eq_ok h hdepth happroach
      rw [run, houtcome, hconclude]
      exact hown.append hall
  · obtain ⟨e, w, hrun, -⟩ := run_of_not_begins host hbegins
    rw [hrun]
    exact ⟨[], _, _, v, rfl, begun_nil host v, rfl, rfl, hbegins, hrun⟩

/-- An evaluation that fails does so at the first node that does not begin. -/
theorem accounts_run (h : v.Orderly host) :
    v.Accounts host v.node.documentOrder (v.run host) := by
  induction hnode : v.node using Node.induction_parts generalizing v with
  | h node ih =>
    subst hnode
    exact accounts_of_parts h fun u hu horderly => ih u.node hu horderly rfl

end Visit
end TagTemplate.Evaluation
