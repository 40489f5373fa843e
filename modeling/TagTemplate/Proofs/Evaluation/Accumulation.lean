import Mathlib.Data.List.Basic
import TagTemplate.Proofs.Evaluation.Course

/-! What an evaluation adds up to. Where nothing is added on the way to the parts of a node, and what
its conclusion adds is known, the visits of a tree add one after another what their nodes do, in
post-order, and so they do up to whatever ends the evaluation. -/
namespace TagTemplate.Evaluation
open Template

variable {H σ X : Type}

structure Additive (Adds : World H σ → World H σ → List X → Prop) : Prop where
  refl (w : World H σ) : Adds w w []
  trans {u v w : World H σ} {xs ys : List X} : Adds u v xs → Adds v w ys → Adds u w (xs ++ ys)

/-- The conclusion of a node adds what is its own: `own` gets the node and its visit, if there is one.
Nothing else adds anything. -/
structure Accumulation (host : Host H σ) (allowance : Allowance)
    (Adds : World H σ → World H σ → List X → Prop) (own : Node → Option (Visit H σ) → Option X)
    (Good : Visit H σ → Prop) : Prop extends Additive Adds where
  now (w : World H σ) : Adds w (Eval.now host w).2 []
  unvisited (node : Node) : own node none = none
  part {u v : Visit H σ} {i : Nat} : Good v → v.partIn? host allowance i = some u → Good u
  tooDeep {v : Visit H σ} : v.depth = 0 → own v.node (some v) = none
  failed {v : Visit H σ} {depth : Nat} {e : EvalError} {w : World H σ} : v.depth = depth + 1 →
    approach host allowance depth v.node v.node.parts.length v.world = (.error e, w) →
      own v.node (some v) = none
  conclude {v : Visit H σ} {depth : Nat} {settled : Option (Binding H)} {texts : List String}
    {w : World H σ} : Good v → v.depth = depth + 1 →
    approach host allowance depth v.node v.node.parts.length v.world = (.ok (settled, texts), w) →
      Adds w (conclude host allowance settled texts v.node w).2 (own v.node (some v)).toList

variable {host : Host H σ} {allowance : Allowance} {Adds : World H σ → World H σ → List X → Prop}
  {own : Node → Option (Visit H σ) → Option X} {Good : Visit H σ → Prop} {depth i : Nat}
  {u v : Visit H σ} {w : World H σ}

theorem Additive.bind {α β : Type} {x : Eval H σ α} {f : α → Eval H σ β} {xs : List X}
    (h : Additive Adds) (hx : Adds w (x w).2 xs) (hf : ∀ a v, x w = (.ok a, v) → Adds v (f a v).2 []) :
    Adds w ((x >>= f) w).2 xs := by
  rcases hresult : x w with ⟨e | a, v⟩
  · rw [hresult] at hx
    rwa [Eval.bind_of_error hresult]
  · rw [hresult] at hx
    rw [Eval.bind_of_ok hresult, ← List.append_nil xs]
    exact h.trans hx (hf a v hresult)

theorem adds_checkTime (hnow : ∀ w, Adds w (Eval.now host w).2 []) (allowance : Allowance)
    (w : World H σ) : Adds w (checkTime host allowance w).2 [] := by
  rw [snd_checkTime]
  exact hnow w

theorem Additive.allow (h : Additive Adds) (hnow : ∀ w, Adds w (Eval.now host w).2 [])
    (timeout : Option Number) (w : World H σ) :
    Adds w (Evaluation.allow host timeout w).2 [] := by
  cases timeout with
  | none => exact h.refl w
  | some t =>
    refine h.bind (hnow w) fun _ v _ => ?_
    cases t.toFloat? <;> exact h.refl v

namespace Visit

def share? (host : Host H σ) (allowance : Allowance) (own : Node → Option (Visit H σ) → Option X)
    (v : Visit H σ) (d : Place × Node) : Option X :=
  own d.2 (v.reach? host allowance d.1)

theorem filterMap_share?_part (h : v.partIn? host allowance i = some u) (nodes : List (Place × Node)) :
    (nodes.map (Node.underneath i)).filterMap (v.share? host allowance own) =
      nodes.filterMap (u.share? host allowance own) := by
  rw [List.filterMap_map]
  refine List.filterMap_congr fun d _ => ?_
  simp only [Function.comp_apply, share?, Node.underneath, reach?_cons h]

theorem filterMap_share?_of_none (h : v.partIn? host allowance i = none)
    (hown : ∀ node, own node none = none) (nodes : List (Place × Node)) :
    (nodes.map (Node.underneath i)).filterMap (v.share? host allowance own) = [] := by
  rw [List.filterMap_map, List.filterMap_eq_nil_iff]
  intro d _
  simp only [Function.comp_apply, share?, Node.underneath, reach?, h, Option.bind_none, hown]

theorem filterMap_share?_of_depth_eq_zero (h : v.depth = 0) (hown : ∀ node, own node none = none)
    (nodes : List Node) :
    (Node.traverseFrom Node.putLast 0 nodes).filterMap (v.share? host allowance own) = [] := by
  rw [List.filterMap_eq_nil_iff]
  intro d hd
  obtain ⟨i, part, -, d', -, rfl⟩ := Node.exists_part_of_mem_traverseFrom hd
  simp only [share?, Node.underneath, reach?, partIn?_of_depth_eq_zero h, Option.bind_none, hown]

theorem shares_eq (v : Visit H σ) :
    v.node.postOrder.filterMap (v.share? host allowance own) =
      (Node.traverseFrom Node.putLast 0 v.node.parts).filterMap (v.share? host allowance own) ++
        (own v.node (some v)).toList := by
  have hroot : v.share? host allowance own ([], v.node) = own v.node (some v) := rfl
  rw [Node.postOrder, Node.traverse_eq, Node.putLast, List.filterMap_append]
  cases hown : own v.node (some v) <;> simp [hroot, hown]

end Visit

namespace Accumulation

def OfParts (host : Host H σ) (allowance : Allowance) (Adds : World H σ → World H σ → List X → Prop)
    (own : Node → Option (Visit H σ) → Option X) (Good : Visit H σ → Prop) (node : Node) : Prop :=
  ∀ u : Visit H σ, u.node ∈ node.parts → Good u →
    Adds u.world (u.outcome host allowance).2
      (u.node.postOrder.filterMap (u.share? host allowance own))

theorem approach (h : Accumulation host allowance Adds own Good) (hv : Good v)
    (hdepth : v.depth = depth + 1) (hparts : OfParts host allowance Adds own Good v.node)
    (hi : i ≤ v.node.parts.length) :
    Adds v.world (Evaluation.approach host allowance depth v.node i v.world).2
      ((Node.traverseFrom Node.putLast 0 (v.node.parts.take i)).filterMap
        (v.share? host allowance own)) := by
  induction i with
  | zero =>
    rw [approach_zero]
    refine h.bind (adds_checkTime h.now allowance v.world) fun _ w₁ _ => ?_
    refine h.bind ?_ fun _ w₂ _ => h.refl w₂
    rw [snd_settle]
    exact h.refl w₁
  | succ i ih =>
    have hpart : v.node.parts[i]? = some v.node.parts[i] := List.getElem?_eq_getElem hi
    have hbefore := ih (Nat.le_of_succ_le hi)
    rw [Node.traverseFrom_take_succ hpart, List.filterMap_append]
    obtain ⟨e, w, herror, hsucc, hnone⟩ | ⟨before, u, hok, hu, hnode, hsucc⟩ :=
      Visit.approach_succ_cases host allowance hdepth hpart
    -- A part that is not come to has nothing to add.
    · rw [herror] at hbefore
      rwa [hsucc, Visit.filterMap_share?_of_none hnone h.unvisited, List.append_nil]
    · rw [hok] at hbefore
      rw [hsucc, ← hnode, ← Node.postOrder, Visit.filterMap_share?_part hu]
      exact h.trans hbefore (hparts u (hnode ▸ List.getElem_mem hi) (h.part hv hu))

theorem of_parts (h : Accumulation host allowance Adds own Good) (hv : Good v)
    (hparts : OfParts host allowance Adds own Good v.node) :
    Adds v.world (v.outcome host allowance).2
      (v.node.postOrder.filterMap (v.share? host allowance own)) := by
  cases hdepth : v.depth with
  | zero =>
    rw [Visit.shares_eq, Visit.filterMap_share?_of_depth_eq_zero hdepth h.unvisited, h.tooDeep hdepth,
      Visit.outcome_of_depth_eq_zero hdepth]
    exact h.refl v.world
  | succ depth =>
    have hall := h.approach hv hdepth hparts (Nat.le_refl _)
    rw [List.take_length] at hall
    rw [Visit.shares_eq]
    obtain ⟨e, e', w, happroach, houtcome, -⟩ | ⟨settled, texts, w, happroach, -, houtcome⟩ :=
      Visit.outcome_cases host allowance hdepth
    · rw [happroach] at hall
      rw [houtcome, h.failed hdepth happroach, Option.toList_none, List.append_nil]
      exact hall
    · rw [happroach] at hall
      rw [houtcome]
      exact h.trans hall (h.conclude hv hdepth happroach)

/-- However an evaluation ends, it adds what is added within the nodes that it has come to. -/
theorem outcome (h : Accumulation host allowance Adds own Good) (hv : Good v) :
    Adds v.world (v.outcome host allowance).2
      (v.node.postOrder.filterMap (v.share? host allowance own)) := by
  induction hnode : v.node using Node.induction_parts generalizing v with
  | h node ih =>
    subst hnode
    exact h.of_parts hv fun u hu hgood => ih u.node hu hgood rfl

/-- When an evaluation comes to a place, it has added what is added within the nodes that have ended
in front of it. -/
theorem reach (h : Accumulation host allowance Adds own Good) (hv : Good v) {q : Place}
    (hq : v.reach? host allowance q = some u) :
    Adds v.world u.world
      ((Node.endedBefore q v.node.postOrder).filterMap (v.share? host allowance own)) := by
  induction q generalizing v with
  | nil =>
    cases hq
    rw [Node.endedBefore_nil]
    exact h.refl _
  | cons i rest ih =>
    obtain ⟨part, hpart, hrest⟩ := Option.bind_eq_some_iff.mp hq
    obtain ⟨hdepth, hnode, before, happroach⟩ := Visit.spec_of_partIn? hpart
    obtain ⟨hi, -⟩ := List.getElem?_eq_some_iff.mp hnode
    have hbefore := h.approach hv hdepth (fun _ _ => h.outcome) (Nat.le_of_lt hi)
    rw [happroach] at hbefore
    rw [Node.endedBefore_postOrder hnode, List.filterMap_append, Visit.filterMap_share?_part hpart]
    exact h.trans hbefore (ih (h.part hv hpart) hrest)

end Accumulation
end TagTemplate.Evaluation
