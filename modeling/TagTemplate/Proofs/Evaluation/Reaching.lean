import TagTemplate.Proofs.Evaluation.Declarations

/-! What names stand for when their tags are come to. It follows from the tree alone which
declaration that is, as long as calls neither fail nor bind names: names are looked up when a tag
begins, and bound when a declaration ends. -/
namespace TagTemplate.Evaluation
open Template

variable {H σ : Type}

namespace Visit

/-- Names stand for what the last of their declarations among the nodes has computed, and for what
they stood for before where there is none. -/
def Leaves (host : Host H σ) (v : Visit H σ) (nodes : List (Place × Node)) (bindings : Bindings H) :
    Prop :=
  ∀ name, match Node.lastDeclaration? name nodes with
    | some d => ∃ value, v.valueAt? host d.1 = some value ∧
        bindings.find? name = some (.constant value)
    | none => bindings.find? name = v.world.bindings.find? name

variable {host : Host H σ} {allowance : Allowance} {u v : Visit H σ} {i : Nat} {q : Place}

theorem reachedValue?_cons (h : v.partIn? host allowance i = some u) (q : Place) :
    v.reachedValue? host allowance (i :: q) = u.reachedValue? host allowance q := by
  rw [reachedValue?, reach?_cons h, reachedValue?]

theorem exists_value_of_endedBefore (hq : v.reach? host allowance q = some u) :
    ∀ d ∈ Node.endedBefore q v.node.postOrder, d.2.declaredName?.isSome →
      ∃ value, v.reachedValue? host allowance d.1 = some value := by
  induction q generalizing v with
  | nil =>
    rw [Node.endedBefore_nil]
    exact List.forall_mem_nil _
  | cons i rest ih =>
    obtain ⟨part, hpart, hrest⟩ := Option.bind_eq_some_iff.mp hq
    obtain ⟨hdepth, hnode, before, happroach⟩ := spec_of_partIn? hpart
    obtain ⟨hi, -⟩ := List.getElem?_eq_some_iff.mp hnode
    rw [Node.endedBefore_postOrder hnode, List.forall_mem_append]
    constructor
    · intro d hd hname
      obtain ⟨j, other, hother, d', hd', rfl⟩ := Node.exists_part_of_mem_traverseFrom hd
      obtain ⟨hji, hother⟩ : j < i ∧ v.node.parts[j]? = some other := by
        simpa [List.getElem?_take] using hother
      obtain ⟨x, hx, rfl, text, w, hok⟩ :=
        exists_part_of_approach_ok hdepth happroach (Nat.le_of_lt hi) hji hother
      rw [Node.underneath, Nat.zero_add, reachedValue?_cons hx]
      exact exists_value_of_outcome_ok hok d' hd' hname
    · intro d hd hname
      obtain ⟨d', hd', rfl⟩ := List.mem_map.mp hd
      rw [Node.underneath, reachedValue?_cons hpart]
      exact ih hrest d' hd' hname

theorem Orderly.untouched (h : v.Orderly host) : v.Untouched host .unlimited := by
  intro q u hu depth tag texts w hdepth happroach
  obtain ⟨-, -, ⟨-, hnone⟩ | ⟨name, -, hname, -, -⟩⟩ := spec_of_approach_ok hdepth happroach
  · cases hnone
  · obtain ⟨_, ⟨⟩, text, w', hcall, hbindings⟩ :=
      (h.quiet q u hu).exists_call_eq_ok hdepth hname happroach
    exact (congrArg (fun run => run.2.bindings) hcall).trans hbindings

/-- When the evaluation comes to a place, each name is left to the last of the declarations that
have ended in front of it. -/
theorem leaves_at (h : v.Orderly host) (hq : v.at? host q = some u) :
    v.Leaves host (Node.endedBefore q v.node.postOrder) u.world.bindings := by
  intro name
  have hbinds := ((accumulation_binds host .unlimited).reach h.untouched hq).bindings
  rw [hbinds]
  exact find?_bindTexts_completed v.world.bindings (exists_value_of_endedBefore hq) name

end Visit
end TagTemplate.Evaluation
