import TagTemplate.Template.Node

/-! Places in a tree and the two orders of its nodes: the one in which they stand in the source, and
the one in which they end there. A name's declarations are told apart by their places. -/
namespace TagTemplate.Template

/-- The way from the root to a node: the index of the part to go on with, step by step. -/
abbrev Place := List Nat

namespace Node

def parts : Node → List Node
  | template children _ => children
  | tag _ arguments _ => arguments
  | declaration _ (some value) _ => [value]
  | _ => []

def underneath (i : Nat) (d : Place × Node) : Place × Node :=
  (i :: d.1, d.2)

mutual
/-- The nodes and their places. `put` says where a node stands with respect to what is within it. -/
def traverse (put : Place × Node → List (Place × Node) → List (Place × Node)) :
    Node → List (Place × Node)
  | template children n => put ([], template children n) (traverseFrom put 0 children)
  | tag name arguments n => put ([], tag name arguments n) (traverseFrom put 0 arguments)
  | declaration name (some value) n =>
    put ([], declaration name (some value) n) ((traverse put value).map (underneath 0))
  | node => put ([], node) []

def traverseFrom (put : Place × Node → List (Place × Node) → List (Place × Node)) :
    Nat → List Node → List (Place × Node)
  | _, [] => []
  | i, node :: rest => (traverse put node).map (underneath i) ++ traverseFrom put (i + 1) rest
end

def putFirst (own : Place × Node) (inner : List (Place × Node)) : List (Place × Node) :=
  own :: inner

def putLast (own : Place × Node) (inner : List (Place × Node)) : List (Place × Node) :=
  inner ++ [own]

def documentOrder (tree : Node) : List (Place × Node) :=
  tree.traverse putFirst

def postOrder (tree : Node) : List (Place × Node) :=
  tree.traverse putLast

def lastDeclaration? (name : String) (nodes : List (Place × Node)) : Option (Place × Node) :=
  (nodes.filter fun d => d.2.declaredName? = some name).getLast?

def endedBefore (q : Place) (nodes : List (Place × Node)) : List (Place × Node) :=
  nodes.filter fun d => d.1 < q ∧ ¬d.1 <+: q

/-- Of the declarations of a name that begin in front of a place, and within which it is not, the
one that ends last. -/
def reachingDeclaration? (tree : Node) (name : String) (q : Place) : Option (Place × Node) :=
  lastDeclaration? name (endedBefore q tree.postOrder)

variable {put : Place × Node → List (Place × Node) → List (Place × Node)} {P : Node → Prop}

mutual
theorem induction_parts (h : ∀ node : Node, (∀ part ∈ node.parts, P part) → P node) :
    (node : Node) → P node
  | template children _ => h _ (induction_parts_all h children)
  | tag _ arguments _ => h _ (induction_parts_all h arguments)
  | declaration _ (some value) _ => h _ (List.forall_mem_singleton.mpr (induction_parts h value))
  | declaration _ none _ => h _ (List.forall_mem_nil P)
  | text .. => h _ (List.forall_mem_nil P)
  | quoted .. => h _ (List.forall_mem_nil P)
  | comment .. => h _ (List.forall_mem_nil P)
  | foreign .. => h _ (List.forall_mem_nil P)

theorem induction_parts_all (h : ∀ node : Node, (∀ part ∈ node.parts, P part) → P node) :
    (nodes : List Node) → ∀ node ∈ nodes, P node
  | [] => List.forall_mem_nil P
  | node :: rest => List.forall_mem_cons.mpr ⟨induction_parts h node, induction_parts_all h rest⟩
end

theorem traverse_eq (node : Node) :
    node.traverse put = put ([], node) (traverseFrom put 0 node.parts) := by
  cases node with
  | declaration name value n => cases value <;> simp [traverse, traverseFrom, parts]
  | _ => simp [traverse, traverseFrom, parts]

theorem traverseFrom_append (i : Nat) (nodes others : List Node) :
    traverseFrom put i (nodes ++ others) =
      traverseFrom put i nodes ++ traverseFrom put (i + nodes.length) others := by
  induction nodes generalizing i with
  | nil => simp [traverseFrom]
  | cons node rest ih =>
    simp only [List.cons_append, traverseFrom, ih, List.append_assoc, List.length_cons]
    rw [Nat.add_right_comm, Nat.add_assoc]

theorem traverseFrom_take_succ {nodes : List Node} {i : Nat} {node : Node}
    (h : nodes[i]? = some node) :
    traverseFrom put 0 (nodes.take (i + 1)) =
      traverseFrom put 0 (nodes.take i) ++ (node.traverse put).map (underneath i) := by
  obtain ⟨hi, -⟩ := List.getElem?_eq_some_iff.mp h
  rw [List.take_add_one, h, traverseFrom_append, List.length_take,
    Nat.min_eq_left (Nat.le_of_lt hi)]
  simp [traverseFrom]

theorem exists_of_mem_traverseFrom {i : Nat} {nodes : List Node} {d : Place × Node}
    (h : d ∈ traverseFrom put i nodes) : ∃ j p, d.1 = (i + j) :: p ∧ j < nodes.length := by
  induction nodes generalizing i with
  | nil => simp [traverseFrom] at h
  | cons node rest ih =>
    rw [traverseFrom, List.mem_append] at h
    rcases h with h | h
    · obtain ⟨d', -, rfl⟩ := List.mem_map.mp h
      exact ⟨0, d'.1, rfl, Nat.zero_lt_succ _⟩
    · obtain ⟨j, p, hd, hj⟩ := ih h
      exact ⟨j + 1, p, by rw [hd, Nat.add_right_comm, Nat.add_assoc], Nat.succ_lt_succ hj⟩

theorem exists_part_of_mem_traverseFrom {i : Nat} {nodes : List Node} {d : Place × Node}
    (h : d ∈ traverseFrom put i nodes) :
    ∃ j part, nodes[j]? = some part ∧ ∃ d' ∈ part.traverse put, d = underneath (i + j) d' := by
  induction nodes generalizing i with
  | nil => simp [traverseFrom] at h
  | cons node rest ih =>
    rw [traverseFrom, List.mem_append] at h
    rcases h with h | h
    · obtain ⟨d', hd', rfl⟩ := List.mem_map.mp h
      exact ⟨0, node, rfl, d', hd', rfl⟩
    · obtain ⟨j, part, hpart, d', hd', rfl⟩ := ih h
      exact ⟨j + 1, part, hpart, d', hd', by rw [Nat.add_right_comm, Nat.add_assoc]⟩

theorem nodes_eq (node : Node) : node.nodes = node :: nodesOf node.parts := by
  cases node with
  | declaration name value n => cases value <;> simp [nodes, nodesOf, parts]
  | _ => simp [nodes, nodesOf, parts]

theorem mem_nodesOf {nodes : List Node} {node m : Node} (h : node ∈ nodes) (hm : m ∈ node.nodes) :
    m ∈ nodesOf nodes := by
  induction nodes with
  | nil => cases h
  | cons first rest ih =>
    rw [nodesOf, List.mem_append]
    rcases List.mem_cons.mp h with rfl | h
    · exact .inl hm
    · exact .inr (ih h)

theorem mem_nodes_of_mem_parts {node part m : Node} (h : part ∈ node.parts) (hm : m ∈ part.nodes) :
    m ∈ node.nodes := by
  rw [nodes_eq]
  exact List.mem_cons_of_mem node (mem_nodesOf h hm)

theorem map_snd_documentOrder (node : Node) : node.documentOrder.map Prod.snd = node.nodes := by
  induction node using induction_parts with
  | h node ih =>
    have hfrom : ∀ (i : Nat) (parts : List Node),
        (∀ part ∈ parts, part.documentOrder.map Prod.snd = part.nodes) →
          (traverseFrom putFirst i parts).map Prod.snd =
            nodesOf parts := by
      intro i parts hparts
      induction parts generalizing i with
      | nil => rfl
      | cons part rest ih =>
        rw [List.forall_mem_cons] at hparts
        rw [traverseFrom, nodesOf, List.map_append, ih _ hparts.2, List.map_map, ← hparts.1]
        rfl
    rw [documentOrder, traverse_eq, putFirst, nodes_eq, List.map_cons, hfrom 0 _ ih]

theorem pairwise_documentOrder (node : Node) :
    node.documentOrder.Pairwise fun d e => d.1 < e.1 := by
  induction node using induction_parts with
  | h node ih =>
    have hfrom : ∀ (i : Nat) (parts : List Node),
        (∀ part ∈ parts, part.documentOrder.Pairwise fun d e => d.1 < e.1) →
          (traverseFrom putFirst i parts).Pairwise fun d e => d.1 < e.1 := by
      intro i parts hparts
      induction parts generalizing i with
      | nil => exact .nil
      | cons part rest ih =>
        rw [List.forall_mem_cons] at hparts
        rw [traverseFrom, List.pairwise_append, List.pairwise_map]
        refine ⟨?_, ih _ hparts.2, ?_⟩
        · exact hparts.1.imp fun h => List.cons_lt_cons_iff.mpr (.inr ⟨rfl, h⟩)
        · intro d hd e he
          obtain ⟨d', -, rfl⟩ := List.mem_map.mp hd
          obtain ⟨j, p, hplace, -⟩ := exists_of_mem_traverseFrom he
          rw [hplace, underneath, List.cons_lt_cons_iff]
          omega
    rw [documentOrder, traverse_eq, putFirst, List.pairwise_cons]
    refine ⟨?_, hfrom 0 _ ih⟩
    intro d hd
    obtain ⟨j, p, hplace, -⟩ := exists_of_mem_traverseFrom hd
    rw [hplace]
    exact List.nil_lt_cons _ _

/-- Both orders list the same nodes at the same places. -/
theorem postOrder_perm_documentOrder (node : Node) : node.postOrder.Perm node.documentOrder := by
  induction node using induction_parts with
  | h node ih =>
    have hfrom : ∀ (i : Nat) (parts : List Node),
        (∀ part ∈ parts, part.postOrder.Perm part.documentOrder) →
          (traverseFrom putLast i parts).Perm (traverseFrom putFirst i parts) := by
      intro i parts hparts
      induction parts generalizing i with
      | nil => exact .refl _
      | cons part rest ih =>
        rw [List.forall_mem_cons] at hparts
        exact (hparts.1.map _).append (ih _ hparts.2)
    rw [postOrder, documentOrder, traverse_eq, traverse_eq, putLast, putFirst]
    exact (List.perm_append_singleton _ _).trans ((hfrom 0 _ ih).cons _)

theorem map_snd_postOrder (node : Node) :
    node.postOrder.map Prod.snd =
      node.parts.flatMap (fun part => part.postOrder.map Prod.snd) ++ [node] := by
  have hfrom : ∀ (i : Nat) (parts : List Node),
      (traverseFrom putLast i parts).map Prod.snd =
        parts.flatMap fun part => part.postOrder.map Prod.snd := by
    intro i parts
    induction parts generalizing i with
    | nil => rfl
    | cons part rest ih =>
      rw [traverseFrom, List.map_append, ih, List.map_map, List.flatMap_cons]
      rfl
  rw [postOrder, traverse_eq, putLast, List.map_append, hfrom]
  rfl

theorem nodup_places (node : Node) : (node.postOrder.map Prod.fst).Nodup := by
  have hsorted : (node.documentOrder.map Prod.fst).Pairwise (· < ·) :=
    List.pairwise_map.mpr node.pairwise_documentOrder
  have hnodup : (node.documentOrder.map Prod.fst).Nodup := by
    refine hsorted.imp ?_
    rintro p _ hlt rfl
    exact List.lt_irrefl p hlt
  exact (node.postOrder_perm_documentOrder.map Prod.fst).nodup_iff.mpr hnodup

theorem endedBefore_nil (nodes : List (Place × Node)) : endedBefore [] nodes = [] := by
  simp [endedBefore]

theorem endedBefore_append (q : Place) (nodes others : List (Place × Node)) :
    endedBefore q (nodes ++ others) = endedBefore q nodes ++ endedBefore q others :=
  List.filter_append ..

theorem endedBefore_map_underneath (i : Nat) (q : Place) (nodes : List (Place × Node)) :
    endedBefore (i :: q) (nodes.map (underneath i)) = (endedBefore q nodes).map (underneath i) := by
  rw [endedBefore, List.filter_map]
  congr 1
  apply List.filter_congr
  intro d _
  simp [underneath, List.cons_prefix_cons]

theorem endedBefore_take (i : Nat) (q : Place) (nodes : List Node) :
    endedBefore (i :: q) (traverseFrom put 0 (nodes.take i)) =
      traverseFrom put 0 (nodes.take i) := by
  apply List.filter_eq_self.mpr
  intro d hd
  obtain ⟨j, p, hplace, hj⟩ := exists_of_mem_traverseFrom hd
  have hji : j < i := by
    rw [List.length_take] at hj
    omega
  have hlt : d.1 < i :: q := by
    rw [hplace, List.cons_lt_cons_iff]
    omega
  have hprefix : ¬d.1 <+: i :: q := by
    rw [hplace, List.cons_prefix_cons]
    omega
  simp [hlt, hprefix]

theorem endedBefore_drop (i : Nat) (q : Place) (nodes : List Node) :
    endedBefore (i :: q) (traverseFrom put (i + 1) nodes) = [] := by
  apply List.filter_eq_nil_iff.mpr
  intro d hd
  obtain ⟨j, p, hplace, -⟩ := exists_of_mem_traverseFrom hd
  have hlt : ¬d.1 < i :: q := by
    rw [hplace, List.cons_lt_cons_iff]
    omega
  simp [hlt]

/-- In front of a place within a part there is all of the earlier parts, and what is in front of it
in its own part. -/
theorem endedBefore_postOrder {node part : Node} {i : Nat} (h : node.parts[i]? = some part)
    (q : Place) :
    endedBefore (i :: q) node.postOrder =
      traverseFrom putLast 0 (node.parts.take i) ++
        (endedBefore q part.postOrder).map (underneath i) := by
  obtain ⟨hi, hpart⟩ := List.getElem?_eq_some_iff.mp h
  have hsplit : node.parts = node.parts.take i ++ part :: node.parts.drop (i + 1) := by
    rw [← hpart, List.getElem_cons_drop, List.take_append_drop]
  have hroot : endedBefore (i :: q) [([], node)] = [] := by
    simp [endedBefore]
  rw [postOrder, traverse_eq, putLast, endedBefore_append, hroot, List.append_nil]
  conv => lhs; rw [hsplit]
  rw [traverseFrom_append, traverseFrom, List.length_take, Nat.min_eq_left (Nat.le_of_lt hi),
    Nat.zero_add, endedBefore_append, endedBefore_append, endedBefore_take, endedBefore_drop,
    endedBefore_map_underneath, List.append_nil]
  rfl

theorem lastDeclaration?_concat_of_eq {name : String} {d : Place × Node}
    (h : d.2.declaredName? = some name) (nodes : List (Place × Node)) :
    lastDeclaration? name (nodes ++ [d]) = some d := by
  simp [lastDeclaration?, h]

theorem lastDeclaration?_concat_of_ne {name : String} {d : Place × Node}
    (h : d.2.declaredName? ≠ some name) (nodes : List (Place × Node)) :
    lastDeclaration? name (nodes ++ [d]) = lastDeclaration? name nodes := by
  simp [lastDeclaration?, h]

theorem mem_declaredNames_iff {tree : Node} {name : String} :
    name ∈ tree.declaredNames ↔ ∃ d ∈ tree.postOrder, d.2.declaredName? = some name := by
  simp only [declaredNames, List.mem_filterMap, ← map_snd_documentOrder, List.mem_map,
    ← tree.postOrder_perm_documentOrder.mem_iff]
  constructor
  · rintro ⟨_, ⟨d, hd, rfl⟩, hname⟩
    exact ⟨d, hd, hname⟩
  · rintro ⟨d, hd, hname⟩
    exact ⟨d.2, ⟨d, hd, rfl⟩, hname⟩

theorem lastDeclaration?_eq_none_iff {name : String} {nodes : List (Place × Node)} :
    lastDeclaration? name nodes = none ↔ ∀ d ∈ nodes, d.2.declaredName? ≠ some name := by
  simp [lastDeclaration?]

theorem isSome_lastDeclaration?_iff {tree : Node} {name : String} :
    (lastDeclaration? name tree.postOrder).isSome ↔ name ∈ tree.declaredNames := by
  rw [← Option.ne_none_iff_isSome, ne_eq, lastDeclaration?_eq_none_iff, mem_declaredNames_iff]
  simp only [Classical.not_forall, Classical.not_not, exists_prop]

theorem reachingDeclaration?_eq_none {tree : Node}
    (h : ∀ d ∈ tree.postOrder, d.2.declaredName? = none) (name : String) (q : Place) :
    tree.reachingDeclaration? name q = none := by
  rw [reachingDeclaration?, lastDeclaration?_eq_none_iff]
  intro d hd
  simp [h d (List.mem_filter.mp hd).1]

end Node
end TagTemplate.Template
