import Mathlib.Data.List.Nodup
import TagTemplate.Evaluation.Bindings

/-! Bindings as a mapping: what a name stands for is what it was bound to last. The order in which
names were bound is told apart by no lookup. -/
namespace TagTemplate.Evaluation

variable {H : Type}

namespace Bindings

theorem lookup_insertEntry (name other : String) (binding : Binding H)
    (entries : List (String × Binding H)) :
    (insertEntry name binding entries).lookup other =
      if name = other then some binding else entries.lookup other := by
  induction entries with
  | nil => grind [insertEntry]
  | cons entry rest ih => grind [insertEntry]

theorem find?_insert (bs : Bindings H) (name other : String) (binding : Binding H) :
    (bs.insert name binding).find? other =
      if name = other then some binding else bs.find? other :=
  lookup_insertEntry name other binding bs.entries

theorem find?_insertAll_cases (bs : Bindings H) (more : List (String × Binding H))
    (name : String) :
    (∃ before binding after, more = before ++ (name, binding) :: after ∧
      name ∉ after.map Prod.fst ∧ (bs.insertAll more).find? name = some binding) ∨
    (name ∉ more.map Prod.fst ∧ (bs.insertAll more).find? name = bs.find? name) := by
  induction more generalizing bs with
  | nil => exact .inr ⟨List.not_mem_nil, rfl⟩
  | cons entry rest ih =>
    obtain ⟨other, binding⟩ := entry
    obtain ⟨before, held, after, rfl, hafter, hfind⟩ | ⟨hnew, hfind⟩ := ih (bs.insert other binding)
    · exact .inl ⟨(other, binding) :: before, held, after, rfl, hafter, hfind⟩
    · rw [find?_insert] at hfind
      split at hfind
      · next hname =>
        subst hname
        exact .inl ⟨[], binding, rest, rfl, hnew, hfind⟩
      · next hname => exact .inr ⟨by simpa [Ne.symm hname] using hnew, hfind⟩

theorem resolve?_of_ne_absent {bs : Bindings H} {name : String}
    (h : bs.find? name ≠ some .absent) : bs.resolve? name = bs.find? name := by
  unfold resolve?
  split
  · contradiction
  · rfl

theorem find?_of_resolve? {bs : Bindings H} {name : String} {binding : Binding H}
    (h : bs.resolve? name = some binding) :
    bs.find? name = some binding ∧ binding ≠ .absent := by
  unfold resolve? at h
  split at h
  · cases h
  · rename_i hne
    exact ⟨h, fun habsent => hne (habsent ▸ h)⟩

theorem lookup_filter_ne (name other : String) (entries : List (String × Binding H)) :
    (entries.filter (·.1 ≠ name)).lookup other =
      if name = other then none else entries.lookup other := by
  induction entries with
  | nil => grind
  | cons entry rest ih => grind

theorem find?_erase (bs : Bindings H) (name other : String) :
    (bs.erase name).find? other = if name = other then none else bs.find? other :=
  lookup_filter_ne name other bs.entries

def keys (bs : Bindings H) : List String :=
  bs.entries.map Prod.fst

theorem mem_keys_iff {bs : Bindings H} {name : String} :
    name ∈ bs.keys ↔ (bs.find? name).isSome := by
  simp only [keys, find?, List.lookup_isSome_iff, List.mem_map, beq_iff_eq]
  exact exists_congr fun _ => and_congr_right fun _ => eq_comm

theorem keys_insert (bs : Bindings H) (name : String) (binding : Binding H) :
    (bs.insert name binding).keys = if name ∈ bs.keys then bs.keys else bs.keys ++ [name] := by
  obtain ⟨entries⟩ := bs
  simp only [keys, insert]
  induction entries with
  | nil => rfl
  | cons entry rest ih => grind [insertEntry]

def Distinct (bs : Bindings H) : Prop :=
  bs.keys.Nodup

theorem Distinct.insert {bs : Bindings H} (h : bs.Distinct) (name : String)
    (binding : Binding H) : (bs.insert name binding).Distinct := by
  rw [Distinct, keys_insert]
  split
  · exact h
  · next hnew => exact List.nodup_append.mpr ⟨h, List.nodup_singleton name, by grind⟩

theorem Distinct.erase {bs : Bindings H} (h : bs.Distinct) (name : String) :
    (bs.erase name).Distinct :=
  h.sublist (List.filter_sublist.map Prod.fst)

theorem Distinct.insertAll {bs : Bindings H} (h : bs.Distinct) (more : List (String × Binding H)) :
    (bs.insertAll more).Distinct := by
  induction more generalizing bs with
  | nil => exact h
  | cons entry rest ih => exact ih (h.insert entry.1 entry.2)

theorem distinct_initial (given : List (String × Binding H)) : (initial given).Distinct :=
  have hempty : (empty : Bindings H).Distinct := List.nodup_nil
  (hempty.insertAll given).insertAll builtins

/-- The bindings are one mapping, whatever the order in which names were bound. -/
structure Same (bs cs : Bindings H) : Prop where
  distinct : bs.Distinct
  distinct' : cs.Distinct
  find? (name : String) : bs.find? name = cs.find? name

variable {bs cs : Bindings H}

theorem Same.insert (h : bs.Same cs) (name : String) (binding : Binding H) :
    (bs.insert name binding).Same (cs.insert name binding) := by
  refine ⟨h.distinct.insert name binding, h.distinct'.insert name binding, fun other => ?_⟩
  rw [find?_insert, find?_insert, h.find?]

theorem Same.erase (h : bs.Same cs) (name : String) : (bs.erase name).Same (cs.erase name) := by
  refine ⟨h.distinct.erase name, h.distinct'.erase name, fun other => ?_⟩
  rw [find?_erase, find?_erase, h.find?]

theorem Same.resolve? (h : bs.Same cs) (name : String) : bs.resolve? name = cs.resolve? name := by
  simp only [Bindings.resolve?, h.find? name]

theorem sorted_names (bs : Bindings H) : bs.names.Pairwise (· ≤ ·) := by
  have hsorted := @List.pairwise_mergeSort _ (fun a b : String => decide (a ≤ b))
    (fun a b c hab hbc => by
      simp only [decide_eq_true_eq] at hab hbc ⊢
      exact String.le_trans hab hbc)
    (fun a b => by
      simp only [Bool.or_eq_true, decide_eq_true_eq]
      exact String.le_total a b) bs.keys
  simp only [decide_eq_true_eq] at hsorted
  exact hsorted

theorem Same.names (h : bs.Same cs) : bs.names = cs.names := by
  have hkeys : bs.keys.Perm cs.keys := by
    refine (List.perm_ext_iff_of_nodup h.distinct h.distinct').mpr fun name => ?_
    rw [mem_keys_iff, mem_keys_iff, h.find?]
  exact List.Perm.eq_of_pairwise (fun _ _ _ _ => String.le_antisymm) bs.sorted_names cs.sorted_names
    (((List.mergeSort_perm _ _).trans hkeys).trans (List.mergeSort_perm _ _).symm)

theorem same_initial_append (given : List (String × Binding H)) {name : String}
    (hname : name ∉ (builtins (H := H)).map Prod.fst) (binding : Binding H) :
    (initial (given ++ [(name, binding)])).Same ((initial given).insert name binding) := by
  refine ⟨distinct_initial _, (distinct_initial _).insert name binding, fun other => ?_⟩
  simp only [builtins, List.map_cons, List.map_nil, List.mem_cons, List.not_mem_nil, or_false,
    not_or] at hname
  obtain ⟨hjoin, hrandom, hnumber⟩ := hname
  simp only [initial, insertAll, builtins, List.foldl_append, List.foldl_cons, List.foldl_nil,
    find?_insert]
  by_cases h : name = other
  · subst h
    simp only [if_neg (Ne.symm hjoin), if_neg (Ne.symm hrandom), if_neg (Ne.symm hnumber), if_true]
  · simp only [if_neg h]

end Bindings
end TagTemplate.Evaluation
