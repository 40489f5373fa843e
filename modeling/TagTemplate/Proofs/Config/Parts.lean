import TagTemplate.Config.Schema

/-! The values inside a value, and what can be said of them from the whole: where a number stands that
is too long to be written, and which keys a mapping has. -/
namespace TagTemplate.Value

def children : Value → List Value
  | list items => items
  | tuple items => items
  | set items => items
  | mapping entries => entries.map Prod.fst ++ entries.map Prod.snd
  | ordered entries => entries.map Prod.fst ++ entries.map Prod.snd
  | record _ fields => fields.map Prod.snd
  | _ => []

/-- A value is the other one or stands inside it, at any depth. -/
inductive IsPart (part : Value) : Value → Prop where
  | self : IsPart part part
  | inside {child value : Value} : child ∈ value.children → IsPart part child → IsPart part value

def FlatKeys (value : Value) : Prop :=
  ∀ part entries, IsPart part value → part.entries? = some entries →
    ∀ entry ∈ entries, entry.1.entries? = none

variable {part value key item : Value} {entries : List (Value × Value)}

theorem IsPart.trans {inner : Value} (h : IsPart inner part) (h' : IsPart part value) :
    IsPart inner value := by
  induction h' with
  | self => exact h
  | inside hchild _ ih => exact .inside hchild ih

theorem children_of_entries? (h : value.entries? = some entries) :
    value.children = entries.map Prod.fst ++ entries.map Prod.snd := by
  cases value <;> cases h <;> rfl

theorem isPart_key (h : value.entries? = some entries) (hentry : (key, item) ∈ entries) :
    IsPart key value := by
  refine .inside ?_ .self
  rw [children_of_entries? h]
  exact List.mem_append_left _ (List.mem_map_of_mem hentry)

theorem isPart_item (h : value.entries? = some entries) (hentry : (key, item) ∈ entries) :
    IsPart item value := by
  refine .inside ?_ .self
  rw [children_of_entries? h]
  exact List.mem_append_right _ (List.mem_map_of_mem hentry)

theorem FlatKeys.of_part (h : value.FlatKeys) (hpart : IsPart part value) : part.FlatKeys :=
  fun inner entries hinner => h inner entries (hinner.trans hpart)

theorem FlatKeys.of_children
    (hown : ∀ entries, value.entries? = some entries → ∀ entry ∈ entries, entry.1.entries? = none)
    (hchildren : ∀ child ∈ value.children, child.FlatKeys) : value.FlatKeys := by
  intro part entries hpart
  cases hpart with
  | self => exact hown entries
  | inside hchild hinner => exact hchildren _ hchild part entries hinner

theorem FlatKeys.of_no_children (h : value.children = []) : value.FlatKeys := by
  refine .of_children ?_ (by simp [h])
  intro entries hentries entry hentry
  rw [children_of_entries? hentries] at h
  have hnil : entries = [] := by simpa using (List.append_eq_nil_iff.mp h).1
  simp [hnil] at hentry

def HoldsLong (value : Value) : Prop :=
  ∃ n : Number, IsPart (.number n) value ∧ n.isWritable = false

theorem HoldsLong.of_part (hpart : IsPart part value) (h : part.HoldsLong) : value.HoldsLong := by
  obtain ⟨n, hn, hlong⟩ := h
  exact ⟨n, hn.trans hpart, hlong⟩

theorem HoldsLong.of_children (h : ∃ child ∈ value.children, child.HoldsLong) :
    value.HoldsLong := by
  obtain ⟨child, hchild, hlong⟩ := h
  exact hlong.of_part (.inside hchild .self)

mutual
theorem holdsLong_of_not_isWritable : (value : Value) → value.isWritable = false →
    value.HoldsLong
  | number n, h => ⟨n, .self, h⟩
  | list items, h => .of_children (holdsLong_of_not_areWritable items h)
  | tuple items, h => .of_children (holdsLong_of_not_areWritable items h)
  | set items, h => .of_children (holdsLong_of_not_areWritable items h)
  | mapping entries, h => .of_children (holdsLong_of_not_entriesWritable entries h)
  | ordered entries, h => .of_children (holdsLong_of_not_entriesWritable entries h)
  | record _ fields, h => .of_children (holdsLong_of_not_fieldsWritable fields h)
  | null, h | bool _, h | text _, h | octets _, h | moment _, h | other .., h => nomatch h

theorem holdsLong_of_not_areWritable : (items : List Value) → areWritable items = false →
    ∃ item ∈ items, item.HoldsLong
  | [], h => nomatch h
  | item :: rest, h => by
    rcases Bool.and_eq_false_iff.mp h with hitem | hrest
    · exact ⟨item, List.mem_cons_self, holdsLong_of_not_isWritable item hitem⟩
    · obtain ⟨other, hmem, hlong⟩ := holdsLong_of_not_areWritable rest hrest
      exact ⟨other, List.mem_cons_of_mem item hmem, hlong⟩

theorem holdsLong_of_not_entriesWritable : (entries : List (Value × Value)) →
    entriesWritable entries = false →
    ∃ child ∈ entries.map Prod.fst ++ entries.map Prod.snd, child.HoldsLong
  | [], h => nomatch h
  | (key, item) :: rest, h => by
    rcases Bool.and_eq_false_iff.mp h with hentry | hrest
    · rcases Bool.and_eq_false_iff.mp hentry with hkey | hitem
      · exact ⟨key, by simp, holdsLong_of_not_isWritable key hkey⟩
      · exact ⟨item, by simp, holdsLong_of_not_isWritable item hitem⟩
    · obtain ⟨child, hmem, hlong⟩ := holdsLong_of_not_entriesWritable rest hrest
      refine ⟨child, ?_, hlong⟩
      rw [List.mem_append] at hmem
      simp only [List.map_cons, List.cons_append, List.mem_cons, List.mem_append]
      exact .inr (hmem.imp_right .inr)

theorem holdsLong_of_not_fieldsWritable : (fields : List (String × Value)) →
    fieldsWritable fields = false → ∃ child ∈ fields.map Prod.snd, child.HoldsLong
  | [], h => nomatch h
  | (_, item) :: rest, h => by
    rcases Bool.and_eq_false_iff.mp h with hitem | hrest
    · exact ⟨item, by simp, holdsLong_of_not_isWritable item hitem⟩
    · obtain ⟨child, hmem, hlong⟩ := holdsLong_of_not_fieldsWritable rest hrest
      exact ⟨child, List.mem_cons_of_mem _ hmem, hlong⟩
end

end TagTemplate.Value
