import TagTemplate.Proofs.Config.Misfits

/-! Mappings whose keys are texts. Such keys are the same only if they are equal, so that every entry of
a mapping can be looked up, and entries that are put in one after another keep their order. -/
namespace TagTemplate.Config

variable {path name : String} {key value item : Value} {entries : List (Value × Value)}
  {items : List (String × Value)}

theorem sameKey_text_iff (key : Value) (name : String) :
    key.sameKey (.text name) = true ↔ key = .text name := by
  cases key <;> simp [Value.sameKey, Value.number?]

theorem insertEntry_of_new (h : ∀ entry ∈ entries, entry.1.sameKey key = false) (value : Value) :
    Value.insertEntry entries key value = entries ++ [(key, value)] := by
  induction entries with
  | nil => rfl
  | cons entry rest ih =>
    obtain ⟨hentry, hrest⟩ := List.forall_mem_cons.mp h
    rw [Value.insertEntry, hentry, if_neg Bool.false_ne_true, ih hrest, List.cons_append]

theorem checkKeys_eq_ok_iff (names : List String) :
    checkKeys path names entries = .ok () ↔
      ∀ entry ∈ entries, ∃ name ∈ names, entry.1 = .text name := by
  have hunknown : ((entries.map Prod.fst).filter
      fun k => !names.any fun n => k.sameKey (.text n)).isEmpty = true ↔
      ∀ entry ∈ entries, ∃ name ∈ names, entry.1 = .text name := by
    simp [sameKey_text_iff]
  rw [← hunknown, checkKeys]
  split
  · next h => simp [h]
  · next h =>
    simp only [h, Bool.false_eq_true, iff_false]
    split
    · split <;> nofun
    · nofun

def named (items : List (String × Value)) : List (Value × Value) :=
  items.map fun item => (.text item.1, item.2)

theorem named_cons (name : String) (value : Value) (rest : List (String × Value)) :
    named ((name, value) :: rest) = (.text name, value) :: named rest :=
  rfl

theorem named_append (items others : List (String × Value)) :
    named (items ++ others) = named items ++ named others :=
  List.map_append

theorem notMem_of_nodup_append {α β : Type} {front rest : List (α × β)} {a : α} {b : β}
    (h : ((front ++ (a, b) :: rest).map Prod.fst).Nodup) : a ∉ front.map Prod.fst := by
  rw [List.map_append, List.map_cons, List.nodup_append] at h
  exact fun hmem => h.2.2 _ hmem _ List.mem_cons_self rfl

theorem mem_named : (.text name, value) ∈ named items ↔ (name, value) ∈ items := by
  simp [named]

theorem exists_of_mem_named {entry : Value × Value} (h : entry ∈ named items) :
    ∃ name, (name, entry.2) ∈ items ∧ entry.1 = .text name := by
  obtain ⟨item, hitem, rfl⟩ := List.mem_map.mp h
  exact ⟨item.1, hitem, rfl⟩

theorem sameKey_named_of_new (h : name ∉ items.map Prod.fst) :
    ∀ entry ∈ named items, entry.1.sameKey (.text name) = false := by
  intro entry hentry
  obtain ⟨other, hother, hkey⟩ := exists_of_mem_named hentry
  rw [Bool.eq_false_iff, Ne, sameKey_text_iff, hkey]
  rintro ⟨⟩
  exact h (List.mem_map_of_mem hother)

theorem insertEntry_named_of_new (h : name ∉ items.map Prod.fst) (value : Value) :
    Value.insertEntry (named items) (.text name) value = named (items ++ [(name, value)]) := by
  rw [insertEntry_of_new (sameKey_named_of_new h), named_append]
  rfl

def KeysApart (entries : List (Value × Value)) : Prop :=
  (entries.map Prod.fst).Pairwise fun a b => a.sameKey b = false

/-- An entry takes the place of the one with its key, and is put behind all others if there is none. -/
theorem keys_insertEntry (entries : List (Value × Value)) (key value : Value) :
    (Value.insertEntry entries key value).map Prod.fst = entries.map Prod.fst ∨
      ((∀ entry ∈ entries, entry.1.sameKey key = false) ∧
        Value.insertEntry entries key value = entries ++ [(key, value)]) := by
  by_cases hnew : ∀ entry ∈ entries, entry.1.sameKey key = false
  · exact .inr ⟨hnew, insertEntry_of_new hnew value⟩
  · left
    induction entries with
    | nil => exact absurd (List.forall_mem_nil _) hnew
    | cons entry rest ih =>
      obtain ⟨k, v⟩ := entry
      rw [Value.insertEntry]
      split
      · rfl
      · next hother =>
        rw [List.map_cons, List.map_cons, ih]
        exact fun hrest => hnew (List.forall_mem_cons.mpr ⟨by simpa using hother, hrest⟩)

theorem KeysApart.insertEntry (h : KeysApart entries) (key value : Value) :
    KeysApart (Value.insertEntry entries key value) := by
  unfold KeysApart
  obtain hsame | ⟨hnew, hbehind⟩ := keys_insertEntry entries key value
  · rw [hsame]
    exact h
  · rw [hbehind, List.map_append, List.pairwise_append]
    refine ⟨h, List.pairwise_singleton _ _, ?_⟩
    simpa using fun k v hentry => hnew (k, v) hentry

theorem keysApart_named_iff : KeysApart (named items) ↔ (items.map Prod.fst).Nodup := by
  rw [KeysApart, named, List.map_map, List.Nodup, List.pairwise_map, List.pairwise_map]
  refine List.Pairwise.iff ?_
  simp [Value.sameKey]

theorem lookup_named_self (name : String) (value : Value) (rest : List (String × Value)) :
    lookup (named ((name, value) :: rest)) name = some value := by
  simp [lookup, named, Value.sameKey]

theorem lookup_named_of_ne {other : String} (h : other ≠ name) (value : Value)
    (rest : List (String × Value)) :
    lookup (named ((other, value) :: rest)) name = lookup (named rest) name := by
  simp [lookup, named, Value.sameKey, h]

theorem lookup_named_eq_some_iff (h : (items.map Prod.fst).Nodup) :
    lookup (named items) name = some value ↔ (name, value) ∈ items := by
  induction items with
  | nil => simp [lookup, named]
  | cons item rest ih =>
    obtain ⟨other, held⟩ := item
    obtain ⟨hnew, hrest⟩ := List.nodup_cons.mp h
    by_cases hname : other = name
    · subst hname
      have habsent : (other, value) ∉ rest := fun hmem => hnew (List.mem_map.mpr ⟨_, hmem, rfl⟩)
      rw [lookup_named_self]
      simp [habsent, eq_comm]
    · rw [lookup_named_of_ne hname, ih hrest]
      simp [Ne.symm hname]

theorem lookup_named_eq_none_iff :
    lookup (named items) name = none ↔ ∀ value, (name, value) ∉ items := by
  simp only [lookup, named, Value.sameKey, Option.map_eq_none_iff, List.find?_eq_none,
    List.forall_mem_map, beq_iff_eq]
  exact ⟨fun h value hmem => h _ hmem rfl, fun h item hmem hname => h item.2 (hname ▸ hmem)⟩

theorem exists_sorted?_of_texts {keys : List Value} (h : ∀ key ∈ keys, ∃ name, key = .text name) :
    ∃ sorted, Value.sorted? keys = some sorted := by
  have hless : (keys.all fun a => keys.all fun b => (Value.less? a b).isSome) = true := by
    simp only [List.all_eq_true]
    intro a ha b hb
    obtain ⟨name, rfl⟩ := h a ha
    obtain ⟨other, rfl⟩ := h b hb
    rfl
  unfold Value.sorted?
  split
  · exact ⟨_, rfl⟩
  · exact ⟨_, rfl⟩
  · exact ⟨_, if_pos hless⟩

theorem checkKeys_named_cases (path : String) (names : List String) (items : List (String × Value)) :
    checkKeys path names (named items) = .ok () ∨
      ∃ reason, checkKeys path names (named items) = .error (.misfit path reason) := by
  unfold checkKeys
  generalize hunknown :
    ((named items).map Prod.fst).filter (fun k => !names.any fun n => k.sameKey (.text n)) = unknown
  have htexts : ∀ key ∈ unknown, ∃ name, key = .text name := by
    subst hunknown
    intro key hkey
    obtain ⟨entry, hentry, rfl⟩ := List.mem_map.mp (List.mem_filter.mp hkey).1
    obtain ⟨name, -, hname⟩ := exists_of_mem_named hentry
    exact ⟨name, hname⟩
  obtain ⟨sorted, hsorted⟩ := exists_sorted?_of_texts htexts
  have hwritable : sorted.all Value.isWritable = true := by
    rw [List.all_eq_true]
    intro key hkey
    obtain ⟨name, rfl⟩ := htexts key (mem_of_sorted? hsorted key hkey)
    rfl
  simp only [hsorted, hwritable, if_true]
  split
  · exact .inl rfl
  · exact .inr ⟨_, rfl⟩

end TagTemplate.Config
